import Chronicle.Json
import Chronicle.Text.Pieces

-- Dotted paths into objects. Every dot separates two names, so names may be
-- empty; the empty path is the whole tree.

namespace Chronicle.Json

-- The names of a path; there is always one.
def segments (path : String) : List String := (Text.pieces '.' path.toList).map String.ofList

def member? (name : String) : Json → Option Json
  | .object members => Entries.get? name members
  | _ => none

def follow : List String → Json → Option Json
  | [], tree => some tree
  | name :: rest, tree => do follow rest (← tree.member? name)

-- The tree at a path.
def lookup (tree : Json) (path : String) : Option Json :=
  if path.isEmpty then some tree else follow (segments path) tree

-- The name that a path begins with.
def root (path : String) : String := (segments path).headD ""

-- A member of an object and the object without it.
def remove? (name : String) : Json → Option (Json × Json)
  | .object members => do
      some (← Entries.get? name members, .object (Entries.erase name members))
  | _ => none

-- The node at a path and the tree without it.
def removeAt? : List String → String → Json → Option (Json × Json)
  | [], last, tree => tree.remove? last
  | name :: rest, last, .object members => do
      let (node, child) ← removeAt? rest last (← Entries.get? name members)
      some (node, .object (Entries.insert name child members))
  | _ :: _, _, _ => none

-- The names that lead to the node above a path. What comes before the last dot
-- is a path, and an empty one is the whole tree.
def above (path : String) : List String :=
  match (segments path).dropLast with
  | [""] => []
  | names => names

-- Takes the node at a path out of the tree. Null is left of a whole tree.
def take? (tree : Json) (path : String) : Option (Json × Json) :=
  if path.isEmpty then some (tree, .null)
  else removeAt? (above path) ((segments path).getLastD "") tree

end Chronicle.Json
