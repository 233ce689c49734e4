import Chronicle.Import.Config
import Chronicle.Json.Path
import Chronicle.Json.Reader

-- Documents as JSON trees. A TOML document is lowered to one: dates and times
-- become their texts, and numbers that JSON lacks become null and are noted.

namespace Chronicle.Import

-- A float that was read as null, and where it stood.
structure Note where
  path : String
  value : Binary64
  deriving DecidableEq

def Note.message (note : Note) : String :=
  "non-finite float " ++ Decimal.plain.render note.value ++ " at '" ++ note.path ++ "' read as null"

-- The path of a child; at the root of a document it is the child's name.
def childPath (path name : String) : String := if path.isEmpty then name else path ++ "." ++ name

-- A date or time that is spelt in a string.
def heldMoment? (held : Toml) : Option Toml.Moment := do Toml.moment? (← held.string?).toList

mutual

-- A value below the root of a document. Integers are signed ones of 64 bits. A
-- table whose first entry has the name that is kept for dates and times stands
-- for the one that the entry holds, whatever follows it.
def lower? (path : String) : Toml → Option (Json × List Note)
  | .string s => some (.string s, [])
  | .integer n => if -twoTo 63 ≤ n ∧ n < twoTo 63 then some (.number (.int n), []) else none
  | .float x => some (if x.isFinite then (.number (.float x), []) else (.null, [⟨path, x⟩]))
  | .boolean b => some (.bool b, [])
  | .moment m => some (.string m.render, [])
  | .illegible => none
  | .array items => do
      let (items, notes) ← lowerItems? path 0 items
      some (.array items, notes)
  | .table entries =>
      match entries.head?.filter fun entry => entry.1 = Toml.momentEntry with
      | some (_, held) => do some (.string (← heldMoment? held).render, [])
      | none => do
          let (members, notes) ← lowerEntries? path entries
          some (.object members, notes)

-- Items are named by their positions.
def lowerItems? (path : String) (position : Nat) : List Toml → Option (List Json × List Note)
  | [] => some ([], [])
  | item :: rest => do
      let (tree, notes) ← lower? (childPath path (toString position)) item
      let (trees, others) ← lowerItems? path (position + 1) rest
      some (tree :: trees, notes ++ others)

def lowerEntries? (path : String) :
    List (String × Toml) → Option (List (String × Json) × List Note)
  | [] => some ([], [])
  | (name, item) :: rest => do
      let (tree, notes) ← lower? (childPath path name) item
      let (trees, others) ← lowerEntries? path rest
      some ((name, tree) :: trees, notes ++ others)

end

-- The tree of a document and the notes on it, if its text is well-formed.
def document? (format : Format) (text : String) : Option (Json × List Note) :=
  match format with
  | .json => (Json.parse? text).map fun tree => (tree, [])
  | .toml => do
      let (members, notes) ← lowerEntries? "" (← Toml.parse? text)
      some (.object members, notes)

end Chronicle.Import
