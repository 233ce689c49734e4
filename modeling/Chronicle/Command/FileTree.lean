import Chronicle.Command.Host

-- A host that keeps its files in memory. A place is the list of names that lead
-- to a file from the root of all files.

namespace Chronicle.Command

inductive FileNode where
  | file (text : String)
  | database (directory : Directory)
  | directory (entries : List (String × FileNode))

namespace FileNode

instance : Inhabited FileNode := ⟨.directory []⟩

def isDirectory : FileNode → Bool
  | .directory _ => true
  | _ => false

def child? : FileNode → String → Option FileNode
  | .directory entries, name => (entries.find? fun entry => entry.1 = name).map (·.2)
  | _, _ => none

def setChild : FileNode → String → FileNode → FileNode
  | .directory entries, name, node =>
      .directory ((name, node) :: entries.filter fun entry => entry.1 ≠ name)
  | other, _, _ => other

def get? : FileNode → List String → Option FileNode
  | node, [] => some node
  | node, name :: rest => do get? (← node.child? name) rest

-- Puts a node at a place, with directories above it where there is nothing yet.
def set : FileNode → List String → FileNode → FileNode
  | _, [], new => new
  | node, name :: rest, new =>
      node.setChild name (set ((node.child? name).getD (.directory [])) rest new)

-- The names of the files in a directory, but not of the directories.
def fileNames : FileNode → List String
  | .directory entries => (entries.filter fun entry => !entry.2.isDirectory).map (·.1)
  | _ => []

end FileNode

structure FileTree where
  root : FileNode
  deriving Inhabited

namespace FileTree

-- The directory that the program runs in.
def here : List String := ["tmp", "in-progress"]

def empty : FileTree := ⟨(FileNode.directory []).set here (.directory [])⟩

-- The names in a path, an empty one where nothing stands beside a slash.
def names (path : String) : List String :=
  (Text.pieces '/' path.toList).map String.ofList

-- Where a path starts and the names that are followed from there.
def start (path : String) : List String × List String :=
  match names path with
  | "" :: rest => ([], rest)
  | names => (here, names)

-- Names have at most 255 bytes, paths at most 4095.
def checkName (name : String) : Except FileError Unit :=
  if 255 < name.utf8ByteSize then .error .nameTooLong else .ok ()

def checkPath (path : String) : Except FileError Unit :=
  if path.toList.contains '\x00' then .error .nullCharacter
  else if path.isEmpty then .error .notFound
  else if 4095 < path.utf8ByteSize then .error .nameTooLong
  else .ok ()

-- A file on the way along a path, with its name and with the directories that
-- lead to it, the nearest one first. What is missing has no node.
structure Position where
  place : List String
  node : Option FileNode
  above : List FileNode

namespace Position

def enter (position : Position) : Except FileError FileNode :=
  match position.node with
  | some (.directory entries) => .ok (.directory entries)
  | some _ => .error .notADirectory
  | none => .error .notFound

-- Every directory contains itself and the one above it.
def step (position : Position) (name : String) : Except FileError Position := do
  let directory ← position.enter
  if name = "" ∨ name = "." then return position
  else if name = ".." then
    match position.above with
    | parent :: above => return ⟨position.place.tail, some parent, above⟩
    | [] => return position
  else
    checkName name
    return ⟨name :: position.place, directory.child? name, directory :: position.above⟩

end Position

def walk (tree : FileTree) (place names : List String) : Except FileError Position := do
  (place ++ names).foldlM Position.step ⟨[], some tree.root, []⟩

-- The file that a path leads to.
def find (tree : FileTree) (path : String) : Except FileError FileNode := do
  checkPath path
  let (place, names) := start path
  match (← tree.walk place names).node with
  | some node => return node
  | none => throw .notFound

-- Where a path would make a file: the directory and the name in it. Slashes may
-- follow the name.
structure Spot where
  directory : Position
  name : String
  slashed : Bool

-- Dots name no new file.
def Spot.isTaken (spot : Spot) : Bool := spot.name = "." || spot.name = ".." || spot.name = ""

def spot (tree : FileTree) (path : String) : Except FileError Spot := do
  checkPath path
  let (place, names) := start path
  let reversed := names.reverse.dropWhile (·.isEmpty)
  let directory ← tree.walk place reversed.tail.reverse
  discard directory.enter
  return ⟨directory, reversed.headD "", reversed.length < names.length⟩

def Spot.node? (spot : Spot) : Option FileNode := spot.directory.node.bind (·.child? spot.name)

def put (tree : FileTree) (spot : Spot) (node : FileNode) : FileTree :=
  ⟨tree.root.set (spot.name :: spot.directory.place).reverse node⟩

def readText (tree : FileTree) (path : String) : Except FileError String := do
  match ← tree.find path with
  | .file text => return text
  | .database _ => throw .notText
  | .directory _ => throw .isADirectory

def isDirectory (tree : FileTree) (path : String) : Bool :=
  match tree.find path with
  | .ok node => node.isDirectory
  | .error _ => false

def listFiles (tree : FileTree) (path : String) : Except FileError (List String) := do
  let node ← tree.find path
  if node.isDirectory then return node.fileNames
  throw .notADirectory

-- A missing file is made, and a truncated one is emptied.
def openLog (tree : FileTree) (path : String) (truncate : Bool) : Except FileError FileTree := do
  let spot ← tree.spot path
  if spot.isTaken ∨ spot.slashed then throw .isADirectory
  checkName spot.name
  match spot.node? with
  | some (.directory _) => throw .isADirectory
  | some _ => return if truncate then tree.put spot (.file "") else tree
  | none => return tree.put spot (.file "")

def makeDirectory (tree : FileTree) (path : String) : Except FileError FileTree := do
  let spot ← tree.spot path
  if spot.isTaken then throw .exists
  checkName spot.name
  match spot.node? with
  | some _ => throw .exists
  | none => return tree.put spot (.directory [])

-- Where a path leads whatever files there are.
def place (path : String) : List String :=
  let (place, names) := start path
  let step (reversed : List String) (name : String) : List String :=
    if name = "" ∨ name = "." then reversed
    else if name = ".." then reversed.tail
    else name :: reversed
  (names.foldl step place.reverse).reverse

-- The length of a place as a path from the root.
def pathLength (place : List String) : Nat :=
  place.foldl (fun length name => length + 1 + name.utf8ByteSize) 0

-- A database and the files beside it have paths of at most 512 bytes, of which
-- eight set a file apart from the database. An empty file is an empty database.
def openDatabase (tree : FileTree) (path : String) : Database × FileTree :=
  let place := place path
  let fresh : Database × FileTree :=
    (.table Directory.fresh, ⟨tree.root.set place (.database Directory.fresh)⟩)
  if 512 < pathLength place + 8 then (.unreachable, tree)
  else
    match tree.root.get? place with
    | some (.database directory) => (.table directory, tree)
    | some (.file text) => if text.isEmpty then fresh else (.foreign, tree)
    | some (.directory _) => (.unreachable, tree)
    | none =>
        match tree.root.get? place.dropLast with
        | some (.directory _) => fresh
        | _ => (.unreachable, tree)

def saveDatabase (tree : FileTree) (path : String) (directory : Directory) : FileTree :=
  ⟨tree.root.set (place path) (.database directory)⟩

-- Adds a file with the directories above it.
def addFile (tree : FileTree) (path text : String) : FileTree :=
  ⟨tree.root.set (place path) (.file text)⟩

def change (action : FileTree → Except FileError FileTree) :
    StateM FileTree (Except FileError Unit) := fun tree =>
  match action tree with
  | .ok tree => (.ok (), tree)
  | .error error => (.error error, tree)

-- Imports are not told apart.
def host : Host (StateM FileTree) where
  readText path := do return (← get).readText path
  isDirectory path := do return (← get).isDirectory path
  listFiles path := do return (← get).listFiles path
  openLog path truncate := change fun tree => tree.openLog path truncate
  makeDirectory path := change fun tree => tree.makeDirectory path
  openDatabase path := fun tree => tree.openDatabase path
  saveDatabase path directory := modify fun tree => tree.saveDatabase path directory
  newBatch := return "*"

end FileTree

end Chronicle.Command
