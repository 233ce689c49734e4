import Chronicle.SortedMap
import Chronicle.Toml

-- The tables of a TOML text while it is read: headers and dotted names open
-- tables inside of each other, and no entry may be given twice.

namespace Chronicle.Toml

-- What brought a table about.
inductive Origin where
  -- A header of its own.
  | header
  -- The header of a table inside of it.
  | implied
  -- A dotted name.
  | dotted
  deriving DecidableEq

inductive Node where
  -- Values are closed: no header or dotted name leads into them.
  | leaf (value : Toml)
  | table (origin : Origin) (entries : List (String × Node))
  -- Tables under one repeated header. Headers and names lead into the newest.
  | tables (newest : List (String × Node)) (older : List (List (String × Node)))

namespace Tables

mutual

def value : Node → Toml
  | .leaf v => v
  | .table _ entries => .table (values entries)
  | .tables newest older => .array (items older [.table (values newest)])

def values : List (String × Node) → List (String × Toml)
  | [] => []
  | (name, node) :: rest => (name, value node) :: values rest

-- Older tables come first.
def items : List (List (String × Node)) → List Toml → List Toml
  | [], newer => newer
  | entries :: older, newer => items older (.table (values entries) :: newer)

end

-- Changes the entries of the table at a path and makes the tables that are
-- missing on the way there. A dotted name does not lead into a table that has a
-- header of its own.
def modifyAt? (dotted : Bool)
    (change : Origin → List (String × Node) → Option (List (String × Node))) :
    List String → Origin → List (String × Node) → Option (List (String × Node))
  | [], origin, entries => change origin entries
  | name :: path, _, entries =>
      match Entries.get? name entries with
      | none => do
          let origin := if dotted then .dotted else .implied
          let inner ← modifyAt? dotted change path origin []
          some (Entries.insert name (.table origin inner) entries)
      | some (.table origin inner) =>
          if dotted ∧ origin = .header then none
          else do
            let inner ← modifyAt? dotted change path origin inner
            some (Entries.insert name (.table origin inner) entries)
      | some (.tables newest older) => do
          let newest ← modifyAt? dotted change path .header newest
          some (Entries.insert name (.tables newest older) entries)
      | some (.leaf _) => none

def find? : List String → List (String × Node) → Option Node
  | [], _ => none
  | [name], entries => Entries.get? name entries
  | name :: path, entries =>
      match Entries.get? name entries with
      | some (.table _ inner) => find? path inner
      | some (.tables newest _) => find? path newest
      | _ => none

def add? (name : String) (node : Node) (entries : List (String × Node)) :
    Option (List (String × Node)) :=
  match Entries.get? name entries with
  | none => some (Entries.insert name node entries)
  | some _ => none

-- Adds a value under a name, which is dotted if a path leads to it. Dotted names
-- lead to tables of their own kind only.
def addValue? (path : List String) (name : String) (v : Toml) (entries : List (String × Node)) :
    Option (List (String × Node)) :=
  let dotted := !path.isEmpty
  modifyAt? dotted
    (fun origin entries =>
      if (origin = .dotted) ↔ dotted then add? name (.leaf v) entries else none)
    path .header entries

structure Header where
  path : List String
  name : String
  repeated : Bool

-- The text up to some line: the tables that are closed, and the entries under
-- the last header.
structure State where
  closed : List (String × Node)
  header : Option Header
  current : List (String × Node)

def State.empty : State := ⟨[], none, []⟩

-- Puts the entries under the last header where they belong. An implied table of
-- that name was taken up when the header was opened.
def State.close? (state : State) : Option (List (String × Node)) :=
  match state.header with
  | none => some state.current
  | some header =>
      modifyAt? false
        (fun _ entries =>
          if header.repeated then
            match Entries.get? header.name entries with
            | none => some (Entries.insert header.name (.tables state.current []) entries)
            | some (.tables newest older) =>
                some (Entries.insert header.name (.tables state.current (newest :: older)) entries)
            | some _ => none
          else some (Entries.insert header.name (.table .header state.current) entries))
        header.path .header state.closed

-- Only an implied table may get a header later.
def State.open? (state : State) (header : Header) : Option State := do
  let closed ← state.close?
  if header.repeated then some ⟨closed, some header, []⟩
  else
    match find? (header.path ++ [header.name]) closed with
    | none => some ⟨closed, some header, []⟩
    | some (.table .implied entries) => some ⟨closed, some header, entries⟩
    | some _ => none

def State.add? (state : State) (path : List String) (name : String) (v : Toml) : Option State := do
  some { state with current := ← addValue? path name v state.current }

end Tables

end Chronicle.Toml
