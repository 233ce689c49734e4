import Chronicle.Scan

-- Stores: a directory holds a table, and one store at a time holds the
-- directory.

namespace Chronicle

structure Directory where
  -- The version of the layout on disk.
  format : String
  table : Table
  -- Whether a store holds the directory.
  held : Bool

namespace Directory

def currentFormat : String := "1"

-- A directory that no store was ever opened in. It has its empty table and the current
-- format from the start: on disk both are made by the first opening.
def fresh : Directory := ⟨Directory.currentFormat, ∅, false⟩

instance : Inhabited Directory := ⟨fresh⟩

-- Takes a directory that nobody holds.
def take? (directory : Directory) : Option Directory :=
  if directory.held then none else some { directory with held := true }

def release (directory : Directory) : Directory := { directory with held := false }

end Directory

inductive StorageError where
  | locked (path : String)
  | incompatibleFormat (found : String)
  deriving DecidableEq

def StorageError.message : StorageError → String
  | .locked path => "store at " ++ path ++ " is already open"
  | .incompatibleFormat found =>
      "incompatible store format: store format " ++ found ++ ", expected " ++
        Directory.currentFormat

structure StorageOptions where
  -- How long a write waits for others, in milliseconds.
  busyTimeout : Nat
  pageSize : Nat
  maxIdleReaders : Nat
  deriving DecidableEq

def StorageOptions.default : StorageOptions := ⟨5000, 256, 4⟩

-- An open store.
structure Storage where
  -- How the directory was named.
  path : String
  directory : Directory
  options : StorageOptions

namespace Storage

-- How an opening goes: the directory is taken before its format is looked at, and given
-- back when the opening comes to nothing. Answers what came of it and the directory that
-- is left. On disk the files, the tables and the mark of the format are made on the way
-- where they are missing. That is left out, since every directory here has them, and so is
-- all that the disk may refuse.
def attempt (directory : Directory) (path : String) (options : StorageOptions) :
    Except StorageError Storage × Directory :=
  match directory.take? with
  | none => (.error (.locked path), directory)
  | some taken =>
      if taken.format ≠ Directory.currentFormat then
        (.error (.incompatibleFormat taken.format), taken.release)
      else (.ok ⟨path, taken, options⟩, taken)

-- The store that comes of an attempt.
def openIn (directory : Directory) (path : String) (options : StorageOptions) :
    Except StorageError Storage :=
  (attempt directory path options).1

def close (store : Storage) : Directory := store.directory.release

def table (store : Storage) : Table := store.directory.table

def modify (change : Table → Table) (store : Storage) : Storage :=
  { store with directory := { store.directory with table := change store.table } }

def put (store : Storage) (key value : Bytes) : Storage := store.modify (·.put key value)

def delete (store : Storage) (key : Bytes) : Storage := store.modify (·.delete key)

def write (store : Storage) (batch : Batch) : Storage := store.modify (·.applyAll batch)

def value? (store : Storage) (key : Bytes) : Option Bytes := store.table.value? key

def snapshot (store : Storage) : Snapshot := Snapshot.ofTable store.table store.options.pageSize

def scan (store : Storage) (range : KeyRange) : Scan := Scan.start store.snapshot range

def stats (store : Storage) : TableStats := store.table.stats

-- Removes the tombstones and answers how many there were.
def compact (store : Storage) : Nat × Storage :=
  (store.stats.tombstones, store.modify Table.compact)

end Storage

end Chronicle
