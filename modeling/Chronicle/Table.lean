import Chronicle.KeyRange
import Chronicle.SortedMap

-- Tables of keys and values in key order. A deleted key leaves a tombstone
-- until the table is compacted.

namespace Chronicle

inductive Cell where
  | live (value : Bytes)
  | tombstone
  deriving DecidableEq

def Cell.value? : Cell → Option Bytes
  | .live value => some value
  | .tombstone => none

def Cell.isLive (cell : Cell) : Bool := cell.value?.isSome

-- One change of a table.
inductive Mutation where
  | put (key value : Bytes)
  | delete (key : Bytes)
  deriving DecidableEq

-- Changes that are made together, in order.
abbrev Batch := List Mutation

abbrev Table := SortedMap Bytes Cell

structure TableStats where
  live : Nat
  tombstones : Nat
  deriving DecidableEq

namespace Table

-- The value of a live key.
def value? (table : Table) (key : Bytes) : Option Bytes := (table.get? key).bind Cell.value?

def put (table : Table) (key value : Bytes) : Table := table.insert key (.live value)

-- Later cells win.
def ofList (cells : List (Bytes × Cell)) : Table := SortedMap.ofList cells

-- A tombstone is left for an absent key too.
def delete (table : Table) (key : Bytes) : Table := table.insert key .tombstone

def apply (table : Table) : Mutation → Table
  | .put key value => table.put key value
  | .delete key => table.delete key

def applyAll (table : Table) (batch : Batch) : Table := batch.foldl apply table

-- The live entries in key order.
def liveEntries (table : Table) : List (Bytes × Bytes) :=
  table.toList.filterMap fun entry => entry.2.value?.map fun value => (entry.1, value)

-- The live entries whose keys are in a range.
def liveIn (table : Table) (range : KeyRange) : List (Bytes × Bytes) :=
  table.liveEntries.filter fun entry => range.contains entry.1

def stats (table : Table) : TableStats :=
  { live := table.toList.countP fun entry => entry.2.isLive
    tombstones := table.toList.countP fun entry => !entry.2.isLive }

-- Without tombstones.
def compact (table : Table) : Table := table.filter fun _ cell => cell.isLive

end Table

end Chronicle
