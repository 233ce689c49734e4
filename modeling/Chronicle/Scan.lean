import Chronicle.Power
import Chronicle.Table

-- Views of a table at one moment, and scans that read a range of it page by
-- page in key order.

namespace Chronicle

structure Snapshot where
  table : Table
  pageSize : Nat

namespace Snapshot

-- A page never holds more entries than this.
def maxPage : Nat := twoTo 63 - 1

-- A page has room for one entry at least.
def ofTable (table : Table) (pageSize : Nat) : Snapshot := ⟨table, max pageSize 1⟩

def value? (snapshot : Snapshot) (key : Bytes) : Option Bytes := snapshot.table.value? key

-- The first entries of a range, as many as a page holds.
def page (snapshot : Snapshot) (range : KeyRange) : List (Bytes × Bytes) :=
  (snapshot.table.liveIn range).take (min snapshot.pageSize maxPage)

end Snapshot

-- A scan of `range` that has answered the entries up to `lastKey`. It holds the
-- entries of the current page that are still to come.
structure Scan where
  snapshot : Snapshot
  range : KeyRange
  nextPage : KeyRange
  buffer : List (Bytes × Bytes)
  lastKey : Option Bytes
  -- No page follows the buffer.
  done : Bool

namespace Scan

def start (snapshot : Snapshot) (range : KeyRange) : Scan :=
  { snapshot := snapshot
    range := range
    nextPage := range
    buffer := []
    lastKey := none
    done := range.isEmpty }

-- The part of the range that is still to come.
def remaining (scan : Scan) : KeyRange :=
  match scan.lastKey with
  | some key => scan.range.after key
  | none => scan.range

-- Reads the next page. A page that is not full is the last one.
def fill (scan : Scan) : Scan :=
  let page := scan.snapshot.page scan.nextPage
  let nextPage :=
    match page.getLast? with
    | some entry => scan.nextPage.after entry.1
    | none => scan.nextPage
  { scan with
    buffer := scan.buffer ++ page
    nextPage := nextPage
    done := scan.done || page.length < scan.snapshot.pageSize }

-- Reads a page when the buffer has run out.
def refill (scan : Scan) : Scan :=
  if scan.buffer.isEmpty && !scan.done then scan.fill else scan

-- The next entry and the scan after it.
def next (scan : Scan) : Option (Bytes × Bytes) × Scan :=
  let scan := scan.refill
  match scan.buffer with
  | [] => (none, scan)
  | entry :: rest => (some entry, { scan with buffer := rest, lastKey := some entry.1 })

-- At most `count` entries, whether the end was met, and the scan after them.
def take (count : Nat) (scan : Scan) : List (Bytes × Bytes) × Bool × Scan :=
  match count with
  | 0 => ([], false, scan)
  | count + 1 =>
      match scan.next with
      | (none, scan) => ([], true, scan)
      | (some entry, scan) =>
          let (entries, atEnd, scan) := take count scan
          (entry :: entries, atEnd, scan)

-- As many entries as there are in the table, and one more attempt.
def toEnd (scan : Scan) : List (Bytes × Bytes) × Bool × Scan :=
  scan.take (scan.snapshot.table.size + 1)

end Scan

end Chronicle
