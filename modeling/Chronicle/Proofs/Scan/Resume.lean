import Chronicle.Proofs.Scan

-- A scan answers entry after entry and then nothing, whatever the size of its
-- pages. What it has left is a range, which another scan can go on with, over the
-- same table or over another one.

namespace Chronicle

-- All that a reader finds under the keys of some kind, once each and in order.
structure Table.Lists (table : Table) (kind : Bytes → Prop) (entries : List (Bytes × Bytes)) :
    Prop where
  ascending : Ascending entries
  mem_iff : ∀ key value, (key, value) ∈ entries ↔ table.value? key = some value ∧ kind key

theorem Table.lists_liveIn (table : Table) (range : KeyRange) :
    table.Lists (fun key => range.contains key = true) (table.liveIn range) := by
  refine ⟨table.ascending_liveIn range, fun key value => ?_⟩
  rw [mem_liveIn, value?_eq_some_iff]

namespace Scan

-- The scan after it was asked so many times.
def skip : Nat → Scan → Scan
  | 0, scan => scan
  | count + 1, scan => skip count scan.next.2

section Skip

variable {scan : Scan}

theorem sound_skip (h : scan.Sound) (count : Nat) : (scan.skip count).Sound := by
  induction count generalizing scan with
  | zero => exact h
  | succ count ih => exact ih (sound_next h)

theorem pending_skip (h : scan.Sound) (count : Nat) :
    (scan.skip count).pending = scan.pending.drop count := by
  induction count generalizing scan with
  | zero => rfl
  | succ count ih => rw [skip, ih (sound_next h), pending_next h, List.drop_tail]

theorem fst_next_skip (h : scan.Sound) (count : Nat) :
    (scan.skip count).next.1 = scan.pending[count]? := by
  rw [fst_next (sound_skip h count), pending_skip h, List.head?_drop]

theorem refill_keeps (scan : Scan) :
    scan.refill.range = scan.range ∧ scan.refill.lastKey = scan.lastKey := by
  unfold refill
  split <;> exact ⟨rfl, rfl⟩

theorem range_next (scan : Scan) : scan.next.2.range = scan.range := by
  unfold next
  cases hbuffer : scan.refill.buffer <;> simp [hbuffer, refill_keeps]

theorem range_skip (scan : Scan) (count : Nat) : (scan.skip count).range = scan.range := by
  induction count generalizing scan with
  | zero => rfl
  | succ count ih => rw [skip, ih, range_next]

theorem lastKey_next (h : scan.Sound) :
    scan.next.2.lastKey = (scan.pending.head?.map (·.1)).or scan.lastKey := by
  rw [← fst_next h]
  unfold next
  cases hbuffer : scan.refill.buffer <;> simp [hbuffer, refill_keeps]

-- The last key is that of the last entry that was answered.
theorem lastKey_skip (h : scan.Sound) (count : Nat) :
    (scan.skip count).lastKey =
      ((scan.pending.take count).getLast?.map (·.1)).or scan.lastKey := by
  induction count generalizing scan with
  | zero => rfl
  | succ count ih =>
      rw [skip, ih (sound_next h), pending_next h, lastKey_next h]
      cases scan.pending with
      | nil => simp
      | cons entry rest =>
          rw [List.tail_cons, List.take_succ_cons, List.getLast?_cons]
          cases (rest.take count).getLast? <;> rfl

end Skip

-- The part of a range that is still to come after some entries.
def rangeAfter (range : KeyRange) (entries : List (Bytes × Bytes)) : KeyRange :=
  match entries.getLast? with
  | some last => range.after last.1
  | none => range

-- The keys of a range that come after the last of some entries.
def Behind (range : KeyRange) (entries : List (Bytes × Bytes)) (key : Bytes) : Prop :=
  range.contains key = true ∧ ∀ last, entries.getLast? = some last → last.1 < key

theorem contains_rangeAfter {range : KeyRange} {entries : List (Bytes × Bytes)} {key : Bytes} :
    (rangeAfter range entries).contains key = true ↔ Behind range entries key := by
  unfold rangeAfter Behind
  cases entries.getLast? with
  | none => simp
  | some last => simp [KeyRange.contains_after]

theorem remaining_skip {table : Table} {pageSize : Nat} {range : KeyRange}
    (h : (Snapshot.ofTable table pageSize).HasRoom) (count : Nat) :
    ((start (Snapshot.ofTable table pageSize) range).skip count).remaining =
      rangeAfter range ((table.liveIn range).take count) := by
  have hpending : (start (Snapshot.ofTable table pageSize) range).pending = table.liveIn range :=
    pending_start _ range
  have hlast := lastKey_skip (sound_start range h) count
  rw [hpending] at hlast
  rw [remaining, hlast, range_skip, rangeAfter]
  cases ((table.liveIn range).take count).getLast? <;> rfl

-- What was answered and what is listed in the rest of the range are the whole.
theorem take_append_liveIn_rangeAfter (table : Table) (range : KeyRange) (count : Nat) :
    (table.liveIn range).take count ++
      table.liveIn (rangeAfter range ((table.liveIn range).take count)) = table.liveIn range := by
  have hparts := List.take_append_drop count (table.liveIn range)
  unfold rangeAfter
  cases hlast : ((table.liveIn range).take count).getLast? with
  | none => rw [List.getLast?_eq_none_iff.mp hlast, List.nil_append]
  | some last =>
      have hasc := table.ascending_liveIn range
      rw [← hparts] at hasc
      have hrest := filter_after_last hasc hlast
      rw [hparts] at hrest
      rw [Table.liveIn_after, hrest, hparts]

-- A scan of a range of a table, asked again and again.
structure Exact (table : Table) (pageSize : Nat) (range : KeyRange)
    (entries : List (Bytes × Bytes)) : Prop where
  lists : table.Lists (fun key => range.contains key = true) entries
  -- Every entry in turn, then nothing for ever.
  next_eq : ∀ count,
    ((start (Snapshot.ofTable table pageSize) range).skip count).next.1 = entries[count]?
  remaining_eq : ∀ count, entries.take count = [] →
    ((start (Snapshot.ofTable table pageSize) range).skip count).remaining = range
  contains_remaining : ∀ count key,
    ((start (Snapshot.ofTable table pageSize) range).skip count).remaining.contains key = true ↔
      Behind range (entries.take count) key
  -- Going on with what is left, in pages of any size: in another table its own
  -- entries there are found, in the same table the missing ones.
  resume : ∀ count other otherSize, (Snapshot.ofTable other otherSize).HasRoom →
    let left := ((start (Snapshot.ofTable table pageSize) range).skip count).remaining
    ∃ rest, other.Lists (Behind range (entries.take count)) rest ∧
      (∀ index, ((start (Snapshot.ofTable other otherSize) left).skip index).next.1 =
        rest[index]?) ∧
      (other = table → entries.take count ++ rest = entries)
  -- The size of the pages is not to be seen.
  sizeless : ∀ otherSize, (Snapshot.ofTable table otherSize).HasRoom → ∀ count,
    let scan := (start (Snapshot.ofTable table pageSize) range).skip count
    let other := (start (Snapshot.ofTable table otherSize) range).skip count
    scan.next.1 = other.next.1 ∧ scan.remaining = other.remaining

theorem fst_next_skip_start {table : Table} {pageSize : Nat} (range : KeyRange)
    (h : (Snapshot.ofTable table pageSize).HasRoom) (count : Nat) :
    ((start (Snapshot.ofTable table pageSize) range).skip count).next.1 =
      (table.liveIn range)[count]? := by
  rw [fst_next_skip (sound_start range h), pending_start]
  rfl

-- A scan of any range, in pages of any size, comes to just the live entries there
-- and can be broken off and taken up anywhere.
theorem exact_start {table : Table} {pageSize : Nat}
    (h : (Snapshot.ofTable table pageSize).HasRoom) (range : KeyRange) :
    Exact table pageSize range (table.liveIn range) := by
  refine ⟨table.lists_liveIn range, fst_next_skip_start range h, ?_, ?_, ?_, ?_⟩
  · intro count hnone
    rw [remaining_skip h, hnone]
    rfl
  · intro count key
    rw [remaining_skip h]
    exact contains_rangeAfter
  · intro count other otherSize hother
    dsimp only
    rw [remaining_skip h]
    refine ⟨_, ⟨other.ascending_liveIn _, fun key value => ?_⟩, fst_next_skip_start _ hother, ?_⟩
    · rw [Table.mem_liveIn, Table.value?_eq_some_iff, contains_rangeAfter]
    · rintro rfl
      exact take_append_liveIn_rangeAfter other range count
  · intro otherSize hother count
    dsimp only
    rw [fst_next_skip_start range h, fst_next_skip_start range hother, remaining_skip h,
      remaining_skip hother]
    exact ⟨rfl, rfl⟩

-- Keys that extend each other by a zero byte, in two pages that are both full.
theorem exact_start_of_nested_keys :
    let table := Table.ofList [([1], .live [7]), ([1, 0], .live []), ([1, 0, 0], .live [8]),
      ([1, 1], .tombstone), ([1, 255], .live [9]), ([2], .live [])]
    (Snapshot.ofTable table 2).HasRoom ∧
      Exact table 2 (KeyRange.startingWith [1])
        [([1], [7]), ([1, 0], []), ([1, 0, 0], [8]), ([1, 255], [9])] :=
  ⟨.inl (by decide), exact_start (.inl (by decide)) (KeyRange.startingWith [1])⟩

end Scan

end Chronicle
