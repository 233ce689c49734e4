import Chronicle.Proofs.Table
import Chronicle.Scan

-- A scan answers the live entries of its range, whatever the size of its pages.

namespace Chronicle

-- Pages can be as long as they are asked to be, or there are not so many rows
-- that it could be noticed.
def Snapshot.HasRoom (snapshot : Snapshot) : Prop :=
  snapshot.pageSize ≤ maxPage ∨ snapshot.table.size ≤ maxPage

namespace Scan

-- The entries that are still to come.
def pending (scan : Scan) : List (Bytes × Bytes) :=
  scan.buffer ++ if scan.done then [] else scan.snapshot.table.liveIn scan.nextPage

structure Sound (scan : Scan) : Prop where
  pageSize_pos : 0 < scan.snapshot.pageSize
  hasRoom : scan.snapshot.HasRoom
  length_pending_le : scan.pending.length ≤ scan.snapshot.table.size

theorem pending_start (snapshot : Snapshot) (range : KeyRange) :
    (start snapshot range).pending = snapshot.table.liveIn range := by
  by_cases h : range.isEmpty = true
  · simp [pending, start, h, Table.liveIn_of_isEmpty]
  · simp [pending, start, h]

theorem sound_start {table : Table} {pageSize : Nat} (range : KeyRange)
    (h : (Snapshot.ofTable table pageSize).HasRoom) :
    (start (Snapshot.ofTable table pageSize) range).Sound := by
  refine ⟨?_, h, ?_⟩
  · have hmax : 1 ≤ max pageSize 1 := Nat.le_max_right _ _
    exact hmax
  · rw [pending_start]
    exact Table.length_liveIn_le _ _

-- What comes after the last of the first entries is the rest.
theorem filter_after_last {first rest : List (Bytes × Bytes)} {last : Bytes × Bytes}
    (h : Ascending (first ++ rest)) (hlast : first.getLast? = some last) :
    ((first ++ rest).filter fun entry => decide (last.1 < entry.1)) = rest := by
  obtain ⟨before, rfl⟩ := List.getLast?_eq_some_iff.mp hlast
  obtain ⟨hfirst, _, hacross⟩ := List.pairwise_append.mp h
  have hnone : ((before ++ [last]).filter fun entry => decide (last.1 < entry.1)) = [] := by
    apply List.filter_eq_nil_iff.mpr
    intro entry hmem
    rw [decide_eq_true_eq]
    intro hlt
    rcases List.mem_append.mp hmem with hmem | hmem
    · have hle := (List.pairwise_append.mp hfirst).2.2 entry hmem last List.mem_cons_self
      exact Std.lt_irrefl (Std.lt_trans hlt hle)
    · rw [List.mem_singleton.mp hmem] at hlt
      exact Std.lt_irrefl hlt
  have hall : (rest.filter fun entry => decide (last.1 < entry.1)) = rest := by
    apply List.filter_eq_self.mpr
    intro entry hmem
    rw [decide_eq_true_eq]
    exact hacross last (List.mem_append_right _ List.mem_cons_self) entry hmem
  rw [List.filter_append, hnone, hall, List.nil_append]

-- Reading a page moves entries from the table to the buffer. What is behind a page that
-- is not full is not looked for.
theorem pending_fill_eq {scan : Scan} (hbuffer : scan.buffer = []) (hdone : scan.done = false) :
    scan.fill.pending =
      if (scan.snapshot.page scan.nextPage).length < scan.snapshot.pageSize then
        scan.snapshot.page scan.nextPage
      else scan.snapshot.table.liveIn scan.nextPage := by
  have hread : scan.fill.buffer = scan.snapshot.page scan.nextPage := by
    rw [fill, hbuffer, List.nil_append]
  have hend : scan.fill.done =
      decide ((scan.snapshot.page scan.nextPage).length < scan.snapshot.pageSize) := by
    rw [fill, hdone, Bool.false_or]
  rw [pending, hread, hend]
  split
  · rename_i hshort
    rw [if_pos (of_decide_eq_true hshort), List.append_nil]
  · rename_i hfull
    rw [if_neg fun hshort => hfull (decide_eq_true hshort), fill, Snapshot.page]
    have hasc := Table.ascending_liveIn scan.snapshot.table scan.nextPage
    have hparts := List.take_append_drop (min scan.snapshot.pageSize Snapshot.maxPage)
      (scan.snapshot.table.liveIn scan.nextPage)
    cases hlast : ((scan.snapshot.table.liveIn scan.nextPage).take
        (min scan.snapshot.pageSize Snapshot.maxPage)).getLast? with
    | none => simp only [List.getLast?_eq_none_iff.mp hlast, List.nil_append]
    | some last =>
        rw [← hparts] at hasc
        have hafter := filter_after_last hasc hlast
        rw [hparts] at hafter
        dsimp only
        rw [Table.liveIn_after, hafter, hparts]

-- Where pages are as long as they are asked to be nothing is behind such a page.
theorem pending_fill {scan : Scan} (h : scan.Sound) (hbuffer : scan.buffer = [])
    (hdone : scan.done = false) : scan.fill.pending = scan.pending := by
  have hroom := h.hasRoom
  have hlength := Table.length_liveIn_le scan.snapshot.table scan.nextPage
  have hpending : scan.pending = scan.snapshot.table.liveIn scan.nextPage := by
    rw [pending, hbuffer, hdone, if_neg Bool.false_ne_true, List.nil_append]
  rw [pending_fill_eq hbuffer hdone, hpending]
  split
  · rename_i hshort
    rw [Snapshot.page, List.length_take] at hshort
    apply List.take_of_length_le
    unfold Snapshot.HasRoom at hroom
    omega
  · rfl

theorem pending_refill {scan : Scan} (h : scan.Sound) : scan.refill.pending = scan.pending := by
  unfold refill
  split
  · rename_i hfill
    rw [Bool.and_eq_true, List.isEmpty_iff, Bool.not_eq_true'] at hfill
    exact pending_fill h hfill.1 hfill.2
  · rfl

theorem snapshot_refill (scan : Scan) : scan.refill.snapshot = scan.snapshot := by
  unfold refill
  split <;> rfl

-- After a page was read the buffer is empty at the end only.
theorem buffer_refill {scan : Scan} (h : scan.Sound) (hbuffer : scan.refill.buffer = []) :
    scan.pending = [] := by
  rw [← pending_refill h]
  unfold refill at hbuffer ⊢
  split at hbuffer
  · rename_i hfill
    obtain ⟨hempty, hpage⟩ := List.append_eq_nil_iff.mp hbuffer
    have hpos := h.pageSize_pos
    rw [if_pos hfill]
    simp [pending, fill, hempty, hpage, hpos]
  · rename_i hfill
    have hdone : scan.done = true := by
      rw [hbuffer] at hfill
      simpa using hfill
    rw [if_neg hfill]
    simp [pending, hbuffer, hdone]

theorem fst_next {scan : Scan} (h : scan.Sound) : scan.next.1 = scan.pending.head? := by
  unfold next
  cases hbuffer : scan.refill.buffer with
  | nil => simp [hbuffer, buffer_refill h hbuffer]
  | cons entry rest =>
      rw [← pending_refill h]
      simp [hbuffer, pending]

theorem pending_next {scan : Scan} (h : scan.Sound) : scan.next.2.pending = scan.pending.tail := by
  unfold next
  cases hbuffer : scan.refill.buffer with
  | nil => simp [hbuffer, pending_refill h, buffer_refill h hbuffer]
  | cons entry rest =>
      rw [← pending_refill h]
      simp [hbuffer, pending]

theorem snapshot_next (scan : Scan) : scan.next.2.snapshot = scan.snapshot := by
  unfold next
  cases hbuffer : scan.refill.buffer <;> simp [hbuffer, snapshot_refill]

theorem sound_next {scan : Scan} (h : scan.Sound) : scan.next.2.Sound := by
  have hpending := h.length_pending_le
  refine ⟨?_, ?_, ?_⟩
  · rw [snapshot_next]
    exact h.pageSize_pos
  · rw [snapshot_next]
    exact h.hasRoom
  · rw [snapshot_next, pending_next h, List.length_tail]
    omega

-- A scan comes to the end, or to its first entry.
theorem next_of_nil {scan : Scan} (h : scan.Sound) (hnil : scan.pending = []) :
    ∃ after, scan.next = (none, after) ∧ after.pending = [] ∧ after.Sound := by
  have hfirst := fst_next h
  have hpending := pending_next h
  rw [hnil] at hfirst hpending
  exact ⟨scan.next.2, Prod.ext hfirst rfl, hpending, sound_next h⟩

theorem next_of_cons {scan : Scan} {entry : Bytes × Bytes} {rest : List (Bytes × Bytes)}
    (h : scan.Sound) (hcons : scan.pending = entry :: rest) :
    ∃ after, scan.next = (some entry, after) ∧ after.pending = rest ∧ after.Sound := by
  have hfirst := fst_next h
  have hpending := pending_next h
  rw [hcons] at hfirst hpending
  exact ⟨scan.next.2, Prod.ext hfirst rfl, hpending, sound_next h⟩

-- So many entries of those to come, whether there were fewer, and the rest.
theorem take_eq {scan : Scan} (h : scan.Sound) (count : Nat) :
    ∃ after, scan.take count =
        (scan.pending.take count, decide (scan.pending.length < count), after) ∧
      after.pending = scan.pending.drop count ∧ after.Sound ∧ after.snapshot = scan.snapshot := by
  induction count generalizing scan with
  | zero => exact ⟨scan, rfl, rfl, h, rfl⟩
  | succ count ih =>
      have hsnapshot := scan.snapshot_next
      unfold take
      cases hp : scan.pending with
      | nil =>
          obtain ⟨after, hnext, hnil, hsound⟩ := next_of_nil h hp
          rw [hnext] at hsnapshot ⊢
          exact ⟨after, by simp, by simp [hnil], hsound, hsnapshot⟩
      | cons entry rest =>
          obtain ⟨after, hnext, hrest, hsound⟩ := next_of_cons h hp
          obtain ⟨last, htake, hlast, hlastSound, hlastSnapshot⟩ := ih hsound
          rw [hnext] at hsnapshot ⊢
          rw [hrest] at htake hlast
          exact ⟨last, by simp [htake], by simp [hlast], hlastSound, hlastSnapshot.trans hsnapshot⟩

theorem fst_take {scan : Scan} (h : scan.Sound) (count : Nat) :
    (scan.take count).1 = scan.pending.take count := by
  obtain ⟨after, htake, _⟩ := take_eq h count
  rw [htake]

-- To the end there is one attempt more than there can be entries.
theorem toEnd_start_eq {table : Table} {pageSize : Nat} (range : KeyRange)
    (h : (Snapshot.ofTable table pageSize).HasRoom) :
    ∃ after, (start (Snapshot.ofTable table pageSize) range).toEnd =
      (table.liveIn range, true, after) := by
  obtain ⟨after, htake, _⟩ := take_eq (sound_start range h) (table.size + 1)
  have hlength := Table.length_liveIn_le table range
  have hpending : (start (Snapshot.ofTable table pageSize) range).pending = table.liveIn range :=
    pending_start _ range
  rw [hpending, List.take_of_length_le (by omega), decide_eq_true (by omega)] at htake
  exact ⟨after, htake⟩

theorem toEnd_start {table : Table} {pageSize : Nat} (range : KeyRange)
    (h : (Snapshot.ofTable table pageSize).HasRoom) :
    (start (Snapshot.ofTable table pageSize) range).toEnd.1 = table.liveIn range := by
  obtain ⟨after, hall⟩ := toEnd_start_eq range h
  rw [hall]

end Scan

end Chronicle
