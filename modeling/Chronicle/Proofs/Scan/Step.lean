import Chronicle.Proofs.Scan

-- One step of a scan, in tables of any size: what it takes of the entries to come, and
-- that no other entry has a part in it.

namespace Chronicle

namespace Scan

theorem prefix_pending_refill (scan : Scan) : scan.refill.pending <+: scan.pending := by
  unfold refill
  split
  · rename_i hfill
    rw [Bool.and_eq_true, List.isEmpty_iff, Bool.not_eq_true'] at hfill
    have hpending : scan.pending = scan.snapshot.table.liveIn scan.nextPage := by
      rw [pending, hfill.1, hfill.2, if_neg Bool.false_ne_true, List.nil_append]
    rw [pending_fill_eq hfill.1 hfill.2, hpending]
    split
    · exact List.take_prefix _ _
    · exact List.prefix_refl _
  · exact List.prefix_refl _

-- A step answers the first of the entries to come, and only entries behind it are left.
theorem next_cases (scan : Scan) :
    (∃ after, scan.next = (none, after) ∧ after.pending <+: scan.pending) ∨
    ∃ entry after, scan.next = (some entry, after) ∧ entry :: after.pending <+: scan.pending := by
  have hinitial := scan.prefix_pending_refill
  unfold next
  cases hbuffer : scan.refill.buffer with
  | nil => exact .inl ⟨scan.refill, by simp only [hbuffer], hinitial⟩
  | cons entry rest =>
      rw [pending, hbuffer] at hinitial
      exact .inr ⟨entry, { scan.refill with buffer := rest, lastKey := some entry.1 },
        by simp only [hbuffer], hinitial⟩

theorem mem_pending_of_mem_take {scan : Scan} {count : Nat} {entry : Bytes × Bytes}
    (h : entry ∈ (scan.take count).1) : entry ∈ scan.pending := by
  induction count generalizing scan with
  | zero => contradiction
  | succ count ih =>
      unfold take at h
      rcases scan.next_cases with ⟨after, hnext, _⟩ | ⟨first, after, hnext, hinitial⟩
      · rw [hnext] at h
        contradiction
      · rw [hnext] at h
        rcases List.mem_cons.mp h with rfl | hrest
        · exact hinitial.subset List.mem_cons_self
        · exact hinitial.subset (List.mem_cons_of_mem _ (ih hrest))

-- A scan that has nothing more to answer.
def Ended (scan : Scan) : Prop := scan.buffer = [] ∧ scan.done = true

theorem next_of_ended {scan : Scan} (h : scan.Ended) : scan.next = (none, scan) := by
  have hkept : scan.refill = scan := by
    rw [refill, h.2]
    simp
  unfold next
  simp only [hkept, h.1]

-- A page with nothing in it is not full, so it is the last one.
theorem ended_of_next {scan after : Scan} (hpos : 0 < scan.snapshot.pageSize)
    (h : scan.next = (none, after)) : after.Ended := by
  unfold next at h
  cases hbuffer : scan.refill.buffer with
  | cons entry rest => simp [hbuffer] at h
  | nil =>
      simp only [hbuffer, Prod.mk.injEq, true_and] at h
      subst h
      refine ⟨hbuffer, ?_⟩
      unfold refill at hbuffer ⊢
      by_cases hfill : (scan.buffer.isEmpty && !scan.done) = true
      · rw [if_pos hfill] at hbuffer ⊢
        have hpage := (List.append_eq_nil_iff.mp hbuffer).2
        simp [fill, hpage, hpos]
      · rw [if_neg hfill] at hbuffer ⊢
        rw [hbuffer] at hfill
        simpa using hfill

-- Two scans of the same entries, of two tables that need to agree where the scans have
-- still to look.
structure Parallel (first second : Scan) : Prop where
  pageSize_eq : first.snapshot.pageSize = second.snapshot.pageSize
  nextPage_eq : first.nextPage = second.nextPage
  buffer_eq : first.buffer = second.buffer
  done_eq : first.done = second.done
  values_eq : ∀ key, first.nextPage.contains key = true →
    first.snapshot.table.value? key = second.snapshot.table.value? key

variable {first second : Scan}

theorem Parallel.pending_eq (h : first.Parallel second) : first.pending = second.pending := by
  rw [pending, pending, h.buffer_eq, h.done_eq, Table.liveIn_congr h.values_eq, h.nextPage_eq]

theorem Parallel.page_eq (h : first.Parallel second) :
    first.snapshot.page first.nextPage = second.snapshot.page second.nextPage := by
  rw [Snapshot.page, Snapshot.page, h.pageSize_eq, Table.liveIn_congr h.values_eq, h.nextPage_eq]

theorem Parallel.fill (h : first.Parallel second) : first.fill.Parallel second.fill := by
  refine ⟨h.pageSize_eq, ?_, ?_, ?_, ?_⟩
  · rw [Scan.fill, Scan.fill, h.page_eq, h.nextPage_eq]
  · rw [Scan.fill, Scan.fill, h.page_eq, h.buffer_eq]
  · rw [Scan.fill, Scan.fill, h.page_eq, h.done_eq, h.pageSize_eq]
  · intro key hkey
    refine h.values_eq key ?_
    rw [Scan.fill] at hkey
    dsimp only at hkey
    split at hkey
    · exact (KeyRange.contains_after.mp hkey).1
    · exact hkey

theorem Parallel.refill (h : first.Parallel second) : first.refill.Parallel second.refill := by
  unfold Scan.refill
  rw [h.buffer_eq, h.done_eq]
  split
  · exact h.fill
  · exact h

theorem Parallel.next (h : first.Parallel second) :
    first.next.1 = second.next.1 ∧ first.next.2.Parallel second.next.2 := by
  have hfilled := h.refill
  have hbuffer := hfilled.buffer_eq
  unfold Scan.next
  cases hrows : second.refill.buffer with
  | nil =>
      rw [hrows] at hbuffer
      simp only [hbuffer, hrows]
      exact ⟨trivial, hfilled⟩
  | cons entry rest =>
      rw [hrows] at hbuffer
      simp only [hbuffer, hrows]
      exact ⟨trivial, hfilled.pageSize_eq, hfilled.nextPage_eq, rfl, hfilled.done_eq,
        hfilled.values_eq⟩

-- The numbers of attempts do not matter when both go beyond the entries to come.
theorem Parallel.take_eq (h : first.Parallel second) {count count' : Nat}
    (hcount : first.pending.length < count) (hcount' : first.pending.length < count') :
    (first.take count).1 = (second.take count').1 := by
  induction count generalizing first second count' with
  | zero => omega
  | succ count ih =>
      obtain ⟨count', rfl⟩ : ∃ fewer, count' = fewer + 1 :=
        ⟨count' - 1, by omega⟩
      obtain ⟨hanswer, hafter⟩ := h.next
      unfold take
      rcases first.next_cases with ⟨after, hnext, _⟩ | ⟨entry, after, hnext, hinitial⟩
      · rw [hnext] at hanswer ⊢
        rcases hother : second.next with ⟨answer, after'⟩
        rw [hother] at hanswer
        cases hanswer
        rfl
      · have hshorter := hinitial.length_le
        rw [List.length_cons] at hshorter
        rw [hnext] at hanswer hafter ⊢
        rcases hother : second.next with ⟨answer, after'⟩
        rw [hother] at hanswer hafter
        cases hanswer
        have hbelow : after.pending.length < count := by omega
        have hbelow' : after.pending.length < count' := by omega
        exact congrArg (entry :: ·) (ih hafter hbelow hbelow')

theorem parallel_start {table table' : Table} {pageSize : Nat} {range : KeyRange}
    (h : ∀ key, range.contains key = true → table.value? key = table'.value? key) :
    (start (Snapshot.ofTable table pageSize) range).Parallel
      (start (Snapshot.ofTable table' pageSize) range) :=
  ⟨rfl, rfl, rfl, rfl, h⟩

theorem length_pending_start_lt (table : Table) (pageSize : Nat) (range : KeyRange) :
    (start (Snapshot.ofTable table pageSize) range).pending.length < table.size + 1 := by
  rw [pending_start]
  exact Nat.lt_succ_of_le (table.length_liveIn_le range)

-- All entries of a range are found alike in tables that agree on its keys.
theorem toEnd_congr {table table' : Table} (pageSize : Nat) {range : KeyRange}
    (h : ∀ key, range.contains key = true → table.value? key = table'.value? key) :
    (start (Snapshot.ofTable table pageSize) range).toEnd.1 =
      (start (Snapshot.ofTable table' pageSize) range).toEnd.1 := by
  have hparallel : (start (Snapshot.ofTable table pageSize) range).Parallel
      (start (Snapshot.ofTable table' pageSize) range) := parallel_start h
  have hlength := length_pending_start_lt table pageSize range
  have hlength' := length_pending_start_lt table' pageSize range
  rw [← hparallel.pending_eq] at hlength'
  exact hparallel.take_eq hlength hlength'

end Scan

end Chronicle
