import Chronicle.Proofs.Records
import Chronicle.Proofs.Scan.Step

-- One step of a read, in tables of any size: what it answers comes from an entry that is
-- still ahead, and no other entry of the table has a part in it.

namespace Chronicle

namespace Records

-- What a step does to a read, and where its answer comes from.
structure Draws (before : Records) (found : Option (Except StoreError Record))
    (after : Records) : Prop where
  reader_eq : after.reader = before.reader
  snapshot_eq : after.scan.snapshot = before.scan.snapshot
  subset : after.ahead ⊆ before.ahead
  length_le : after.ahead.length ≤ before.ahead.length
  answer : ∀ outcome, found = some outcome →
    (∃ entry ∈ before.ahead, before.reader.decode entry.1 entry.2 = outcome) ∧
    after.ahead.length < before.ahead.length

-- A step that comes after an entry was stepped over.
theorem Draws.of_skip {before between after : Records} {found : Option (Except StoreError Record)}
    (h : between.Draws found after) (hreader : between.reader = before.reader)
    (hsnapshot : between.scan.snapshot = before.scan.snapshot)
    {entry : Bytes × Bytes} (hinitial : entry :: between.ahead <+: before.ahead) :
    before.Draws found after := by
  have hsubset : between.ahead ⊆ before.ahead :=
    fun other hother => hinitial.subset (List.mem_cons_of_mem entry hother)
  have hlength := hinitial.length_le
  rw [List.length_cons] at hlength
  have hle := h.length_le
  refine ⟨h.reader_eq.trans hreader, h.snapshot_eq.trans hsnapshot,
    fun other hother => hsubset (h.subset hother), by omega, fun outcome hfound => ?_⟩
  obtain ⟨⟨other, hmem, hdecode⟩, hshorter⟩ := h.answer outcome hfound
  rw [hreader] at hdecode
  exact ⟨⟨other, hsubset hmem, hdecode⟩, by omega⟩

theorem draws_nextWithin (entries : Nat) (records : Records) :
    records.Draws (nextWithin entries records).1 (nextWithin entries records).2 := by
  induction entries generalizing records with
  | zero =>
      exact ⟨rfl, rfl, List.Subset.refl _, Nat.le_refl _, fun _ h => by contradiction⟩
  | succ entries ih =>
      obtain ⟨scan, reader, skipped, done⟩ := records
      have hsnapshot := scan.snapshot_next
      rw [nextWithin]
      cases done with
      | true => exact ⟨rfl, rfl, List.Subset.refl _, Nat.le_refl _, fun _ h => by contradiction⟩
      | false =>
          simp only [Bool.false_eq_true, if_false]
          rcases scan.next_cases with ⟨after, hnext, hinitial⟩ | ⟨entry, after, hnext, hinitial⟩
          · rw [hnext] at hsnapshot ⊢
            exact ⟨rfl, hsnapshot, hinitial.subset, hinitial.length_le, fun _ h => by contradiction⟩
          · obtain ⟨key, value⟩ := entry
            have hmem : (key, value) ∈ scan.pending := hinitial.subset List.mem_cons_self
            have hlength := hinitial.length_le
            rw [List.length_cons] at hlength
            rw [hnext] at hsnapshot ⊢
            have hrest : after.pending ⊆ scan.pending :=
              fun other hother => hinitial.subset (List.mem_cons_of_mem _ hother)
            cases hdecode : reader.decode key value with
            | ok record =>
                simp only [hdecode]
                refine ⟨rfl, hsnapshot, hrest, Nat.le_of_succ_le hlength, ?_⟩
                rintro _ ⟨⟩
                exact ⟨⟨_, hmem, hdecode⟩, hlength⟩
            | error error =>
                cases hskips : reader.skips error with
                | true =>
                    simp only [hdecode, hskips, if_true]
                    exact (ih ⟨after, reader, skipped + 1, false⟩).of_skip rfl hsnapshot hinitial
                | false =>
                    simp only [hdecode, hskips, Bool.false_eq_true, if_false]
                    refine ⟨rfl, hsnapshot, List.nil_subset _, Nat.zero_le _, ?_⟩
                    rintro _ ⟨⟩
                    exact ⟨⟨_, hmem, hdecode⟩, Nat.lt_of_lt_of_le (Nat.succ_pos _) hlength⟩

theorem draws_next (records : Records) : records.Draws records.next.1 records.next.2 :=
  draws_nextWithin records.reach records

-- Whatever is answered, however often it is asked for, comes from an entry ahead.
theorem exists_of_after {records : Records} {calls : Nat} {outcome : Except StoreError Record}
    (h : (records.after calls).next.1 = some outcome) :
    ∃ entry ∈ records.ahead, records.reader.decode entry.1 entry.2 = outcome := by
  induction calls generalizing records with
  | zero => exact (records.draws_next.answer outcome h).1
  | succ calls ih =>
      obtain ⟨entry, hmem, hdecode⟩ := ih h
      rw [records.draws_next.reader_eq] at hdecode
      exact ⟨entry, records.draws_next.subset hmem, hdecode⟩

theorem exists_of_mem_take {records : Records} {count : Nat} {outcome : Except StoreError Record}
    (h : outcome ∈ (records.take count).1) :
    ∃ entry ∈ records.ahead, records.reader.decode entry.1 entry.2 = outcome := by
  induction count generalizing records with
  | zero => contradiction
  | succ count ih =>
      have hdraws := records.draws_next
      unfold take at h
      rcases hnext : records.next with ⟨found, after⟩
      rw [hnext] at hdraws h
      cases found with
      | none => contradiction
      | some answer =>
          rcases List.mem_cons.mp h with rfl | hrest
          · exact (hdraws.answer _ rfl).1
          · obtain ⟨entry, hmem, hdecode⟩ := ih hrest
            rw [hdraws.reader_eq] at hdecode
            exact ⟨entry, hdraws.subset hmem, hdecode⟩

-- There are no more entries ahead than in the table.
def Bounded (records : Records) : Prop :=
  records.ahead.length ≤ records.scan.snapshot.table.size

theorem Bounded.next {records : Records} (h : records.Bounded) : records.next.2.Bounded := by
  have hdraws := records.draws_next
  unfold Bounded at h ⊢
  rw [hdraws.snapshot_eq]
  exact Nat.le_trans hdraws.length_le h

theorem bounded_start (snapshot : Snapshot) (range : KeyRange) (reader : Reader) :
    (start (Scan.start snapshot range) reader).Bounded := by
  rw [Bounded, ahead_start]
  exact Table.length_liveIn_le _ _

-- A read that has nothing more to answer.
def Ended (records : Records) : Prop := records.done = true ∨ records.scan.Ended

theorem next_of_ended {records : Records} (h : records.Ended) : records.next = (none, records) := by
  obtain ⟨scan, reader, skipped, done⟩ := records
  rw [next, reach, nextWithin]
  cases done with
  | true => rfl
  | false =>
      have hscan : scan.Ended := h.resolve_left Bool.false_ne_true
      simp only [Bool.false_eq_true, if_false, Scan.next_of_ended hscan]

theorem next_after_ended {records : Records} (h : records.Ended) (calls : Nat) :
    (records.after calls).next.1 = none := by
  induction calls generalizing records with
  | zero => exact congrArg Prod.fst (next_of_ended h)
  | succ calls ih =>
      rw [after, next_of_ended h]
      exact ih h

-- The attempt does not run out before the entries do.
theorem ended_of_nextWithin {entries : Nat} {records after : Records}
    (hpos : 0 < records.scan.snapshot.pageSize) (hlength : records.ahead.length < entries)
    (h : nextWithin entries records = (none, after)) : after.Ended := by
  induction entries generalizing records with
  | zero => omega
  | succ entries ih =>
      obtain ⟨scan, reader, skipped, done⟩ := records
      rw [nextWithin] at h
      cases done with
      | true =>
          cases h
          exact .inl rfl
      | false =>
          have hsnapshot := scan.snapshot_next
          have hahead : ahead ⟨scan, reader, skipped, false⟩ = scan.pending := rfl
          simp only [Bool.false_eq_true, if_false] at h
          rcases scan.next_cases with ⟨later, hnext, _⟩ | ⟨entry, later, hnext, hinitial⟩
          · rw [hnext] at h
            cases h
            exact .inr (Scan.ended_of_next hpos hnext)
          · obtain ⟨key, value⟩ := entry
            rw [hnext] at h hsnapshot
            cases hdecode : reader.decode key value with
            | ok record => simp [hdecode] at h
            | error error =>
                cases hskips : reader.skips error with
                | false => simp [hdecode, hskips] at h
                | true =>
                    simp only [hdecode, hskips, if_true] at h
                    have hshorter := hinitial.length_le
                    rw [List.length_cons] at hshorter
                    rw [hahead] at hlength
                    have hbelow : later.pending.length < entries := by omega
                    have hlater : 0 < later.snapshot.pageSize := by
                      rw [hsnapshot]
                      exact hpos
                    exact @ih ⟨later, reader, skipped + 1, false⟩ hlater hbelow h

-- What a read answers call after call is what it answers when it is read to the end, and
-- nothing after that.
theorem next_after_take {records : Records} (hpos : 0 < records.scan.snapshot.pageSize)
    (hbounded : records.Bounded) {count : Nat} (hcount : records.ahead.length < count)
    (calls : Nat) : (records.after calls).next.1 = (records.take count).1[calls]? := by
  induction count generalizing records calls with
  | zero => omega
  | succ count ih =>
      have hdraws := records.draws_next
      have hbelow : records.ahead.length < records.reach := Nat.lt_succ_of_le hbounded
      unfold take
      rcases hnext : records.next with ⟨found, after⟩
      cases found with
      | none =>
          have hended : records.next.2.Ended := by
            rw [hnext]
            exact ended_of_nextWithin hpos hbelow hnext
          rw [List.getElem?_nil]
          cases calls with
          | zero => exact congrArg Prod.fst hnext
          | succ calls => exact next_after_ended hended calls
      | some answer =>
          cases calls with
          | zero => exact congrArg Prod.fst hnext
          | succ calls =>
              have hlater := hbounded.next
              rw [Records.after]
              rw [hnext] at hdraws hlater ⊢
              have hshorter : after.ahead.length < records.ahead.length :=
                (hdraws.answer answer rfl).2
              have hpage : 0 < after.scan.snapshot.pageSize := by
                rw [hdraws.snapshot_eq]
                exact hpos
              have hleft : after.ahead.length < count := by omega
              rw [List.getElem?_cons_succ]
              exact ih hpage hlater hleft calls

theorem next_after_toEnd {records : Records} (hpos : 0 < records.scan.snapshot.pageSize)
    (hbounded : records.Bounded) (calls : Nat) :
    (records.after calls).next.1 = records.toEnd.1[calls]? :=
  next_after_take hpos hbounded (Nat.lt_succ_of_le hbounded) calls

-- Two reads of the same entries, of two tables that need to agree where the reads have
-- still to look.
structure Parallel (first second : Records) : Prop where
  scan : first.scan.Parallel second.scan
  reader_eq : first.reader = second.reader
  skipped_eq : first.skipped = second.skipped
  done_eq : first.done = second.done

variable {first second : Records}

theorem Parallel.ahead_eq (h : first.Parallel second) : first.ahead = second.ahead := by
  rw [ahead, ahead, h.done_eq, h.scan.pending_eq]

-- The numbers of attempts do not matter when both go beyond the entries ahead.
theorem Parallel.nextWithin (h : first.Parallel second) {entries entries' : Nat}
    (hlength : first.ahead.length < entries) (hlength' : first.ahead.length < entries') :
    (nextWithin entries first).1 = (nextWithin entries' second).1 ∧
      (nextWithin entries first).2.Parallel (nextWithin entries' second).2 := by
  induction entries generalizing first second entries' with
  | zero => omega
  | succ entries ih =>
      obtain ⟨entries', rfl⟩ : ∃ fewer, entries' = fewer + 1 := ⟨entries' - 1, by omega⟩
      obtain ⟨scan, reader, skipped, done⟩ := first
      obtain ⟨scan', reader', skipped', done'⟩ := second
      obtain ⟨hscan, rfl, rfl, rfl⟩ := h
      rw [Records.nextWithin, Records.nextWithin]
      cases done with
      | true => exact ⟨rfl, hscan, rfl, rfl, rfl⟩
      | false =>
          obtain ⟨hanswer, hafter⟩ := hscan.next
          simp only [Bool.false_eq_true, if_false]
          rcases hnext' : scan'.next with ⟨found', after'⟩
          rcases scan.next_cases with ⟨after, hnext, _⟩ | ⟨entry, after, hnext, hinitial⟩
          · rw [hnext, hnext'] at hanswer hafter
            cases hanswer
            rw [hnext]
            exact ⟨rfl, hafter, rfl, rfl, rfl⟩
          · rw [hnext, hnext'] at hanswer hafter
            cases hanswer
            rw [hnext]
            obtain ⟨key, value⟩ := entry
            cases hdecode : reader.decode key value with
            | ok record =>
                simp only [hdecode]
                exact ⟨trivial, hafter, rfl, rfl, rfl⟩
            | error error =>
                cases hskips : reader.skips error with
                | true =>
                    have hshorter := hinitial.length_le
                    rw [List.length_cons] at hshorter
                    have hahead : ahead ⟨scan, reader, skipped, false⟩ = scan.pending := rfl
                    rw [hahead] at hlength hlength'
                    have hbelow : after.pending.length < entries := by omega
                    have hbelow' : after.pending.length < entries' := by omega
                    have hparallel : Parallel ⟨after, reader, skipped + 1, false⟩
                        ⟨after', reader, skipped + 1, false⟩ := ⟨hafter, rfl, rfl, rfl⟩
                    simp only [hdecode, hskips, if_true]
                    exact ih hparallel hbelow hbelow'
                | false =>
                    simp only [hdecode, hskips, Bool.false_eq_true, if_false]
                    exact ⟨trivial, hafter, rfl, rfl, rfl⟩

theorem Parallel.next (h : first.Parallel second) (hfirst : first.Bounded)
    (hsecond : second.Bounded) :
    first.next.1 = second.next.1 ∧ first.next.2.Parallel second.next.2 := by
  have hlength : first.ahead.length < first.reach := Nat.lt_succ_of_le hfirst
  have hlength' : first.ahead.length < second.reach := by
    rw [h.ahead_eq]
    exact Nat.lt_succ_of_le hsecond
  exact h.nextWithin hlength hlength'

-- All that can be seen of a read: what each call answers, and how many entries were
-- stepped over before it.
def seen (records : Records) (calls : Nat) : Option (Except StoreError Record) × Nat :=
  ((records.after calls).next.1, (records.after calls).skipped)

theorem Parallel.seen_eq (h : first.Parallel second) (hfirst : first.Bounded)
    (hsecond : second.Bounded) : first.seen = second.seen := by
  funext calls
  induction calls generalizing first second with
  | zero => exact Prod.ext (h.next hfirst hsecond).1 h.skipped_eq
  | succ calls ih => exact ih (h.next hfirst hsecond).2 hfirst.next hsecond.next

theorem Parallel.take_eq (h : first.Parallel second) (hfirst : first.Bounded)
    (hsecond : second.Bounded) {count count' : Nat} (hcount : first.ahead.length < count)
    (hcount' : first.ahead.length < count') : (first.take count).1 = (second.take count').1 := by
  induction count generalizing first second count' with
  | zero => omega
  | succ count ih =>
      obtain ⟨count', rfl⟩ : ∃ fewer, count' = fewer + 1 := ⟨count' - 1, by omega⟩
      obtain ⟨hanswer, hafter⟩ := h.next hfirst hsecond
      have hdraws := first.draws_next
      have hbounded := hfirst.next
      have hbounded' := hsecond.next
      unfold take
      rcases hnext : first.next with ⟨found, after⟩
      rcases hnext' : second.next with ⟨found', after'⟩
      rw [hnext, hnext'] at hanswer hafter
      rw [hnext] at hdraws hbounded
      rw [hnext'] at hbounded'
      cases hanswer
      cases found with
      | none => rfl
      | some answer =>
          have hshorter : after.ahead.length < first.ahead.length := (hdraws.answer answer rfl).2
          have hbelow : after.ahead.length < count := by omega
          have hbelow' : after.ahead.length < count' := by omega
          exact congrArg (answer :: ·) (ih hafter hbounded hbounded' hbelow hbelow')

theorem Parallel.toEnd_eq (h : first.Parallel second) (hfirst : first.Bounded)
    (hsecond : second.Bounded) : first.toEnd.1 = second.toEnd.1 := by
  have hlength : first.ahead.length < first.reach := Nat.lt_succ_of_le hfirst
  have hlength' : first.ahead.length < second.reach := by
    rw [h.ahead_eq]
    exact Nat.lt_succ_of_le hsecond
  exact h.take_eq hfirst hsecond hlength hlength'

end Records

end Chronicle
