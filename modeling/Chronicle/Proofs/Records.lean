import Chronicle.Proofs.Outcome
import Chronicle.Proofs.Scan
import Chronicle.Records

-- What a read answers, and how many entries it steps over, is told by the entries that
-- its scan has still to come to.

namespace Chronicle

-- A list of outcomes up to its first error, which is its last member then.
def untilError {ε α : Type} : List (Except ε α) → List (Except ε α)
  | [] => []
  | .ok a :: rest => .ok a :: untilError rest
  | .error e :: _ => [.error e]

theorem prefix_untilError {ε α : Type} (outcomes : List (Except ε α)) :
    untilError outcomes <+: outcomes := by
  induction outcomes with
  | nil => exact List.nil_prefix
  | cons outcome rest ih =>
      cases outcome with
      | ok a => exact List.cons_prefix_cons.mpr ⟨rfl, ih⟩
      | error e => exact List.cons_prefix_cons.mpr ⟨rfl, List.nil_prefix⟩

theorem untilError_of_ok {ε α : Type} {outcomes : List (Except ε α)}
    (h : ∀ outcome ∈ outcomes, ∃ a, outcome = .ok a) : untilError outcomes = outcomes := by
  induction outcomes with
  | nil => rfl
  | cons outcome rest ih =>
      obtain ⟨⟨a, rfl⟩, hrest⟩ := List.forall_mem_cons.mp h
      rw [untilError, ih hrest]

namespace Reader

-- Whether a read goes on behind an entry without an answer.
def stepsOver (reader : Reader) (entry : Bytes × Bytes) : Bool :=
  match reader.decode entry.1 entry.2 with
  | .ok _ => false
  | .error error => reader.skips error

-- The answers to stored entries in turn.
def answers (reader : Reader) : List (Bytes × Bytes) → List (Except StoreError Record)
  | [] => []
  | (key, value) :: rest =>
      match reader.decode key value with
      | .ok record => .ok record :: answers reader rest
      | .error error => if reader.skips error then answers reader rest else [.error error]

-- The entries that are left when one more answer was asked for. None are left behind an
-- error.
def beyond (reader : Reader) : List (Bytes × Bytes) → List (Bytes × Bytes)
  | [] => []
  | (key, value) :: rest =>
      match reader.decode key value with
      | .ok _ => rest
      | .error error => if reader.skips error then beyond reader rest else []

-- The entries that are looked at when so many answers are asked for.
def lookedAt (reader : Reader) : (calls : Nat) → List (Bytes × Bytes) → List (Bytes × Bytes)
  | 0, _ => []
  | _ + 1, [] => []
  | calls + 1, (key, value) :: rest =>
      (key, value) ::
        match reader.decode key value with
        | .ok _ => lookedAt reader calls rest
        | .error error => if reader.skips error then lookedAt reader (calls + 1) rest else []

variable {reader : Reader} {entries : List (Bytes × Bytes)}

theorem answers_eq_untilError (reader : Reader) (entries : List (Bytes × Bytes)) :
    reader.answers entries =
      untilError ((entries.filter fun entry => !reader.stepsOver entry).map fun entry =>
        reader.decode entry.1 entry.2) := by
  induction entries with
  | nil => rfl
  | cons entry rest ih =>
      obtain ⟨key, value⟩ := entry
      rw [answers, List.filter_cons]
      cases hdecode : reader.decode key value with
      | ok record => simp [stepsOver, hdecode, untilError, ih]
      | error error =>
          cases hskips : reader.skips error with
          | true => simp [stepsOver, hdecode, hskips, ih]
          | false => simp [stepsOver, hdecode, hskips, untilError]

-- Each answer is to an entry that is not stepped over.
theorem exists_of_mem_answers {outcome : Except StoreError Record}
    (h : outcome ∈ reader.answers entries) :
    ∃ entry ∈ entries, reader.stepsOver entry = false ∧
      reader.decode entry.1 entry.2 = outcome := by
  rw [answers_eq_untilError] at h
  obtain ⟨entry, hmem, houtcome⟩ := List.mem_map.mp ((prefix_untilError _).subset h)
  obtain ⟨hentry, hkept⟩ := List.mem_filter.mp hmem
  exact ⟨entry, hentry, by simpa using hkept, houtcome⟩

-- What holds between entries in their order holds between the answers to them.
theorem pairwise_answers {holds : Except StoreError Record → Except StoreError Record → Prop}
    (h : entries.Pairwise fun first second =>
      holds (reader.decode first.1 first.2) (reader.decode second.1 second.2)) :
    (reader.answers entries).Pairwise holds := by
  rw [answers_eq_untilError]
  exact (List.pairwise_map.mpr (h.filter _)).sublist (prefix_untilError _).sublist

theorem answers_of_all (h : ∀ entry ∈ entries, reader.stepsOver entry = false) :
    reader.answers entries =
      untilError (entries.map fun entry => reader.decode entry.1 entry.2) := by
  have hall : (entries.filter fun entry => !reader.stepsOver entry) = entries :=
    List.filter_eq_self.mpr fun entry hmem => by rw [h entry hmem, Bool.not_false]
  rw [answers_eq_untilError, hall]

theorem answers_beyond (reader : Reader) (entries : List (Bytes × Bytes)) :
    reader.answers (reader.beyond entries) = (reader.answers entries).tail := by
  induction entries with
  | nil => rfl
  | cons entry rest ih =>
      obtain ⟨key, value⟩ := entry
      cases hdecode : reader.decode key value with
      | ok record => simp [answers, beyond, hdecode]
      | error error =>
          cases hskips : reader.skips error with
          | true => simp [answers, beyond, hdecode, hskips, ih]
          | false => simp [answers, beyond, hdecode, hskips]

theorem prefix_lookedAt (reader : Reader) (calls : Nat) (entries : List (Bytes × Bytes)) :
    reader.lookedAt calls entries <+: entries := by
  induction entries generalizing calls with
  | nil => cases calls <;> exact List.prefix_refl _
  | cons entry rest ih =>
      obtain ⟨key, value⟩ := entry
      cases calls with
      | zero => exact List.nil_prefix
      | succ calls =>
          rw [lookedAt]
          refine List.cons_prefix_cons.mpr ⟨rfl, ?_⟩
          cases hdecode : reader.decode key value with
          | ok record => exact ih calls
          | error error =>
              dsimp only
              split
              · exact ih (calls + 1)
              · exact List.nil_prefix

-- The entries that are looked at for so many answers have just these answers.
theorem answers_lookedAt (reader : Reader) (calls : Nat) (entries : List (Bytes × Bytes)) :
    reader.answers (reader.lookedAt calls entries) = (reader.answers entries).take calls := by
  induction entries generalizing calls with
  | nil => cases calls <;> rfl
  | cons entry rest ih =>
      obtain ⟨key, value⟩ := entry
      cases calls with
      | zero => rw [lookedAt, answers, List.take_zero]
      | succ calls =>
          rw [lookedAt]
          cases hdecode : reader.decode key value with
          | ok record => simp [answers, hdecode, ih]
          | error error =>
              cases hskips : reader.skips error with
              | true => simp [answers, hdecode, hskips, ih]
              | false => simp [answers, hdecode, hskips]

-- What is looked at for several answers is what is looked at for the first, and then
-- for the others.
theorem lookedAt_succ (reader : Reader) (calls : Nat) (entries : List (Bytes × Bytes)) :
    reader.lookedAt (calls + 1) entries =
      reader.lookedAt 1 entries ++ reader.lookedAt calls (reader.beyond entries) := by
  induction entries with
  | nil => cases calls <;> rfl
  | cons entry rest ih =>
      obtain ⟨key, value⟩ := entry
      cases hdecode : reader.decode key value with
      | ok record => simp [lookedAt, beyond, hdecode]
      | error error =>
          cases hskips : reader.skips error with
          | true => simp [lookedAt, beyond, hdecode, hskips, ih]
          | false => cases calls <;> simp [lookedAt, beyond, hdecode, hskips]

end Reader

namespace Records

-- The entries that are still to be looked at.
def ahead (records : Records) : List (Bytes × Bytes) :=
  if records.done then [] else records.scan.pending

theorem ahead_start (snapshot : Snapshot) (range : KeyRange) (reader : Reader) :
    (start (Scan.start snapshot range) reader).ahead = snapshot.table.liveIn range :=
  Scan.pending_start snapshot range

-- The answers that are still to come.
def answers (records : Records) : List (Except StoreError Record) :=
  records.reader.answers records.ahead

-- One attempt takes the first of the answers and leaves the others.
structure Advances (before : Records) (found : Option (Except StoreError Record))
    (after : Records) : Prop where
  found_eq : found = before.answers.head?
  ahead_eq : after.ahead = before.reader.beyond before.ahead
  skipped_eq : after.skipped = before.skipped +
    (before.reader.lookedAt 1 before.ahead).countP before.reader.stepsOver
  sound : after.scan.Sound
  reader_eq : after.reader = before.reader

theorem Advances.answers_eq {before after : Records}
    {found : Option (Except StoreError Record)} (h : before.Advances found after) :
    after.answers = before.answers.tail := by
  rw [answers, h.ahead_eq, h.reader_eq]
  exact before.reader.answers_beyond before.ahead

-- The induction is on the entries that the attempt may look at; each that it
-- steps over is one fewer ahead.
theorem advances_nextWithin {records : Records} {entries : Nat} (hsound : records.scan.Sound)
    (hlength : records.scan.pending.length < entries) :
    records.Advances (nextWithin entries records).1 (nextWithin entries records).2 := by
  induction entries generalizing records with
  | zero => omega
  | succ entries ih =>
      obtain ⟨scan, reader, skipped, done⟩ := records
      rw [nextWithin]
      cases done with
      | true => exact ⟨rfl, rfl, rfl, hsound, rfl⟩
      | false =>
          have hahead : ahead ⟨scan, reader, skipped, false⟩ = scan.pending := rfl
          simp only [Bool.false_eq_true, if_false]
          cases hpending : scan.pending with
          | nil =>
              obtain ⟨after, hnext, hnil, hafter⟩ := Scan.next_of_nil hsound hpending
              rw [hpending] at hahead
              rw [hnext]
              refine ⟨?_, ?_, ?_, hafter, rfl⟩
              · rw [answers, hahead]
                rfl
              · rw [hahead]
                exact hnil
              · rw [hahead]
                rfl
          | cons entry rest =>
              obtain ⟨key, value⟩ := entry
              obtain ⟨after, hnext, hrest, hafter⟩ := Scan.next_of_cons hsound hpending
              rw [hpending] at hahead
              rw [hnext]
              cases hdecode : reader.decode key value with
              | ok record =>
                  simp only [hdecode]
                  refine ⟨?_, ?_, ?_, hafter, rfl⟩
                  · rw [answers, hahead]
                    simp [Reader.answers, hdecode]
                  · rw [hahead]
                    simp [ahead, Reader.beyond, hdecode, hrest]
                  · rw [hahead]
                    simp [Reader.lookedAt, Reader.stepsOver, hdecode]
              | error error =>
                  cases hskips : reader.skips error with
                  | true =>
                      have hshorter : after.pending.length < entries := by
                        rw [hpending] at hlength
                        simpa [hrest] using hlength
                      have hlater := @ih ⟨after, reader, skipped + 1, false⟩ hafter hshorter
                      have hahead' : ahead ⟨after, reader, skipped + 1, false⟩ = rest := hrest
                      obtain ⟨hfound, hbeyond, hskipped, hsound', hreader⟩ := hlater
                      simp only [hdecode, hskips, if_true]
                      refine ⟨?_, ?_, ?_, hsound', hreader⟩
                      · rw [hfound, answers, answers, hahead, hahead']
                        simp [Reader.answers, hdecode, hskips]
                      · rw [hbeyond, hahead, hahead']
                        simp [Reader.beyond, hdecode, hskips]
                      · rw [hskipped, hahead, hahead']
                        simp [Reader.lookedAt, Reader.stepsOver, hdecode, hskips]
                        omega
                  | false =>
                      simp only [hdecode, hskips, Bool.false_eq_true, if_false]
                      refine ⟨?_, ?_, ?_, hafter, rfl⟩
                      · rw [answers, hahead]
                        simp [Reader.answers, hdecode, hskips]
                      · rw [hahead]
                        simp [ahead, Reader.beyond, hdecode, hskips]
                      · rw [hahead]
                        simp [Reader.lookedAt, Reader.stepsOver, hdecode, hskips]

theorem advances_next {records : Records} (hsound : records.scan.Sound) :
    records.Advances records.next.1 records.next.2 :=
  advances_nextWithin hsound (Nat.lt_succ_of_le hsound.length_pending_le)

theorem fst_take {records : Records} (hsound : records.scan.Sound) (count : Nat) :
    (records.take count).1 = records.answers.take count := by
  induction count generalizing records with
  | zero => rfl
  | succ count ih =>
      have hadvances := advances_next hsound
      have hfound := hadvances.found_eq
      have hrest := ih hadvances.sound
      rw [hadvances.answers_eq] at hrest
      unfold take
      rcases hnext : records.next with ⟨found, after⟩
      rw [hnext] at hfound hrest
      cases found with
      | none =>
          have hnil : records.answers = [] := List.head?_eq_none_iff.mp hfound.symm
          rw [hnil, List.take_nil]
      | some answer =>
          obtain ⟨tail, hcons⟩ := List.head?_eq_some_iff.mp hfound.symm
          rw [hcons, List.tail_cons] at hrest
          rw [hcons, List.take_succ_cons, ← hrest]

-- The records after so many answers were asked for.
def after : (calls : Nat) → Records → Records
  | 0, records => records
  | calls + 1, records => after calls records.next.2

theorem next_after {records : Records} (hsound : records.scan.Sound) (calls : Nat) :
    (records.after calls).next.1 = records.answers[calls]? := by
  induction calls generalizing records with
  | zero => exact (advances_next hsound).found_eq.trans List.head?_eq_getElem?
  | succ calls ih =>
      have hadvances := advances_next hsound
      have hrest := ih hadvances.sound
      rw [hadvances.answers_eq, List.getElem?_tail] at hrest
      exact hrest

theorem skipped_after {records : Records} (hsound : records.scan.Sound) (calls : Nat) :
    (records.after calls).skipped = records.skipped +
      (records.reader.lookedAt calls records.ahead).countP records.reader.stepsOver := by
  induction calls generalizing records with
  | zero => simp [after, Reader.lookedAt]
  | succ calls ih =>
      have hadvances := advances_next hsound
      have hrest := ih hadvances.sound
      rw [hadvances.ahead_eq, hadvances.reader_eq, hadvances.skipped_eq] at hrest
      rw [Reader.lookedAt_succ, List.countP_append, ← Nat.add_assoc]
      exact hrest

theorem exists_after_take (records : Records) (count : Nat) :
    ∃ calls, (records.take count).2 = records.after calls := by
  induction count generalizing records with
  | zero => exact ⟨0, rfl⟩
  | succ count ih =>
      obtain ⟨calls, hcalls⟩ := ih records.next.2
      unfold take
      rcases hnext : records.next with ⟨found, after⟩
      rw [hnext] at hcalls
      cases found with
      | none => exact ⟨1, by rw [Records.after, hnext]; rfl⟩
      | some answer => exact ⟨calls + 1, by rw [Records.after, hnext]; exact hcalls⟩

-- Where no entry is stepped over none is counted.
theorem skipped_take {records : Records} (hsound : records.scan.Sound)
    (hall : ∀ entry ∈ records.scan.pending, records.reader.stepsOver entry = false)
    (count : Nat) : (records.take count).2.skipped = records.skipped := by
  obtain ⟨calls, hcalls⟩ := records.exists_after_take count
  have hnone :
      (records.reader.lookedAt calls records.ahead).countP records.reader.stepsOver = 0 := by
    refine List.countP_eq_zero.mpr fun entry hmem => ?_
    have hahead : entry ∈ records.scan.pending := by
      have hlooked := (records.reader.prefix_lookedAt calls records.ahead).subset hmem
      unfold ahead at hlooked
      split at hlooked
      · contradiction
      · exact hlooked
    simp [hall entry hahead]
  rw [hcalls, skipped_after hsound, hnone, Nat.add_zero]

end Records

section Last

variable {answers rest : List (Except StoreError Record)} {found : List Record}
  {last latest : Option Record}

-- The last of several answers is among them, if there are any.
theorem mem_of_foldlM_answers
    (h : answers.foldlM (fun _ answer => answer.map some) last = .ok latest) :
    latest = last ∨ ∃ record, latest = some record ∧ .ok record ∈ answers := by
  induction answers generalizing last with
  | nil =>
      cases h
      exact .inl rfl
  | cons answer rest ih =>
      rw [List.foldlM_cons] at h
      obtain ⟨next, hanswer, h⟩ := bind_eq_ok.mp h
      obtain ⟨record, rfl, rfl⟩ := map_eq_ok.mp hanswer
      rcases ih h with rfl | ⟨other, rfl, hother⟩
      · exact .inr ⟨record, rfl, List.mem_cons_self⟩
      · exact .inr ⟨other, rfl, List.mem_cons_of_mem _ hother⟩

theorem exists_of_foldlM_answers (h : ∀ answer ∈ answers, ∃ record, answer = .ok record) :
    ∃ latest, answers.foldlM (fun _ answer => answer.map some) last = .ok latest := by
  induction answers generalizing last with
  | nil => exact ⟨last, rfl⟩
  | cons answer rest ih =>
      obtain ⟨record, rfl⟩ := h answer List.mem_cons_self
      rw [List.foldlM_cons]
      exact ih fun other hother => h other (List.mem_cons_of_mem _ hother)

-- The last of several answers, where none is an error.
theorem foldlM_answers_of_ok :
    (found.map Except.ok).foldlM (fun _ answer => answer.map some) last =
      (.ok (found.getLast?.or last) : Except StoreError (Option Record)) := by
  induction found generalizing last with
  | nil => rfl
  | cons record rest ih =>
      have hlast : (record :: rest).getLast?.or last = rest.getLast?.or (some record) := by
        rw [List.getLast?_cons]
        cases rest.getLast? <;> rfl
      rw [List.map_cons, List.foldlM_cons, hlast]
      exact ih

theorem foldlM_answers_of_error {error : StoreError} :
    (found.map Except.ok ++ Except.error error :: rest).foldlM
        (fun _ (answer : Except StoreError Record) => answer.map some) last =
      (.error error : Except StoreError (Option Record)) := by
  induction found generalizing last with
  | nil => rfl
  | cons record others ih =>
      rw [List.map_cons, List.cons_append, List.foldlM_cons]
      exact ih

end Last

end Chronicle
