import Chronicle.Proofs.Storage.Isolation
import Chronicle.Proofs.Storage.Reference

-- What a store answers is told by the cells that are expected, and an opening that is
-- refused leaves nothing behind.

namespace Chronicle

namespace Session

-- The pages of the open store are of a size that can be asked for, or its database has
-- no more rows than the greatest page.
def HasRoom (session : Session) : Prop :=
  ∀ store, session.store = some store → store.snapshot.HasRoom

def Action.ofMutation : Mutation → Action
  | .put key value => .put key value
  | .delete key => .delete key

-- All that is answered but for scans.
structure Agrees (session : Session) (reference : Reference) : Prop where
  openStore : ∀ path options,
    session.answer (.openStore path options) = reference.opening path
  -- What a refused opening took is given back.
  refused : ∀ path options error, session.answer (.openStore path options) = .refused error →
    (session.step (.openStore path options)).2 = session ∧
      Storage.attempt session.current path options = (.error error, session.current)
  -- Nobody but the open store holds the directory.
  held : session.current.held = reference.isOpen
  put : ∀ key value, session.answer (.put key value) = reference.whenOpen .done
  delete : ∀ key, session.answer (.delete key) = reference.whenOpen .done
  write : ∀ batch, session.answer (.write batch) = reference.whenOpen .done
  -- A batch is written as its changes are made one after the other.
  inTurn : ∀ batch,
    (session.step (.write batch)).2 = session.run (batch.map Action.ofMutation)
  get : ∀ key, session.answer (.get key) =
    reference.whenOpen (.value ((reference.cells key).bind Cell.value?))
  stats : ∃ live tombstones : Nat,
    session.answer .stats = reference.whenOpen (.stats ⟨live, tombstones⟩) ∧
      reference.liveKeys.encard = live ∧ reference.tombstones.encard = tombstones
  compact : ∃ tombstones : Nat,
    session.answer .compact = reference.whenOpen (.purged tombstones) ∧
      reference.tombstones.encard = tombstones
  compacted : ∀ key,
    (session.step .compact).2.answer (.get key) = session.answer (.get key)
  reopened : reference.isOpen = true → reference.format = Directory.currentFormat →
    ∀ path options key,
      (session.run [.closeStore, .openStore path options]).answer (.get key) =
        session.answer (.get key)

-- All that scans answer.
structure Lists (session : Session) (reference : Reference) : Prop where
  scan : ∃ entries,
    session.answer (.scan KeyRange.all) = reference.whenOpen (.entries entries true) ∧
      Ascending entries ∧
      ∀ key value, (key, value) ∈ entries ↔ reference.cells key = some (.live value)
  compacted : ∀ range,
    (session.step .compact).2.answer (.scan range) = session.answer (.scan range)
  reopened : reference.isOpen = true → reference.format = Directory.currentFormat →
    ∀ path options, (session.run [.closeStore, .openStore path options]).HasRoom →
      ∀ range, (session.run [.closeStore, .openStore path options]).answer (.scan range) =
        session.answer (.scan range)

variable {session : Session} {reference : Reference}

section Answers

theorem Tracks.whenOpen_of_none (h : session.Tracks reference) (hstore : session.store = none)
    (answer : Answer) : reference.whenOpen answer = .missing := by
  have hclosed := h.isOpen
  rw [hstore] at hclosed
  simp [Reference.whenOpen, ← hclosed]

theorem Tracks.whenOpen_of_some (h : session.Tracks reference) {store : Storage}
    (hstore : session.store = some store) (answer : Answer) :
    reference.whenOpen answer = answer := by
  have hopen := h.isOpen
  rw [hstore] at hopen
  simp [Reference.whenOpen, ← hopen]

theorem Tracks.answer_change (h : session.Tracks reference) {f : Storage → Answer × Storage}
    {answer : Answer}
    (hf : ∀ store, session.store = some store → (f store).1 = answer) :
    (session.change f).1 = reference.whenOpen answer := by
  unfold Session.change
  cases hstore : session.store with
  | none => exact (h.whenOpen_of_none hstore answer).symm
  | some store => exact (hf store hstore).trans (h.whenOpen_of_some hstore answer).symm

theorem Tracks.answer_get (h : session.Tracks reference) (key : Bytes) :
    session.answer (.get key) =
      reference.whenOpen (.value ((reference.cells key).bind Cell.value?)) := by
  cases hstore : session.store with
  | none =>
      rw [h.whenOpen_of_none hstore, answer, Session.step, consult_of_closed hstore]
  | some store =>
      have hcurrent : session.current = store.directory := by rw [current, hstore]
      rw [h.whenOpen_of_some hstore, h.tidy.answer_get hstore, ← h.cells, hcurrent]
      rfl

theorem Tracks.encard_liveKeys (h : session.Tracks reference) :
    reference.liveKeys.encard = session.current.table.stats.live := by
  have hkeys : reference.liveKeys =
      {key | ∃ cell, session.current.table.get? key = some cell ∧ cell.isLive = true} := by
    ext key
    rw [Reference.liveKeys, Set.mem_ofPred_eq, Set.mem_ofPred_eq, ← h.cells]
    constructor
    · rintro ⟨value, hvalue⟩
      exact ⟨_, hvalue, rfl⟩
    · rintro ⟨cell, hcell, hlive⟩
      cases cell with
      | live value => exact ⟨value, hcell⟩
      | tombstone => contradiction
  rw [hkeys]
  exact session.current.table.encard_cells Cell.isLive

theorem Tracks.encard_tombstones (h : session.Tracks reference) :
    reference.tombstones.encard = session.current.table.stats.tombstones := by
  have hkeys : reference.tombstones =
      {key | ∃ cell, session.current.table.get? key = some cell ∧ (!cell.isLive) = true} := by
    ext key
    rw [Reference.tombstones, Set.mem_ofPred_eq, Set.mem_ofPred_eq, ← h.cells]
    constructor
    · intro hdeleted
      exact ⟨_, hdeleted, rfl⟩
    · rintro ⟨cell, hcell, hdead⟩
      cases cell with
      | live value => contradiction
      | tombstone => exact hcell
  rw [hkeys]
  exact session.current.table.encard_cells fun cell => !cell.isLive

theorem Tracks.answer_stats (h : session.Tracks reference) :
    session.answer .stats = reference.whenOpen (.stats session.current.table.stats) := by
  cases hstore : session.store with
  | none => rw [h.whenOpen_of_none hstore, answer, Session.step, consult_of_closed hstore]
  | some store =>
      have hcurrent : session.current = store.directory := by rw [current, hstore]
      rw [h.whenOpen_of_some hstore, h.tidy.answer_stats hstore, hcurrent]
      rfl

theorem Tracks.answer_compact (h : session.Tracks reference) :
    session.answer .compact =
      reference.whenOpen (.purged session.current.table.stats.tombstones) := by
  refine h.answer_change fun store hstore => ?_
  have hcurrent : session.current = store.directory := by rw [current, hstore]
  rw [hcurrent]
  rfl

theorem Tracks.answer_openStore (h : session.Tracks reference) (path : String)
    (options : StorageOptions) :
    session.answer (.openStore path options) = reference.opening path := by
  rw [answer, Session.step, openStore_eq, Storage.openIn_eq, Reference.opening, h.held, h.format]
  cases reference.isOpen with
  | true => rfl
  | false =>
      by_cases hformat : reference.format = Directory.currentFormat
      · simp [hformat]
      · simp [hformat]

theorem refused_openStore {path : String} {options : StorageOptions} {error : StorageError}
    (h : session.answer (.openStore path options) = .refused error) :
    (session.step (.openStore path options)).2 = session ∧
      Storage.attempt session.current path options = (.error error, session.current) := by
  rw [Storage.attempt_eq]
  simp only [answer, Session.step, openStore_eq] at h ⊢
  cases hopen : Storage.openIn session.current path options with
  | ok store => simp [hopen] at h
  | error reason =>
      simp only [hopen, Answer.refused.injEq] at h ⊢
      exact ⟨trivial, by rw [h]⟩

theorem edit_id (session : Session) : session.edit id = session := by
  obtain ⟨directory, store⟩ := session
  cases store <;> rfl

theorem edit_edit (f g : Table → Table) : (session.edit f).edit g = session.edit (g ∘ f) := by
  simp only [edit, Option.map_map]
  rfl

theorem step_ofMutation (change : Mutation) :
    (session.step (.ofMutation change)).2 = session.edit (·.apply change) := by
  cases change <;> exact snd_change _ _

-- Induction is on the batch, with the session that its first change leaves.
theorem step_write (session : Session) (batch : Batch) :
    (session.step (.write batch)).2 = session.run (batch.map Action.ofMutation) := by
  have hwrite : (session.step (.write batch)).2 = session.edit (·.applyAll batch) :=
    snd_change _ _
  rw [hwrite]
  clear hwrite
  induction batch generalizing session with
  | nil => exact session.edit_id
  | cons change rest ih =>
      have hrest := ih (session.edit (·.apply change))
      rw [edit_edit] at hrest
      rw [List.map_cons, run, List.foldl_cons, step_ofMutation]
      exact hrest

end Answers

section Scans

theorem Tracks.answer_scan (h : session.Tracks reference) (hroom : session.HasRoom)
    (range : KeyRange) :
    session.answer (.scan range) =
      reference.whenOpen (.entries (session.current.table.liveIn range) true) := by
  cases hstore : session.store with
  | none => rw [h.whenOpen_of_none hstore, answer, Session.step, inTransaction_of_closed hstore]
  | some store =>
      have hcurrent : session.current = store.directory := by rw [current, hstore]
      rw [h.whenOpen_of_some hstore, h.tidy.answer_scan hstore,
        listing_snapshot (hroom store hstore), hcurrent]
      rfl

-- A session after which the same is live, with a store open or not as before.
theorem Tracks.answer_scan_eq (h : session.Tracks reference) (hroom : session.HasRoom)
    {other : Session} {reference' : Reference} (hother : other.Tracks reference')
    (hroom' : other.HasRoom) (hopen : reference'.isOpen = reference.isOpen)
    (hlive : other.current.table.liveEntries = session.current.table.liveEntries)
    (range : KeyRange) : other.answer (.scan range) = session.answer (.scan range) := by
  rw [h.answer_scan hroom, hother.answer_scan hroom', Reference.whenOpen, Reference.whenOpen,
    hopen, Table.liveIn, Table.liveIn, hlive]

theorem isOpen_change (reference : Reference) (f : Bytes → Option Cell → Option Cell) :
    (reference.change f).isOpen = reference.isOpen := by
  unfold Reference.change
  split <;> rfl

theorem step_compact (session : Session) :
    (session.step .compact).2 = session.edit Table.compact := by
  obtain ⟨directory, store⟩ := session
  cases store <;> rfl

theorem liveEntries_compact (session : Session) :
    (session.step .compact).2.current.table.liveEntries =
      session.current.table.liveEntries := by
  obtain ⟨directory, store⟩ := session
  cases store with
  | none => rfl
  | some store => exact store.table.liveEntries_compact

theorem HasRoom.compact (h : session.HasRoom) : (session.step .compact).2.HasRoom := by
  intro store hstore
  rw [step_compact] at hstore
  obtain ⟨before, hbefore, rfl⟩ := Option.map_eq_some_iff.mp hstore
  exact (h before hbefore).imp id fun hsize =>
    Nat.le_trans before.table.size_compact_le hsize

-- Closing and opening again leads back to the same expectation.
theorem Tracks.reopen (h : session.Tracks reference) (hopen : reference.isOpen = true)
    (hformat : reference.format = Directory.currentFormat) (path : String)
    (options : StorageOptions) :
    (session.run [.closeStore, .openStore path options]).Tracks reference := by
  have hboth := (h.step .closeStore).step (.openStore path options)
  have hsame : (reference.perform .closeStore).perform (.openStore path options) = reference := by
    obtain ⟨cells, format, isOpen⟩ := reference
    simp only at hopen hformat
    simp [Reference.perform, hopen, hformat]
  rw [hsame] at hboth
  exact hboth

theorem Tracks.table_eq (h : session.Tracks reference) {other : Session}
    (hother : other.Tracks reference) : other.current.table = session.current.table :=
  SortedMap.ext_get? fun key => (hother.cells key).trans (h.cells key).symm

end Scans

theorem Tracks.agrees (h : session.Tracks reference) : session.Agrees reference := by
  refine ⟨h.answer_openStore, fun _ _ _ => refused_openStore, h.held, ?_, ?_, ?_,
    step_write session, h.answer_get, ?_, ?_, ?_, ?_⟩
  · exact fun _ _ => h.answer_change fun _ _ => rfl
  · exact fun _ => h.answer_change fun _ _ => rfl
  · exact fun _ => h.answer_change fun _ _ => rfl
  · exact ⟨_, _, h.answer_stats, h.encard_liveKeys, h.encard_tombstones⟩
  · exact ⟨_, h.answer_compact, h.encard_tombstones⟩
  · intro key
    have hvalue : ∀ cell : Option Cell,
        (cell.filter Cell.isLive).bind Cell.value? = cell.bind Cell.value? := by
      rintro (_ | _ | _) <;> rfl
    rw [(h.step .compact).answer_get, h.answer_get]
    unfold Reference.whenOpen
    cases hopen : reference.isOpen with
    | true => simp [Reference.perform, Reference.change, hopen, hvalue]
    | false => simp [Reference.perform, Reference.change, hopen]
  · intro hopen hformat path options key
    rw [(h.reopen hopen hformat path options).answer_get, h.answer_get]

theorem Tracks.lists (h : session.Tracks reference) (hroom : session.HasRoom) :
    session.Lists reference := by
  refine ⟨?_, ?_, ?_⟩
  · refine ⟨_, h.answer_scan hroom KeyRange.all, Table.ascending_liveIn _ _, fun key value => ?_⟩
    have hall : KeyRange.all.contains key = true := by
      simp [KeyRange.contains_iff, KeyRange.all]
    rw [Table.mem_liveIn, Table.mem_liveEntries, ← SortedMap.get?_eq_some_iff, h.cells]
    exact and_iff_left hall
  · intro range
    exact h.answer_scan_eq hroom (h.step .compact) hroom.compact (isOpen_change _ _)
      session.liveEntries_compact range
  · intro hopen hformat path options hroom' range
    have hreopened := h.reopen hopen hformat path options
    exact h.answer_scan_eq hroom hreopened hroom' rfl
      (congrArg Table.liveEntries (h.table_eq hreopened)) range

-- Whatever happens to a directory that nobody holds, what is answered there is told by
-- the cells that are expected.
theorem agrees_run (format : String) (table : Table) (events : List Event) :
    let session := (start ⟨format, table, false⟩).undergoAll events
    let reference := (Reference.start format table).undergoAll events
    session.Agrees reference ∧ (session.HasRoom → session.Lists reference) := by
  have htracks := (tracks_start format table).undergoAll events
  exact ⟨htracks.agrees, htracks.lists⟩

-- A batch names one key twice, and two openings are refused: the first while the store
-- is open, the other because of what was written there as the format.
theorem agrees_run_of_refusals :
    let opening : Event := .act (.openStore "store" ⟨0, 2, 1⟩)
    let events : List Event := [opening,
      .act (.write [.put [1] [7], .delete [2], .put [1] [8]]), opening, .stamp "2",
      .act .closeStore, opening, .stamp Directory.currentFormat, opening]
    let session := (start Directory.fresh).undergoAll events
    let reference := (Reference.start Directory.currentFormat ∅).undergoAll events
    session.HasRoom ∧ reference.cells [1] = some (.live [8]) ∧
      reference.cells [2] = some .tombstone ∧ session.Agrees reference ∧
      session.Lists reference := by
  intro opening events session reference
  have hroom : session.HasRoom := by
    intro store hstore
    have hpage : session.store.map (·.snapshot.pageSize) = some 2 := rfl
    rw [hstore] at hpage
    have hsize : store.snapshot.pageSize = 2 := Option.some.inj hpage
    refine .inl ?_
    rw [hsize]
    decide
  obtain ⟨hagrees, hlists⟩ := agrees_run Directory.currentFormat ∅ events
  exact ⟨hroom, rfl, rfl, hagrees, hlists hroom⟩

end Session

end Chronicle
