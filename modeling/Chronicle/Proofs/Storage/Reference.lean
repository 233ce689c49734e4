import Chronicle.Proofs.Storage.Session
import Chronicle.Proofs.Table

-- What is expected of a directory in use: a map of cells, changed key by key by what is
-- done there. The table in the directory keeps to it.

namespace Chronicle

namespace Session

-- What happens to a directory: what is done in the session, and that somebody writes
-- another format there without a look at who holds it.
inductive Event where
  | act (action : Action)
  | stamp (format : String)

def stamp (session : Session) (format : String) : Session :=
  { session with
    directory := { session.directory with format := format }
    store := session.store.map fun store =>
      { store with directory := { store.directory with format := format } } }

-- The table of the open store is changed.
def edit (session : Session) (f : Table → Table) : Session :=
  { session with store := session.store.map (Storage.modify f) }

def undergo (session : Session) : Event → Session
  | .act action => (session.step action).2
  | .stamp format => session.stamp format

def undergoAll (session : Session) (events : List Event) : Session :=
  events.foldl undergo session

end Session

-- What is expected of a directory: the cells of the keys that were written and not
-- removed, the format, and whether a store is open.
structure Reference where
  cells : Bytes → Option Cell
  format : String
  isOpen : Bool

namespace Reference

open Session (Action Answer Event)

def start (format : String) (table : Table) : Reference := ⟨table.get?, format, false⟩

-- Without a store nothing is changed and nothing is answered.
def change (reference : Reference) (f : Bytes → Option Cell → Option Cell) : Reference :=
  if reference.isOpen then { reference with cells := fun key => f key (reference.cells key) }
  else reference

def whenOpen (reference : Reference) (answer : Answer) : Answer :=
  if reference.isOpen then answer else .missing

-- What comes of an opening.
def opening (reference : Reference) (path : String) : Answer :=
  if reference.isOpen then .refused (.locked path)
  else if reference.format ≠ Directory.currentFormat then
    .refused (.incompatibleFormat reference.format)
  else .done

def perform (reference : Reference) : Action → Reference
  | .openStore _ _ =>
      { reference with isOpen := reference.isOpen || reference.format = Directory.currentFormat }
  | .closeStore => { reference with isOpen := false }
  | .put written value =>
      reference.change fun key cell => if key = written then some (.live value) else cell
  | .delete deleted =>
      reference.change fun key cell => if key = deleted then some .tombstone else cell
  -- The last change of a key wins.
  | .write batch => reference.change fun key cell => (Batch.lastCell? batch key).or cell
  | .compact => reference.change fun _ cell => cell.filter Cell.isLive
  | _ => reference

def undergo (reference : Reference) : Event → Reference
  | .act action => reference.perform action
  | .stamp format => { reference with format := format }

def undergoAll (reference : Reference) (events : List Event) : Reference :=
  events.foldl undergo reference

def liveKeys (reference : Reference) : Set Bytes :=
  {key | ∃ value, reference.cells key = some (.live value)}

def tombstones (reference : Reference) : Set Bytes :=
  {key | reference.cells key = some .tombstone}

end Reference

namespace Session

-- The invariant that carries all of it.
structure Tracks (session : Session) (reference : Reference) : Prop where
  tidy : session.Tidy
  cells : ∀ key, session.current.table.get? key = reference.cells key
  format : session.current.format = reference.format
  isOpen : session.store.isSome = reference.isOpen
  held : session.current.held = reference.isOpen

variable {session next : Session} {reference : Reference}

section Steps

-- Actions that neither open or close the store nor change its table.
def Action.SparesStore : Action → Prop
  | .openStore _ _ | .closeStore | .put _ _ | .delete _ | .write _ | .compact => False
  | _ => True

theorem snd_change (answer : Answer) (f : Table → Table) :
    (session.change fun store => (answer, store.modify f)).2 = session.edit f := by
  obtain ⟨directory, store⟩ := session
  cases store <;> rfl

theorem store_dropSnapshot (name : String) : (session.dropSnapshot name).store = session.store ∧
    (session.dropSnapshot name).directory = session.directory := by
  unfold dropSnapshot
  split <;> exact ⟨rfl, rfl⟩

theorem store_dropScan (name : String) : (session.dropScan name).store = session.store ∧
    (session.dropScan name).directory = session.directory := by
  unfold dropScan
  split <;> exact ⟨rfl, rfl⟩

theorem store_inTransaction {f : Transaction → Session → Answer × Session}
    (hf : ∀ transaction number pool,
      (f transaction (session.setPool number pool)).2.store = session.store ∧
      (f transaction (session.setPool number pool)).2.directory = session.directory) :
    (session.inTransaction f).2.store = session.store ∧
      (session.inTransaction f).2.directory = session.directory := by
  unfold inTransaction
  split
  · exact ⟨rfl, rfl⟩
  · dsimp only
    split
    · exact ⟨rfl, rfl⟩
    · exact hf _ _ _

theorem Action.SparesStore.store_step {action : Action} (h : action.SparesStore) :
    (session.step action).2.store = session.store ∧
      (session.step action).2.directory = session.directory := by
  cases action with
  | get key =>
      simp only [step, consult]
      split <;> exact ⟨rfl, rfl⟩
  | stats =>
      simp only [step, consult]
      split <;> exact ⟨rfl, rfl⟩
  | scan range => exact store_inTransaction fun _ _ _ => ⟨rfl, rfl⟩
  | takeSnapshot name => exact store_inTransaction fun _ _ _ => store_dropSnapshot name
  | dropSnapshot name => exact store_dropSnapshot name
  | snapshotGet name key =>
      simp only [step, inspect]
      split <;> exact ⟨rfl, rfl⟩
  | snapshotScan name range =>
      simp only [step, inspect]
      split <;> exact ⟨rfl, rfl⟩
  | startScan name range => exact store_inTransaction fun _ _ _ => store_dropScan name
  | startScanOn snapshot name range =>
      simp only [step]
      split
      · exact ⟨rfl, rfl⟩
      · exact store_dropScan name
  | turnIntoScan snapshot name range =>
      simp only [step]
      split
      · exact ⟨rfl, rfl⟩
      · exact store_dropScan name
  | advance name count =>
      simp only [step, Session.advance]
      split
      · exact ⟨rfl, rfl⟩
      · rename_i cursor _
        split
        · exact ⟨rfl, rfl⟩
        · cases cursor.access <;> exact ⟨rfl, rfl⟩
  | dropScan name => exact store_dropScan name
  | _ => exact h.elim

theorem current_of_store {other : Session} (hstore : other.store = session.store)
    (hdirectory : other.directory = session.directory) : other.current = session.current := by
  rw [current, current, hstore, hdirectory]

theorem Tracks.keep (h : session.Tracks reference) (htidy : next.Tidy)
    (hstore : next.store = session.store) (hdirectory : next.directory = session.directory) :
    next.Tracks reference := by
  have hsame := current_of_store hstore hdirectory
  refine ⟨htidy, ?_, ?_, ?_, ?_⟩
  · rw [hsame]
    exact h.cells
  · rw [hsame]
    exact h.format
  · rw [hstore]
    exact h.isOpen
  · rw [hsame]
    exact h.held

-- A change of the table is one of the cells.
theorem Tracks.change (h : session.Tracks reference) {f : Storage → Answer × Storage}
    {change : Table → Table} {effect : Bytes → Option Cell → Option Cell}
    (hf : ∀ store, (f store).2 = store.modify change)
    (heffect : ∀ table key, (change table).get? key = effect key (table.get? key)) :
    (session.change f).2.Tracks (reference.change effect) := by
  have htidy := h.tidy.change f
  have hisOpen := h.isOpen
  unfold Session.change at htidy ⊢
  unfold Reference.change
  cases hstore : session.store with
  | none =>
      rw [hstore] at hisOpen
      rw [if_neg (by simp [← hisOpen])]
      exact h
  | some store =>
      have hcurrent : session.current = store.directory := by rw [current, hstore]
      rw [hstore] at hisOpen htidy
      rw [if_pos (by simp [← hisOpen])]
      obtain ⟨_, hcells, hformat, _, hheld⟩ := h
      rw [hcurrent] at hcells hformat hheld
      dsimp only at htidy ⊢
      rw [hf] at htidy ⊢
      refine ⟨htidy, fun key => ?_, hformat, hisOpen, hheld⟩
      exact (heffect _ key).trans (congrArg (effect key) (hcells key))

theorem Tracks.openStore (h : session.Tracks reference) (path : String)
    (options : StorageOptions) :
    (session.step (.openStore path options)).2.Tracks
      (reference.perform (.openStore path options)) := by
  have htidy := h.tidy.step (.openStore path options)
  obtain ⟨_, hcells, hformat, hisOpen, hheld⟩ := h
  simp only [Session.step, openStore_eq, Storage.openIn_eq, Reference.perform, hheld,
    hformat] at htidy ⊢
  cases hopen : reference.isOpen with
  | true =>
      simp only [hopen, if_true, Bool.true_or] at htidy ⊢
      exact ⟨htidy, hcells, hformat, hisOpen.trans hopen, hheld.trans hopen⟩
  | false =>
      by_cases hcurrent : reference.format = Directory.currentFormat
      · simp only [hopen, hcurrent, ne_eq, not_true, if_false, Bool.false_eq_true, decide_true,
          Bool.or_true] at htidy ⊢
        exact ⟨htidy, hcells, rfl, rfl, rfl⟩
      · simp only [hopen, hcurrent, ne_eq, not_false_eq_true, if_true, if_false,
          Bool.false_eq_true, decide_false, Bool.or_false] at htidy ⊢
        exact ⟨htidy, hcells, hformat, hisOpen.trans hopen, hheld.trans hopen⟩

theorem Tracks.closeStore (h : session.Tracks reference) :
    session.closeStore.Tracks (reference.perform .closeStore) := by
  have htidy := h.tidy.closeStore
  have hisOpen := h.isOpen
  unfold Session.closeStore at htidy ⊢
  cases hstore : session.store with
  | none =>
      rw [hstore] at hisOpen
      exact ⟨h.tidy, h.cells, h.format, by rw [hstore]; rfl, h.held.trans hisOpen.symm⟩
  | some store =>
      have hcurrent : session.current = store.directory := by rw [current, hstore]
      rw [hstore] at htidy
      obtain ⟨_, hcells, hformat, _, _⟩ := h
      rw [hcurrent] at hcells hformat
      exact ⟨htidy, hcells, hformat, rfl, rfl⟩

theorem Tracks.stamp (h : session.Tracks reference) (format : String) :
    (session.stamp format).Tracks { reference with format := format } := by
  have hcurrent : (session.stamp format).current =
      { session.current with format := format } := by
    unfold Session.stamp current
    cases session.store <;> rfl
  have htidy : (session.stamp format).Tidy :=
    ⟨h.tidy.clean, h.tidy.snapshots, h.tidy.scans⟩
  refine ⟨htidy, ?_, ?_, ?_, ?_⟩
  · rw [hcurrent]
    exact h.cells
  · rw [hcurrent]
  · exact Option.isSome_map.trans h.isOpen
  · rw [hcurrent]
    exact h.held

theorem Tracks.step (h : session.Tracks reference) (action : Action) :
    (session.step action).2.Tracks (reference.perform action) := by
  by_cases hspares : action.SparesStore
  · have hspared : (session.step action).2.store = session.store ∧
        (session.step action).2.directory = session.directory := hspares.store_step
    have hsame : reference.perform action = reference := by
      cases action <;> first | rfl | exact hspares.elim
    rw [hsame]
    exact h.keep (h.tidy.step action) hspared.1 hspared.2
  · cases action with
    | openStore path options => exact h.openStore path options
    | closeStore => exact h.closeStore
    | put written value =>
        exact h.change (fun _ => rfl) fun table key => table.get?_apply (.put written value) key
    | delete deleted =>
        exact h.change (fun _ => rfl) fun table key => table.get?_apply (.delete deleted) key
    | write batch => exact h.change (fun _ => rfl) fun table key => table.get?_applyAll batch key
    | compact => exact h.change (fun _ => rfl) fun table key => table.get?_compact key
    | _ => exact absurd trivial hspares

theorem tracks_start (format : String) (table : Table) :
    (start ⟨format, table, false⟩).Tracks (Reference.start format table) :=
  ⟨tidy_start _, fun _ => rfl, rfl, rfl, rfl⟩

-- Events in turn change both in the same way.
theorem Tracks.undergoAll (h : session.Tracks reference) (events : List Event) :
    (session.undergoAll events).Tracks (reference.undergoAll events) := by
  induction events generalizing session reference with
  | nil => exact h
  | cons event events ih =>
      cases event with
      | act action => exact ih (h.step action)
      | stamp format => exact ih (h.stamp format)

end Steps

end Session

end Chronicle
