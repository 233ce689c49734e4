import Chronicle.Proofs.EventStore.Entry
import Chronicle.Proofs.Storage

-- What is done to a store, as courses of steps. A step that was made stays made when a
-- later one fails, so that a failure leaves the store as it was has to be proved.

namespace Chronicle

-- What is done to a store.
inductive Operation where
  | write (record : Record)
  | delete (entity : String) (timestamp : Timestamp)
  | deleteEntity (entity : String)
  | importDocument (importer : Import.Importer) (document : String)
  | compact
  | reopen (path : String) (options : StorageOptions)

namespace EventStore

-- Steps that may fail. Whatever they have done to the store by then stays done.
abbrev Course (α : Type) := ExceptT StoreError (StateM EventStore) α

-- What a course answers, and the store as it is left.
def undergo {α : Type} (store : EventStore) (course : Course α) :
    Except StoreError α × EventStore :=
  course.run.run store

-- A record is checked, and put under its key.
def writing (record : Record) : Course Unit := do
  let (key, value) ← MonadExcept.ofExcept ((← get).entry record)
  modify fun store => { store with storage := store.storage.put key value }

def deleting (entity : String) (timestamp : Timestamp) : Course Unit := do
  let key ← MonadExcept.ofExcept
    ((RecordKey.mk entity timestamp.micros).encode.mapError .invalidKey)
  modify fun store => { store with storage := store.storage.delete key }

-- The entries of an entity are looked up, and deleted as one batch.
def deletingEntity (entity : String) : Course Nat := do
  let front ← MonadExcept.ofExcept ((RecordKey.front entity).mapError .invalidKey)
  let entries := ((← get).storage.scan (KeyRange.startingWith front)).toEnd.1
  let batch := entries.map fun entry => Mutation.delete entry.1
  modify fun store => { store with storage := store.storage.write batch }
  return batch.length

def compacting : Course Nat := modifyGet compact

-- Writes records in turn, and counts them or keeps why they were not written.
def writingAll : List Record → Course (Nat × List WriteFailure)
  | [] => return (0, [])
  | record :: rest => do
      let outcome ← observing (writing record)
      let (accepted, failed) ← writingAll rest
      match outcome with
      | .ok () => return (accepted + 1, failed)
      | .error error => return (accepted, ⟨record.entity, record.timestamp, error⟩ :: failed)

-- The steps of an import in their order.
def importing (importer : Import.Importer) (document : String) : Course ImportReport := do
  let kind := importer.config.kind
  match (← get).registry.latest? kind with
  | none => throw (.record (.unknownKind kind))
  | some schema =>
      let batch ← MonadExcept.ofExcept ((importer.parse document).mapError .document)
      let validation ← MonadExcept.ofExcept ((importer.validate batch schema).mapError .document)
      let (accepted, failed) ← writingAll validation.accepted
      return ⟨kind, accepted, validation.rejected, failed, batch.notes⟩

-- The store without its hold on the directory.
def released (store : EventStore) : EventStore :=
  { store with storage := { store.storage with directory := store.close } }

-- The directory is given back before it is asked for again.
def reopening (path : String) (options : StorageOptions) : Course Unit := do
  modify released
  let store ← get
  match Storage.attempt store.storage.directory path options with
  | (.ok storage, _) => set { store with storage := storage }
  | (.error error, left) =>
      set { store with storage := { store.storage with directory := left } }
      throw (.storage error)

def course : Operation → Course Unit
  | .write record => writing record
  | .delete entity timestamp => deleting entity timestamp
  | .deleteEntity entity => discard (deletingEntity entity)
  | .importDocument importer document => discard (importing importer document)
  | .compact => discard compacting
  | .reopen path options => reopening path options

def perform (store : EventStore) (operation : Operation) : Except StoreError Unit × EventStore :=
  store.undergo (course operation)

def after (store : EventStore) (operation : Operation) : EventStore :=
  (store.perform operation).2

-- The store that comes of giving the directory back and opening it again.
def reopen (store : EventStore) (path : String) (options : StorageOptions) :
    Except StoreError EventStore :=
  openIn store.close ⟨path, store.reader.policy, store.reader.unknownFields, options⟩ store.registry

-- The store that comes of an operation.
def outcome (store : EventStore) : Operation → Except StoreError EventStore
  | .write record => store.write record
  | .delete entity timestamp => store.delete entity timestamp
  | .deleteEntity entity => (store.deleteEntity entity).map (·.2)
  | .importDocument importer document => (store.importDocument importer document).map (·.2)
  | .compact => .ok store.compact.2
  | .reopen path options => store.reopen path options

variable {α β : Type}

section Steps

theorem undergo_get (store : EventStore) : store.undergo get = (.ok store, store) := rfl

theorem undergo_modify (store : EventStore) (change : EventStore → EventStore) :
    store.undergo (modify change) = (.ok (), change store) := rfl

theorem undergo_ofExcept (store : EventStore) (outcome : Except StoreError α) :
    store.undergo (MonadExcept.ofExcept outcome) = (outcome, store) := by
  cases outcome <;> rfl

theorem undergo_bind (store : EventStore) (course : Course α) (next : α → Course β) :
    store.undergo (course >>= next) =
      match store.undergo course with
      | (.ok answer, left) => left.undergo (next answer)
      | (.error error, left) => (.error error, left) := by
  unfold undergo ExceptT.run StateT.run
  simp only [bind, ExceptT.bind, ExceptT.mk, StateT.bind, ExceptT.bindCont]
  cases course store with
  | mk outcome left => cases outcome <;> rfl

theorem undergo_discard (store : EventStore) (course : Course α) :
    store.undergo (discard course) =
      ((store.undergo course).1.map fun _ => (), (store.undergo course).2) := by
  have hbind : store.undergo (discard course) =
      store.undergo (course >>= fun _ => pure ()) := rfl
  rw [hbind, undergo_bind]
  cases store.undergo course with
  | mk outcome left => cases outcome <;> rfl

theorem undergo_tryCatch (store : EventStore) (course : Course α)
    (handle : StoreError → Course α) :
    store.undergo (tryCatch course handle) =
      match store.undergo course with
      | (.ok answer, left) => (.ok answer, left)
      | (.error error, left) => left.undergo (handle error) := by
  unfold undergo ExceptT.run StateT.run
  simp only [tryCatch, tryCatchThe, MonadExceptOf.tryCatch, ExceptT.tryCatch, ExceptT.mk, bind,
    StateT.bind]
  cases course store with
  | mk outcome left => cases outcome <;> rfl

-- What a course has done before it failed is kept, too.
theorem undergo_observing (store : EventStore) (course : Course α) :
    store.undergo (observing course) =
      (.ok (store.undergo course).1, (store.undergo course).2) := by
  unfold observing
  rw [undergo_tryCatch, undergo_bind]
  cases store.undergo course with
  | mk outcome left => cases outcome <;> rfl

end Steps

section Courses

-- What is answered and left by a course that fails before it changes anything.
def orUnchanged (store : EventStore) :
    Except StoreError (α × EventStore) → Except StoreError α × EventStore
  | .ok (answer, next) => (.ok answer, next)
  | .error error => (.error error, store)

theorem undergo_writing (store : EventStore) (record : Record) :
    store.undergo (writing record) = store.orUnchanged ((store.write record).map ((), ·)) := by
  rw [writing, undergo_bind, undergo_get]
  dsimp only
  rw [undergo_bind, undergo_ofExcept, write]
  cases store.entry record <;> rfl

theorem undergo_deleting (store : EventStore) (entity : String) (timestamp : Timestamp) :
    store.undergo (deleting entity timestamp) =
      store.orUnchanged ((store.delete entity timestamp).map ((), ·)) := by
  rw [deleting, undergo_bind, undergo_ofExcept, delete]
  cases (RecordKey.mk entity timestamp.micros).encode <;> rfl

theorem undergo_deletingEntity (store : EventStore) (entity : String) :
    store.undergo (deletingEntity entity) = store.orUnchanged (store.deleteEntity entity) := by
  rw [deletingEntity, undergo_bind, undergo_ofExcept, deleteEntity]
  cases RecordKey.front entity <;> rfl

-- By induction on the records: one that is not written leaves the store to the next.
theorem undergo_writingAll (store : EventStore) (records : List Record) :
    store.undergo (writingAll records) =
      (.ok ((store.writeAll records).1, (store.writeAll records).2.1),
        (store.writeAll records).2.2) := by
  induction records generalizing store with
  | nil => rfl
  | cons record rest ih =>
      rw [writingAll, undergo_bind, undergo_observing, undergo_writing, writeAll]
      cases hwrite : store.write record with
      | ok next =>
          dsimp only [Except.map, orUnchanged]
          rw [undergo_bind, ih]
          rfl
      | error error =>
          dsimp only [Except.map, orUnchanged]
          rw [undergo_bind, ih]
          rfl

-- Nothing is written until nothing but single records can be refused.
theorem undergo_importing (store : EventStore) (importer : Import.Importer)
    (document : String) :
    store.undergo (importing importer document) =
      store.orUnchanged (store.importDocument importer document) := by
  rw [importing, importDocument]
  dsimp only
  rw [undergo_bind, undergo_get]
  dsimp only
  cases store.registry.latest? importer.config.kind with
  | none => rfl
  | some schema =>
      dsimp only
      rw [undergo_bind, undergo_ofExcept]
      cases (importer.parse document).mapError StoreError.document with
      | error error => rfl
      | ok batch =>
          dsimp only
          rw [undergo_bind, undergo_ofExcept, ok_bind]
          cases (importer.validate batch schema).mapError StoreError.document with
          | error error => rfl
          | ok validation =>
              dsimp only
              rw [undergo_bind, undergo_writingAll]
              rfl

-- Only what was on the disk can be in the way, and then the store has lost its hold.
theorem undergo_reopening (store : EventStore) (path : String) (options : StorageOptions) :
    store.undergo (reopening path options) =
      match store.reopen path options with
      | .ok next => (.ok (), next)
      | .error error => (.error error, store.released) := by
  rw [reopening, undergo_bind, undergo_modify]
  dsimp only
  rw [undergo_bind, undergo_get]
  dsimp only
  rw [Storage.attempt_eq, reopen, openIn]
  have hclose : store.released.storage.directory = store.close := rfl
  rw [hclose]
  cases Storage.openIn store.close path options <;> rfl

theorem reopen_eq_ok {store next : EventStore} {path : String} {options : StorageOptions} :
    store.reopen path options = .ok next ↔
      store.storage.directory.format = Directory.currentFormat ∧
      next = ⟨⟨path, { store.close with held := true }, options⟩, store.reader⟩ := by
  have hclosed : store.close.held = false := rfl
  have hformat : store.close.format = store.storage.directory.format := rfl
  rw [reopen, openIn, bind_eq_ok]
  constructor
  · rintro ⟨storage, hstorage, hnext⟩
    cases hnext
    obtain ⟨_, hcurrent, rfl⟩ := Storage.openIn_eq_ok.mp (mapError_eq_ok.mp hstorage)
    exact ⟨hformat ▸ hcurrent, rfl⟩
  · rintro ⟨hcurrent, rfl⟩
    refine ⟨_, mapError_eq_ok.mpr (Storage.openIn_eq_ok.mpr ⟨hclosed, ?_, rfl⟩), rfl⟩
    rw [hformat, hcurrent]

-- An operation comes to the next store, or it fails and leaves the store as it was. After
-- an opening that failed the store has no directory, which happens to foreign formats only.
theorem perform_cases (store : EventStore) (operation : Operation) :
    (∃ next, store.outcome operation = .ok next ∧ store.perform operation = (.ok (), next)) ∨
    ∃ error, store.outcome operation = .error error ∧
      (store.perform operation = (.error error, store) ∨
        store.storage.directory.format ≠ Directory.currentFormat ∧
        store.perform operation = (.error error, store.released)) := by
  cases operation with
  | write record =>
      rw [perform, course, undergo_writing, outcome]
      cases store.write record with
      | ok next => exact .inl ⟨next, rfl, rfl⟩
      | error error => exact .inr ⟨error, rfl, .inl rfl⟩
  | delete entity timestamp =>
      rw [perform, course, undergo_deleting, outcome]
      cases store.delete entity timestamp with
      | ok next => exact .inl ⟨next, rfl, rfl⟩
      | error error => exact .inr ⟨error, rfl, .inl rfl⟩
  | deleteEntity entity =>
      rw [perform, course, undergo_discard, undergo_deletingEntity, outcome]
      cases store.deleteEntity entity with
      | ok deleted => exact .inl ⟨deleted.2, rfl, rfl⟩
      | error error => exact .inr ⟨error, rfl, .inl rfl⟩
  | importDocument importer document =>
      rw [perform, course, undergo_discard, undergo_importing, outcome]
      cases store.importDocument importer document with
      | ok done => exact .inl ⟨done.2, rfl, rfl⟩
      | error error => exact .inr ⟨error, rfl, .inl rfl⟩
  | compact => exact .inl ⟨store.compact.2, rfl, rfl⟩
  | reopen path options =>
      rw [perform, course, undergo_reopening, outcome]
      cases hreopen : store.reopen path options with
      | ok next => exact .inl ⟨next, rfl, rfl⟩
      | error error =>
          refine .inr ⟨error, rfl, .inr ⟨fun hformat => ?_, rfl⟩⟩
          cases hreopen.symm.trans (reopen_eq_ok.mpr ⟨hformat, rfl⟩)

end Courses

end EventStore

end Chronicle
