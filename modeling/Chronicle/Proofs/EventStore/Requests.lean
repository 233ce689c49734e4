import Chronicle.Proofs.EventStore.Course
import Chronicle.Proofs.Records.Step

-- Requests that name one entity: nothing but the keys of that entity has a part in what
-- they are answered, and no other key is changed.

namespace Chronicle

inductive Request where
  | write (record : Record)
  | get (entity : String) (timestamp : Timestamp)
  | delete (entity : String) (timestamp : Timestamp)
  | deleteEntity (entity : String)
  | read (entity : String) (span : TimeSpan)
  | latest (entity : String)

def Request.entity : Request → String
  | .write record => record.entity
  | .get entity _ => entity
  | .delete entity _ => entity
  | .deleteEntity entity => entity
  | .read entity _ => entity
  | .latest entity => entity

inductive Reply where
  | done (outcome : Except StoreError Unit)
  | found (outcome : Except StoreError (Option Record))
  | deleted (outcome : Except StoreError Nat)
  -- All that can be seen of the records, however far they are read.
  | records (outcome : Except StoreError (Nat → Option (Except StoreError Record) × Nat))

-- The keys that an entity takes up, if it can take up any.
def Owns (entity : String) (key : Bytes) : Prop :=
  RecordKey.IsEntity entity ∧ RecordKey.frontBytes entity <+: key

theorem Owns.eq {entity other : String} {key : Bytes} (h : Owns entity key)
    (h' : Owns other key) : entity = other :=
  RecordKey.eq_of_prefix_frontBytes h.1 h'.1 h.2 h'.2

theorem owns_keyBytes {key : RecordKey} (h : RecordKey.IsEntity key.entity) :
    Owns key.entity key.keyBytes :=
  ⟨h, List.prefix_append _ _⟩

namespace EventStore

def serve (store : EventStore) : Request → Reply × EventStore
  | .write record =>
      let (outcome, next) := store.undergo (writing record)
      (.done outcome, next)
  | .get entity timestamp => (.found (store.get? entity timestamp), store)
  | .delete entity timestamp =>
      let (outcome, next) := store.undergo (deleting entity timestamp)
      (.done outcome, next)
  | .deleteEntity entity =>
      let (outcome, next) := store.undergo (deletingEntity entity)
      (.deleted outcome, next)
  | .read entity span => (.records ((store.read entity span).map Records.seen), store)
  | .latest entity => (.found (store.latest? entity), store)

-- The keys that the deletion of an entity finds.
def gather (store : EventStore) (entity : String) : Except StoreError (List Bytes) := do
  let front ← (RecordKey.front entity).mapError .invalidKey
  return (store.storage.scan (KeyRange.startingWith front)).toEnd.1.map (·.1)

def change (store : EventStore) (batch : Batch) : EventStore :=
  { store with storage := store.storage.write batch }

-- What a request changes in the table.
def changes (store : EventStore) : Request → Batch
  | .write record =>
      match store.entry record with
      | .ok (key, value) => [.put key value]
      | .error _ => []
  | .delete entity timestamp =>
      match (RecordKey.mk entity timestamp.micros).encode with
      | .ok key => [.delete key]
      | .error _ => []
  | .deleteEntity entity =>
      match store.gather entity with
      | .ok keys => keys.map .delete
      | .error _ => []
  | .get _ _ | .read _ _ | .latest _ => []

variable {first second store : EventStore} {entity : String} {request : Request}

theorem deleteEntity_eq (store : EventStore) (entity : String) :
    store.deleteEntity entity =
      (store.gather entity).map fun keys => (keys.length, store.change (keys.map .delete)) := by
  cases hfront : RecordKey.front entity with
  | error reason => simp [deleteEntity, gather, hfront, Except.map]
  | ok front => simp [deleteEntity, gather, change, hfront, Except.map, Function.comp_def]

theorem write_eq (store : EventStore) (record : Record) :
    store.write record =
      (store.entry record).map fun entry => store.change [.put entry.1 entry.2] := by
  cases hentry : store.entry record with
  | error error => simp [write, hentry, Except.map]
  | ok entry =>
      simp only [write, hentry, ok_bind, pure_eq_ok, Except.map]
      rfl

theorem delete_eq (store : EventStore) (entity : String) (timestamp : Timestamp) :
    store.delete entity timestamp =
      ((RecordKey.mk entity timestamp.micros).encode.mapError .invalidKey).map fun key =>
        store.change [.delete key] := by
  cases hkey : (RecordKey.mk entity timestamp.micros).encode with
  | error reason => simp [delete, hkey, Except.map]
  | ok key =>
      simp only [delete, hkey, mapError_ok, ok_bind, pure_eq_ok, Except.map]
      rfl

theorem snd_serve (store : EventStore) (request : Request) :
    (store.serve request).2 = store.change (store.changes request) := by
  cases request with
  | write record =>
      rw [serve, changes, undergo_writing, write_eq]
      cases store.entry record <;> rfl
  | delete entity timestamp =>
      rw [serve, changes, undergo_deleting, delete_eq]
      cases (RecordKey.mk entity timestamp.micros).encode <;> rfl
  | deleteEntity entity =>
      rw [serve, changes, undergo_deletingEntity, deleteEntity_eq]
      cases store.gather entity <;> rfl
  | get entity timestamp => rfl
  | read entity span => rfl
  | latest entity => rfl

section Locality

-- Two stores that know the same and agree on some keys.
structure Agree (owned : Bytes → Prop) (first second : EventStore) : Prop where
  reader_eq : first.reader = second.reader
  options_eq : first.storage.options = second.storage.options
  cells_eq : ∀ key, owned key →
    first.storage.table.get? key = second.storage.table.get? key

theorem Agree.mono {owned owned' : Bytes → Prop} (h : Agree owned first second)
    (hle : ∀ key, owned' key → owned key) : Agree owned' first second :=
  ⟨h.reader_eq, h.options_eq, fun key hkey => h.cells_eq key (hle key hkey)⟩

theorem Agree.value?_eq {owned : Bytes → Prop} (h : Agree owned first second) {key : Bytes}
    (hkey : owned key) :
    first.storage.table.value? key = second.storage.table.value? key := by
  rw [Table.value?, Table.value?, h.cells_eq key hkey]

theorem Agree.gather_eq (h : Agree (Owns entity) first second) :
    first.gather entity = second.gather entity := by
  cases hfront : RecordKey.front entity with
  | error reason => simp [gather, hfront]
  | ok front =>
      obtain ⟨hentity, rfl⟩ := RecordKey.front_eq_ok.mp hfront
      let range := KeyRange.startingWith (RecordKey.frontBytes entity)
      have hscan : (first.storage.scan range).toEnd.1 = (second.storage.scan range).toEnd.1 := by
        rw [Storage.scan, Storage.scan, Storage.snapshot, Storage.snapshot, ← h.options_eq]
        exact Scan.toEnd_congr _ fun key hkey =>
          h.value?_eq ⟨hentity, KeyRange.contains_startingWith.mp hkey⟩
      simp only [gather, hfront, mapError_ok, ok_bind]
      exact congrArg (fun entries => Except.ok (entries.map (·.1))) hscan

theorem Agree.get?_eq (h : Agree (Owns entity) first second) (timestamp : Timestamp) :
    first.get? entity timestamp = second.get? entity timestamp := by
  cases hkey : (RecordKey.mk entity timestamp.micros).encode with
  | error reason => simp [EventStore.get?, StoreView.get?, hkey]
  | ok key =>
      obtain ⟨hentity, rfl⟩ := RecordKey.encode_eq_ok.mp hkey
      have hvalue := h.value?_eq (owns_keyBytes hentity)
      rw [get?_of_isEntity hentity, get?_of_isEntity hentity, hvalue, h.reader_eq]

-- The records of both stores go on side by side.
theorem Agree.read_cases (h : Agree (Owns entity) first second) (span : TimeSpan) :
    (∃ error, first.read entity span = .error error ∧ second.read entity span = .error error) ∨
    ∃ records records', first.read entity span = .ok records ∧
      second.read entity span = .ok records' ∧ records.Parallel records' ∧ records.Bounded ∧
      records'.Bounded := by
  cases hkeys : span.keys entity with
  | error reason =>
      refine .inl ⟨.invalidKey reason, ?_, ?_⟩ <;>
        simp [EventStore.read, StoreView.read, hkeys]
  | ok range =>
      obtain ⟨hentity, rfl⟩ := TimeSpan.keys_eq_ok.mp hkeys
      let range := span.keyRange (RecordKey.frontBytes entity)
      have hparallel : (Scan.start first.storage.snapshot range).Parallel
          (Scan.start second.storage.snapshot range) := by
        rw [Storage.snapshot, Storage.snapshot, ← h.options_eq]
        exact Scan.parallel_start fun key hkey =>
          h.value?_eq ⟨hentity, TimeSpan.prefix_of_mem_keyRange hkey⟩
      exact .inr ⟨Records.start (Scan.start first.storage.snapshot range) first.reader,
        Records.start (Scan.start second.storage.snapshot range) second.reader,
        StoreView.read_eq_ok.mpr ⟨range, hkeys, rfl⟩, StoreView.read_eq_ok.mpr ⟨range, hkeys, rfl⟩,
        ⟨hparallel, h.reader_eq, rfl, rfl⟩, Records.bounded_start _ _ _,
        Records.bounded_start _ _ _⟩

theorem Agree.seen_eq (h : Agree (Owns entity) first second) (span : TimeSpan) :
    (first.read entity span).map Records.seen = (second.read entity span).map Records.seen := by
  rcases h.read_cases span with ⟨error, hfirst, hsecond⟩ |
    ⟨records, records', hfirst, hsecond, hparallel, hbounded, hbounded'⟩
  · rw [hfirst, hsecond]
  · rw [hfirst, hsecond, Except.map, Except.map, hparallel.seen_eq hbounded hbounded']

theorem Agree.latest?_eq (h : Agree (Owns entity) first second) :
    first.latest? entity = second.latest? entity := by
  have hread := h.read_cases TimeSpan.always
  unfold EventStore.read at hread
  rw [latest?, latest?, StoreView.latest?, StoreView.latest?]
  rcases hread with ⟨error, hfirst, hsecond⟩ |
    ⟨records, records', hfirst, hsecond, hparallel, hbounded, hbounded'⟩
  · rw [hfirst, hsecond]
  · rw [hfirst, hsecond, ok_bind, ok_bind, hparallel.toEnd_eq hbounded hbounded']

theorem Agree.entry_eq {owned : Bytes → Prop} (h : Agree owned first second) (record : Record) :
    first.entry record = second.entry record := by
  rw [entry, entry, registry, registry, h.reader_eq]

theorem Agree.changes_eq (h : Agree (Owns request.entity) first second) :
    first.changes request = second.changes request := by
  cases request with
  | write record => rw [changes, changes, h.entry_eq]
  | deleteEntity entity =>
      have hgather : first.gather entity = second.gather entity := h.gather_eq
      rw [changes, changes, hgather]
  | delete entity timestamp => rfl
  | get entity timestamp => rfl
  | read entity span => rfl
  | latest entity => rfl

theorem Agree.reply_eq (h : Agree (Owns request.entity) first second) :
    (first.serve request).1 = (second.serve request).1 := by
  cases request with
  | write record =>
      rw [serve, serve, undergo_writing, undergo_writing, write_eq, write_eq, h.entry_eq]
      cases second.entry record <;> rfl
  | delete entity timestamp =>
      rw [serve, serve, undergo_deleting, undergo_deleting, delete_eq, delete_eq]
      cases (RecordKey.mk entity timestamp.micros).encode <;> rfl
  | deleteEntity entity =>
      have hgather : first.gather entity = second.gather entity := h.gather_eq
      rw [serve, serve, undergo_deletingEntity, undergo_deletingEntity, deleteEntity_eq,
        deleteEntity_eq, hgather]
      cases second.gather entity <;> rfl
  | get entity timestamp => exact congrArg Reply.found (h.get?_eq timestamp)
  | read entity span => exact congrArg Reply.records (h.seen_eq span)
  | latest entity => exact congrArg Reply.found h.latest?_eq

-- The same changes are the same for both.
theorem Agree.change {owned : Bytes → Prop} (h : Agree owned first second) (batch : Batch) :
    Agree owned (first.change batch) (second.change batch) := by
  refine ⟨h.reader_eq, h.options_eq, fun key hkey => ?_⟩
  have hfirst := Table.get?_applyAll first.storage.table batch key
  have hsecond := Table.get?_applyAll second.storage.table batch key
  rw [← h.cells_eq key hkey] at hsecond
  exact hfirst.trans hsecond.symm

end Locality

section Frame

-- A key that no change names keeps its cell.
theorem get?_change {batch : Batch} {key : Bytes} (h : ∀ change ∈ batch, change.key ≠ key) :
    (store.change batch).storage.table.get? key = store.storage.table.get? key := by
  refine (Table.get?_applyAll store.storage.table batch key).trans ?_
  rw [Batch.lastCell?_eq_none h, Option.none_or]

theorem owns_of_mem_gather {keys : List Bytes} (h : store.gather entity = .ok keys) :
    ∀ key ∈ keys, Owns entity key := by
  obtain ⟨front, hfront, hkeys⟩ := bind_eq_ok.mp h
  obtain ⟨hentity, rfl⟩ := RecordKey.front_eq_ok.mp (mapError_eq_ok.mp hfront)
  cases hkeys
  intro key hkey
  obtain ⟨entry, hentry, rfl⟩ := List.mem_map.mp hkey
  have hpending := Scan.mem_pending_of_mem_take hentry
  rw [Storage.scan, Scan.pending_start] at hpending
  exact ⟨hentity, KeyRange.contains_startingWith.mp (Table.mem_liveIn.mp hpending).2⟩

theorem owns_of_mem_changes {change : Mutation} (h : change ∈ store.changes request) :
    Owns request.entity change.key := by
  cases request with
  | write record =>
      rw [changes] at h
      cases hentry : store.entry record with
      | error error => simp [hentry] at h
      | ok entry =>
          have hstores := entry_eq_ok.mp hentry
          simp only [hentry, List.mem_singleton] at h
          subst h
          have hentity : RecordKey.IsEntity (RecordKey.of record).entity := hstores.isEntity
          rw [Mutation.key, hstores.key_eq]
          exact owns_keyBytes hentity
  | delete entity timestamp =>
      rw [changes] at h
      cases hkey : (RecordKey.mk entity timestamp.micros).encode with
      | error reason => simp [hkey] at h
      | ok key =>
          obtain ⟨hentity, rfl⟩ := RecordKey.encode_eq_ok.mp hkey
          simp only [hkey, List.mem_singleton] at h
          subst h
          exact owns_keyBytes hentity
  | deleteEntity entity =>
      rw [changes] at h
      cases hgather : store.gather entity with
      | error reason => simp [hgather] at h
      | ok keys =>
          simp only [hgather, List.mem_map] at h
          obtain ⟨key, hkey, rfl⟩ := h
          exact owns_of_mem_gather hgather key hkey
  | get entity timestamp => contradiction
  | read entity span => contradiction
  | latest entity => contradiction

end Frame

end EventStore

end Chronicle
