import Chronicle.Proofs.EventStore.Coherence
import Chronicle.Proofs.EventStore.Requests

-- The deletion of an entity: whatever the table holds, just the live keys that begin
-- with the front of the entity are deleted, and nothing else is to be seen of it.

namespace Chronicle

namespace EventStore

-- What the deletion of an entity does, and how many entries it deletes.
structure Deletes (store : EventStore) (entity : String) (count : Nat) (after : EventStore) :
    Prop where
  -- The live keys that begin with the front of the entity.
  count_eq : {key | Owns entity key ∧ store.storage.table.value? key ≠ none}.encard = count
  -- So many entries a read of the entity would come to that skips and lacks no upgrade.
  visited : ∀ reader : Reader, reader.registry.Built → reader.registry.IsComplete →
    reader.policy = .skip → ∃ records items skipped,
      (StoreView.mk store.storage.snapshot reader).read entity TimeSpan.always = .ok records ∧
      records.Yields items skipped ∧ (∀ item ∈ items, ∃ record, item = .ok record) ∧
      items.length + skipped = count
  get_eq : ∀ timestamp, after.get? entity timestamp = .ok none
  read_eq : ∀ span, ∃ records, after.read entity span = .ok records ∧ records.Yields [] 0
  -- What is answered of any other entity, valid or not.
  others : ∀ other, other ≠ entity →
    (∀ timestamp, after.get? other timestamp = store.get? other timestamp) ∧
    ∀ span, (after.read other span).map Records.seen = (store.read other span).map Records.seen
  -- Every other key keeps its cell.
  elsewhere : ∀ key, ¬ (Owns entity key ∧ store.storage.table.value? key ≠ none) →
    after.storage.table.get? key = store.storage.table.get? key
  stats_eq : store.stats.live = after.stats.live + count ∧
    after.stats.tombstones = store.stats.tombstones + count
  again : after.deleteEntity entity = .ok (0, after)

variable {store : EventStore} {entity : String}

-- The keys that are found are the live ones of the entity, each once.
theorem gather_of_isEntity (hroom : store.HasRoom) (hentity : RecordKey.IsEntity entity) :
    ∃ keys, store.gather entity = .ok keys ∧ keys.Nodup ∧
      (∀ key, key ∈ keys ↔ Owns entity key ∧ store.storage.table.value? key ≠ none) ∧
      keys = (store.storage.table.liveIn
        (KeyRange.startingWith (RecordKey.frontBytes entity))).map (·.1) := by
  let range := KeyRange.startingWith (RecordKey.frontBytes entity)
  have hscan : (store.storage.scan range).toEnd.1 = store.storage.table.liveIn range :=
    Scan.toEnd_start range hroom
  refine ⟨_, ?_, (store.storage.table.ascending_liveIn range).nodup_keys, fun key => ?_, rfl⟩
  · rw [gather, RecordKey.front_of_isEntity hentity, mapError_ok, ok_bind, hscan]
    rfl
  · rw [List.mem_map]
    constructor
    · rintro ⟨entry, hentry, rfl⟩
      obtain ⟨hlive, hcontains⟩ := Table.mem_liveIn.mp hentry
      refine ⟨⟨hentity, KeyRange.contains_startingWith.mp hcontains⟩, ?_⟩
      rw [Table.value?_eq_some_iff.mpr hlive]
      exact Option.some_ne_none _
    · rintro ⟨howns, hvalue⟩
      obtain ⟨value, hvalue⟩ := Option.ne_none_iff_exists'.mp hvalue
      exact ⟨(key, value), Table.mem_liveIn.mpr ⟨Table.value?_eq_some_iff.mp hvalue,
        KeyRange.contains_startingWith.mpr howns.2⟩, rfl⟩

-- The keys that are found make up the set of what is to be deleted.
theorem encard_live (hroom : store.HasRoom) (hentity : RecordKey.IsEntity entity)
    {keys : List Bytes} (hgather : store.gather entity = .ok keys) :
    {key | Owns entity key ∧ store.storage.table.value? key ≠ none}.encard = keys.length := by
  obtain ⟨found, hfound, hnodup, hmem, _⟩ := gather_of_isEntity hroom hentity
  cases hfound.symm.trans hgather
  have hset : {key | Owns entity key ∧ store.storage.table.value? key ≠ none} =
      (keys.toFinset : Set Bytes) := by
    ext key
    simpa using (hmem key).symm
  rw [hset, Set.encard_coe_eq_coe_finsetCard, List.toFinset_card_of_nodup hnodup]

-- A read of all the records comes to each key that is found.
theorem read_visits (hroom : store.HasRoom) (hentity : RecordKey.IsEntity entity)
    {keys : List Bytes} (hgather : store.gather entity = .ok keys) {reader : Reader}
    (hregistry : reader.registry.Built) (hcomplete : reader.registry.IsComplete)
    (hpolicy : reader.policy = .skip) :
    ∃ records items skipped,
      (StoreView.mk store.storage.snapshot reader).read entity TimeSpan.always = .ok records ∧
      records.Yields items skipped ∧ (∀ item ∈ items, ∃ record, item = .ok record) ∧
      items.length + skipped = keys.length := by
  obtain ⟨found, hfound, _, _, hkeys⟩ := gather_of_isEntity hroom hentity
  cases hfound.symm.trans hgather
  let range := KeyRange.startingWith (RecordKey.frontBytes entity)
  let entries := store.storage.table.liveIn range
  have hpasses : ∀ entry ∈ entries, reader.Passes entry := fun entry _ =>
    Reader.passes_of_isComplete hregistry.wellFormed hcomplete hpolicy entry
  refine ⟨_, reader.answers entries, entries.countP reader.stepsOver,
    StoreView.read_eq_ok.mpr ⟨range, TimeSpan.keys_of_isEntity TimeSpan.always hentity, rfl⟩,
    Records.yields_of_passes hroom hpasses, fun item hitem => ?_, ?_⟩
  · obtain ⟨entry, hentry, hkept, hitem⟩ := Reader.exists_of_mem_answers hitem
    obtain hover | ⟨record, hrecord⟩ := hpasses entry hentry
    · rw [hover] at hkept
      contradiction
    · exact ⟨record, hitem.symm.trans hrecord⟩
  · rw [Reader.length_answers_add hpasses, hkeys, List.length_map]

section Clear

-- No live key begins with the front of the entity.
def IsClear (store : EventStore) (entity : String) : Prop :=
  ∀ key, Owns entity key → store.storage.table.value? key = none

theorem IsClear.get?_eq (h : store.IsClear entity) (hentity : RecordKey.IsEntity entity)
    (timestamp : Timestamp) : store.get? entity timestamp = .ok none := by
  let key : RecordKey := ⟨entity, timestamp.micros⟩
  have howns : Owns key.entity key.keyBytes := owns_keyBytes hentity
  rw [get?_of_isEntity hentity, h key.keyBytes howns]

theorem IsClear.liveIn_eq (h : store.IsClear entity) (hentity : RecordKey.IsEntity entity)
    {range : KeyRange}
    (hrange : ∀ key, range.contains key = true → RecordKey.frontBytes entity <+: key) :
    store.storage.table.liveIn range = [] := by
  refine List.eq_nil_iff_forall_not_mem.mpr fun entry hentry => ?_
  obtain ⟨hlive, hcontains⟩ := Table.mem_liveIn.mp hentry
  have hnone : store.storage.table.value? entry.1 = none :=
    h entry.1 ⟨hentity, hrange entry.1 hcontains⟩
  exact Table.value?_eq_none_iff.mp hnone entry hlive rfl

theorem IsClear.read_yields (h : store.IsClear entity) (hentity : RecordKey.IsEntity entity)
    (span : TimeSpan) : ∃ records, store.read entity span = .ok records ∧ records.Yields [] 0 := by
  let range := span.keyRange (RecordKey.frontBytes entity)
  have hempty : store.storage.table.liveIn range = [] :=
    h.liveIn_eq hentity fun key hkey => TimeSpan.prefix_of_mem_keyRange hkey
  exact ⟨_, StoreView.read_eq_ok.mpr ⟨_, TimeSpan.keys_of_isEntity span hentity, rfl⟩,
    Records.yields_of_empty hempty⟩

theorem IsClear.deleteEntity_eq_ok (h : store.IsClear entity)
    (hentity : RecordKey.IsEntity entity) : store.deleteEntity entity = .ok (0, store) := by
  let range := KeyRange.startingWith (RecordKey.frontBytes entity)
  have hempty : (store.storage.scan range).toEnd.1 = [] := by
    refine List.eq_nil_iff_forall_not_mem.mpr fun entry hentry => ?_
    have hpending := Scan.mem_pending_of_mem_take hentry
    rw [Storage.scan, Scan.pending_start] at hpending
    have hnil := h.liveIn_eq hentity fun key hkey => KeyRange.contains_startingWith.mp hkey
    exact List.not_mem_nil (hnil ▸ hpending)
  have hgather : store.gather entity = .ok [] := by
    rw [gather, RecordKey.front_of_isEntity hentity, mapError_ok, ok_bind, hempty]
    rfl
  rw [deleteEntity_eq, hgather]
  rfl

end Clear

-- The keys that are found are the only ones that change.
theorem get?_change_deletes (store : EventStore) (keys : List Bytes) (key : Bytes) :
    (store.change (keys.map .delete)).storage.table.get? key =
      if key ∈ keys then some .tombstone else store.storage.table.get? key :=
  store.storage.table.get?_applyAll_deletes keys key

theorem isClear_change_gather (hroom : store.HasRoom) (hentity : RecordKey.IsEntity entity)
    {keys : List Bytes} (hgather : store.gather entity = .ok keys) :
    (store.change (keys.map .delete)).IsClear entity := by
  obtain ⟨found, hfound, _, hmem, _⟩ := gather_of_isEntity hroom hentity
  cases hfound.symm.trans hgather
  intro key howns
  rw [Table.value?, get?_change_deletes]
  by_cases hkey : key ∈ keys
  · rw [if_pos hkey]
    rfl
  · rw [if_neg hkey, ← Table.value?]
    by_contra hvalue
    exact hkey ((hmem key).mpr ⟨howns, hvalue⟩)

-- No key of another entity is found.
theorem agree_change_gather {keys : List Bytes} (hgather : store.gather entity = .ok keys)
    {other : String} (hother : other ≠ entity) :
    Agree (Owns other) (store.change (keys.map .delete)) store := by
  refine ⟨rfl, rfl, fun key howns => ?_⟩
  rw [get?_change_deletes, if_neg fun hkey => ?_]
  exact hother (howns.eq (owns_of_mem_gather hgather key hkey))

theorem deletes_change_gather (hroom : store.HasRoom) (hentity : RecordKey.IsEntity entity)
    {keys : List Bytes} (hgather : store.gather entity = .ok keys) :
    store.Deletes entity keys.length (store.change (keys.map .delete)) := by
  have hclear := isClear_change_gather hroom hentity hgather
  obtain ⟨found, hfound, hnodup, hmem, _⟩ := gather_of_isEntity hroom hentity
  cases hfound.symm.trans hgather
  exact {
    count_eq := encard_live hroom hentity hgather
    visited := fun reader hregistry hcomplete hpolicy =>
      read_visits hroom hentity hgather hregistry hcomplete hpolicy
    get_eq := hclear.get?_eq hentity
    read_eq := hclear.read_yields hentity
    others := fun other hother =>
      ⟨(agree_change_gather hgather hother).get?_eq, (agree_change_gather hgather hother).seen_eq⟩
    elsewhere := fun key hkey => by
      rw [get?_change_deletes, if_neg fun hfound => hkey ((hmem key).mp hfound)]
    stats_eq := store.storage.table.stats_applyAll_deletes hnodup fun key hkey =>
      ((hmem key).mp hkey).2
    again := hclear.deleteEntity_eq_ok hentity }

-- Why an entity has no keys.
def entityError (entity : String) : KeyError :=
  if entity = "" then .emptyEntity else .longEntity entity.utf8ByteSize

theorem deleteEntity_of_not_isEntity (store : EventStore) (h : ¬ RecordKey.IsEntity entity) :
    store.deleteEntity entity = .error (.invalidKey (entityError entity)) := by
  have hfront : RecordKey.front entity = .error (entityError entity) := by
    rw [RecordKey.front, entityError, Bytes.length_ofText]
    by_cases hempty : entity = ""
    · rw [if_pos hempty, if_pos (Bytes.ofText_eq_nil.mpr hempty)]
    · have hlong : RecordKey.maxEntity < entity.utf8ByteSize :=
        Nat.not_le.mp fun hle => h ⟨hempty, hle⟩
      rw [if_neg hempty, if_neg fun hnil => hempty (Bytes.ofText_eq_nil.mp hnil), if_pos hlong]
  rw [deleteEntity, hfront]
  rfl

-- An entity that can have keys is deleted. For any other there is an error, and the store
-- is as it was.
theorem deletes_deleteEntity (hroom : store.HasRoom) (entity : String) :
    (RecordKey.IsEntity entity → ∃ count after,
      store.deleteEntity entity = .ok (count, after) ∧ store.Deletes entity count after) ∧
    (¬ RecordKey.IsEntity entity →
      store.deleteEntity entity = .error (.invalidKey (entityError entity)) ∧
      store.serve (.deleteEntity entity) =
        (.deleted (.error (.invalidKey (entityError entity))), store)) := by
  refine ⟨fun hentity => ?_, fun hentity => ?_⟩
  · obtain ⟨keys, hgather, _⟩ := gather_of_isEntity hroom hentity
    refine ⟨_, _, ?_, deletes_change_gather hroom hentity hgather⟩
    rw [deleteEntity_eq, hgather]
    rfl
  · have hfailed := store.deleteEntity_of_not_isEntity hentity
    refine ⟨hfailed, ?_⟩
    rw [serve, undergo_deletingEntity, hfailed]
    rfl

-- A damaged value, a key that no record has and a tombstone stand under the front of the
-- entity, and the name of a neighbour begins with its own.
theorem deletes_deleteEntity_of_damaged :
    let storage := (Storage.mk "notes" .fresh .default).write [
      .put (RecordKey.mk "a" 3).keyBytes [7], .put (RecordKey.frontBytes "a" ++ [1]) [8],
      .put (RecordKey.mk "a" 5).keyBytes [9], .delete (RecordKey.mk "a" 5).keyBytes,
      .put (RecordKey.mk "ab" 3).keyBytes [7]]
    let store : EventStore := ⟨storage, ⟨∅, .preserve, .skip⟩⟩
    store.HasRoom ∧ store.stats = ⟨3, 1⟩ ∧ ∃ after, store.deleteEntity "a" = .ok (2, after) ∧
      store.Deletes "a" 2 after ∧ after.stats.live = 1 ∧ after.stats.tombstones = 3 ∧
      after.storage.table.value? (RecordKey.mk "ab" 3).keyBytes = some [7] ∧
      store.deleteEntity "" = .error (.invalidKey .emptyEntity) := by
  intro storage store
  have hroom : store.HasRoom := .inl (by decide)
  have hstats : store.stats = ⟨3, 1⟩ := by decide +kernel
  have hfound : (store.deleteEntity "a").toOption.map (·.1) = some 2 := by decide +kernel
  have hrefused : store.deleteEntity "" = .error (.invalidKey .emptyEntity) :=
    ((deletes_deleteEntity hroom "").2 (by decide)).1
  obtain ⟨count, after, hdeleted, hdeletes⟩ :=
    (deletes_deleteEntity hroom "a").1 (by decide)
  rw [hdeleted] at hfound
  cases hfound
  have howns : ¬ (Owns "a" (RecordKey.mk "ab" 3).keyBytes ∧
      store.storage.table.value? (RecordKey.mk "ab" 3).keyBytes ≠ none) := by
    rintro ⟨⟨_, hprefix⟩, _⟩
    revert hprefix
    decide
  have hneighbour : after.storage.table.value? (RecordKey.mk "ab" 3).keyBytes = some [7] := by
    rw [Table.value?, hdeletes.elsewhere _ howns]
    decide +kernel
  obtain ⟨hlive, htombstones⟩ := hdeletes.stats_eq
  rw [hstats] at hlive htombstones
  have hleft : after.stats.live = 1 := by simpa using hlive.symm
  exact ⟨hroom, hstats, after, hdeleted, hdeletes, hleft, htombstones, hneighbour, hrefused⟩

end EventStore

end Chronicle
