import Chronicle.Proofs.EventStore.Course
import Chronicle.Proofs.Ledger
import Chronicle.Proofs.Records

-- Whatever is done to a store, it answers what the records say that were written
-- and not deleted since.

namespace Chronicle

namespace EventStore

-- What an import takes from a document before it writes.
def intake (store : EventStore) (importer : Import.Importer) (document : String) :
    Except StoreError (Import.Batch × Import.Validation) := do
  match store.registry.latest? importer.config.kind with
  | none => throw (.record (.unknownKind importer.config.kind))
  | some schema =>
      let batch ← (importer.parse document).mapError .document
      let validation ← (importer.validate batch schema).mapError .document
      return (batch, validation)

theorem importDocument_eq (store : EventStore) (importer : Import.Importer) (document : String) :
    store.importDocument importer document =
      (store.intake importer document).map fun taken =>
        let written := store.writeAll taken.2.accepted
        (⟨importer.config.kind, written.1, taken.2.rejected, written.2.1, taken.1.notes⟩,
          written.2.2) := by
  cases hlatest : store.registry.latest? importer.config.kind with
  | none => simp [importDocument, intake, hlatest, Except.map]
  | some schema =>
      cases hbatch : importer.parse document with
      | error reason => simp [importDocument, intake, hlatest, hbatch, Except.map]
      | ok batch =>
          cases hvalidation : importer.validate batch schema with
          | error reason => simp [importDocument, intake, hlatest, hbatch, hvalidation, Except.map]
          | ok validation =>
              simp [importDocument, intake, hlatest, hbatch, hvalidation, Except.map, pure,
                Except.pure]

end EventStore

namespace Ledger

-- The records that a store takes, in turn.
def writeAll (ledger : Ledger) (store : EventStore) : List Record → Ledger
  | [] => ledger
  | record :: rest =>
      match store.write record with
      | .ok next => writeAll (ledger.put record) next rest
      | .error _ => writeAll ledger store rest

-- What becomes of the ledger when an operation has succeeded.
def follow (ledger : Ledger) (store : EventStore) : Operation → Ledger
  | .write record => ledger.put record
  | .delete entity timestamp => ledger.erase ⟨entity, timestamp.micros⟩
  | .deleteEntity entity => ledger.eraseEntity entity
  | .importDocument importer document =>
      match store.intake importer document with
      | .ok taken => ledger.writeAll store taken.2.accepted
      | .error _ => ledger
  | .compact => ledger
  | .reopen _ _ => ledger

def after (ledger : Ledger) (store : EventStore) (operation : Operation) : Ledger :=
  match (store.perform operation).1 with
  | .ok () => ledger.follow store operation
  | .error _ => ledger

end Ledger

namespace EventStore

-- A store and its ledger after operations in turn.
def run (store : EventStore) (ledger : Ledger) (operations : List Operation) :
    EventStore × Ledger :=
  operations.foldl (fun state operation =>
    (state.1.after operation, state.2.after state.1 operation)) (store, ledger)

-- The live entries of the store are those of the records in the ledger.
structure Represents (store : EventStore) (ledger : Ledger) : Prop where
  entries : (ledger.records.map store.entry).Perm (store.storage.table.liveEntries.map .ok)
  format_eq : store.storage.directory.format = Directory.currentFormat

-- The pages of the store are of a size that can be asked for, or its database has
-- no more rows than the greatest page. A database file ends long before that many
-- rows, so the tables of real stores always have room.
def HasRoom (store : EventStore) : Prop := store.storage.snapshot.HasRoom

variable {store : EventStore} {ledger : Ledger}

section Entries

theorem Represents.stores_of_mem (h : store.Represents ledger) {record : Record}
    (hmem : record ∈ ledger.records) :
    ∃ value, store.Stores record (RecordKey.of record).keyBytes value ∧
      ((RecordKey.of record).keyBytes, value) ∈ store.storage.table.liveEntries := by
  have hentry : store.entry record ∈ store.storage.table.liveEntries.map Except.ok :=
    h.entries.subset (List.mem_map_of_mem hmem)
  obtain ⟨⟨key, value⟩, hlive, hok⟩ := List.mem_map.mp hentry
  have hstores := entry_eq_ok.mp hok.symm
  obtain rfl := hstores.key_eq
  exact ⟨value, hstores, hlive⟩

theorem Represents.mem_of_live (h : store.Represents ledger) {entry : Bytes × Bytes}
    (hlive : entry ∈ store.storage.table.liveEntries) :
    ∃ record ∈ ledger.records, store.Stores record entry.1 entry.2 := by
  have hmem : Except.ok entry ∈ ledger.records.map store.entry :=
    h.entries.symm.subset (List.mem_map_of_mem hlive)
  obtain ⟨record, hrecord, hok⟩ := List.mem_map.mp hmem
  exact ⟨record, hrecord, entry_eq_ok.mp hok⟩

-- Keeping the same keys on both sides.
theorem Represents.filter_perm (h : store.Represents ledger) (keep : RecordKey → Bool)
    (within : Bytes → Bool)
    (hkeep : ∀ key : RecordKey, RecordKey.IsEntity key.entity → keep key = within key.keyBytes) :
    ((ledger.filter keep).records.map store.entry).Perm
      ((store.storage.table.liveEntries.filter fun entry => within entry.1).map .ok) := by
  apply perm_filter_of_map h.entries
  intro record _ entry hentry
  have hstores := entry_eq_ok.mp hentry
  rw [hstores.key_eq]
  exact hkeep (RecordKey.of record) hstores.isEntity

theorem Represents.erase_perm (h : store.Represents ledger) {key : RecordKey} {bytes : Bytes}
    (hentity : RecordKey.IsEntity key.entity) (hbytes : bytes = key.keyBytes) :
    ((ledger.erase key).records.map store.entry).Perm
      ((store.storage.table.liveEntries.filter fun entry => entry.1 ≠ bytes).map .ok) := by
  refine h.filter_perm (fun other => other ≠ key) (fun other => other ≠ bytes)
    fun other hother => ?_
  rw [Bool.eq_iff_iff, decide_eq_true_eq, decide_eq_true_eq, hbytes]
  exact not_congr ⟨fun he => by rw [he], RecordKey.keyBytes_injective hother hentity⟩

end Entries

section Steps

theorem Represents.write (h : store.Represents ledger) {record : Record} {next : EventStore}
    (hnext : store.write record = .ok next) : next.Represents (ledger.put record) := by
  obtain ⟨⟨key, value⟩, hentry, hnext⟩ := bind_eq_ok.mp hnext
  cases hnext
  have hstores := entry_eq_ok.mp hentry
  have hkept : ((ledger.erase (RecordKey.of record)).records.map store.entry).Perm
      ((store.storage.table.liveEntries.filter fun entry => entry.1 ≠ key).map .ok) :=
    h.erase_perm hstores.isEntity hstores.key_eq
  have hput := ((store.storage.table.liveEntries_put_perm key value).map
    (Except.ok : _ → Except StoreError (Bytes × Bytes))).symm
  rw [List.map_cons, ← hentry] at hput
  exact ⟨(hkept.cons (store.entry record)).trans hput, h.format_eq⟩

theorem Represents.delete (h : store.Represents ledger) {entity : String} {timestamp : Timestamp}
    {next : EventStore} (hnext : store.delete entity timestamp = .ok next) :
    next.Represents (ledger.erase ⟨entity, timestamp.micros⟩) := by
  obtain ⟨key, hkey, hnext⟩ := bind_eq_ok.mp hnext
  cases hnext
  obtain ⟨hentity, hbytes⟩ := RecordKey.encode_eq_ok.mp (mapError_eq_ok.mp hkey)
  have hdelete := ((store.storage.table.liveEntries_delete_perm key).map
    (Except.ok : _ → Except StoreError (Bytes × Bytes))).symm
  exact ⟨(h.erase_perm hentity hbytes).trans hdelete, h.format_eq⟩

-- The entries that are deleted are those under the front of the entity, which
-- are all that a scan comes to.
theorem Represents.deleteEntity (h : store.Represents ledger) (hroom : store.HasRoom)
    {entity : String} {count : Nat} {next : EventStore}
    (hnext : store.deleteEntity entity = .ok (count, next)) :
    next.Represents (ledger.eraseEntity entity) := by
  obtain ⟨front, hfront, hnext⟩ := bind_eq_ok.mp hnext
  cases hnext
  obtain ⟨hentity, rfl⟩ := RecordKey.front_eq_ok.mp (mapError_eq_ok.mp hfront)
  let range := KeyRange.startingWith (RecordKey.frontBytes entity)
  let table := store.storage.table
  have hscan : (store.storage.scan range).toEnd.1 = table.liveIn range :=
    Scan.toEnd_start range hroom
  have hkept : ((ledger.eraseEntity entity).records.map store.entry).Perm
      ((table.liveEntries.filter fun entry => !range.contains entry.1).map .ok) := by
    refine h.filter_perm (fun key => key.entity ≠ entity) (fun bytes => !range.contains bytes)
      fun key hkey => ?_
    rw [Bool.eq_iff_iff, decide_eq_true_eq, Bool.not_eq_true', Bool.eq_false_iff]
    exact not_congr (KeyRange.contains_startingWith.trans
      (RecordKey.frontBytes_prefix_iff hentity hkey)).symm
  have hdeleted := table.liveEntries_applyAll_delete_perm ((table.liveIn range).map (·.1))
  have hsame : (table.liveEntries.filter fun entry => entry.1 ∉ (table.liveIn range).map (·.1)) =
      table.liveEntries.filter fun entry => !range.contains entry.1 := by
    apply List.filter_congr
    intro entry hentry
    rw [Bool.eq_iff_iff, decide_eq_true_eq, Bool.not_eq_true', Bool.eq_false_iff]
    refine not_congr ⟨fun hmem => ?_, fun hcontains => ?_⟩
    · obtain ⟨other, hother, hkey⟩ := List.mem_map.mp hmem
      rw [← hkey]
      exact (Table.mem_liveIn.mp hother).2
    · exact List.mem_map_of_mem (Table.mem_liveIn.mpr ⟨hentry, hcontains⟩)
  rw [hsame] at hdeleted
  refine ⟨hkept.trans ?_, h.format_eq⟩
  have hbatch : ((store.storage.scan range).toEnd.1.map fun entry => Mutation.delete entry.1) =
      ((table.liveIn range).map (·.1)).map Mutation.delete := by
    rw [hscan, List.map_map]
    rfl
  have htable : (store.storage.write ((store.storage.scan range).toEnd.1.map
      fun entry => Mutation.delete entry.1)).table =
      table.applyAll (((table.liveIn range).map (·.1)).map Mutation.delete) := by
    rw [hbatch]
    rfl
  have hlive := (hdeleted.map (Except.ok : _ → Except StoreError (Bytes × Bytes))).symm
  rw [← htable] at hlive
  exact hlive

theorem Represents.compact (h : store.Represents ledger) :
    store.compact.2.Represents ledger := by
  refine ⟨?_, h.format_eq⟩
  have hcompact : store.compact.2.storage.table.liveEntries = store.storage.table.liveEntries :=
    Table.liveEntries_compact _
  rw [hcompact]
  exact h.entries

theorem Represents.reopen (h : store.Represents ledger) {path : String}
    {options : StorageOptions} {next : EventStore} (hnext : store.reopen path options = .ok next) :
    next.Represents ledger := by
  obtain ⟨hformat, rfl⟩ := reopen_eq_ok.mp hnext
  exact ⟨h.entries, hformat⟩

theorem Represents.writeAll (h : store.Represents ledger) (records : List Record) :
    (store.writeAll records).2.2.Represents (ledger.writeAll store records) := by
  induction records generalizing store ledger with
  | nil => exact h
  | cons record rest ih =>
      rw [EventStore.writeAll, Ledger.writeAll]
      cases hwrite : store.write record with
      | ok next => exact ih (h.write hwrite)
      | error error => exact ih h

theorem write_keeps {record : Record} {next : EventStore} (h : store.write record = .ok next) :
    next.reader = store.reader ∧ next.storage.options = store.storage.options := by
  obtain ⟨entry, _, h⟩ := bind_eq_ok.mp h
  cases h
  exact ⟨rfl, rfl⟩

theorem writeAll_keeps (store : EventStore) (records : List Record) :
    (store.writeAll records).2.2.reader = store.reader ∧
      (store.writeAll records).2.2.storage.options = store.storage.options := by
  induction records generalizing store with
  | nil => exact ⟨rfl, rfl⟩
  | cons record rest ih =>
      rw [writeAll]
      cases hwrite : store.write record with
      | ok next =>
          obtain ⟨hreader, hoptions⟩ := write_keeps hwrite
          exact ⟨(ih next).1.trans hreader, (ih next).2.trans hoptions⟩
      | error error => exact ih store

-- Only a new opening changes the options, and nothing changes what the store
-- knows when it reads.
theorem outcome_keeps {operation : Operation} {next : EventStore}
    (h : store.outcome operation = .ok next) :
    next.reader = store.reader ∧ (next.storage.options = store.storage.options ∨
      ∃ path, operation = .reopen path next.storage.options) := by
  cases operation with
  | write record =>
      obtain ⟨hreader, hoptions⟩ := write_keeps h
      exact ⟨hreader, .inl hoptions⟩
  | delete entity timestamp =>
      obtain ⟨key, _, h⟩ := bind_eq_ok.mp h
      cases h
      exact ⟨rfl, .inl rfl⟩
  | deleteEntity entity =>
      obtain ⟨⟨count, next'⟩, hdelete, rfl⟩ := map_eq_ok.mp h
      obtain ⟨front, _, hdelete⟩ := bind_eq_ok.mp hdelete
      cases hdelete
      exact ⟨rfl, .inl rfl⟩
  | importDocument importer document =>
      obtain ⟨⟨report, next'⟩, himport, rfl⟩ := map_eq_ok.mp h
      rw [importDocument_eq] at himport
      obtain ⟨taken, _, htotal⟩ := map_eq_ok.mp himport
      cases htotal
      obtain ⟨hreader, hoptions⟩ := writeAll_keeps store taken.2.accepted
      exact ⟨hreader, .inl hoptions⟩
  | compact =>
      cases h
      exact ⟨rfl, .inl rfl⟩
  | reopen path options =>
      obtain ⟨_, rfl⟩ := reopen_eq_ok.mp h
      exact ⟨rfl, .inr ⟨path, rfl⟩⟩

theorem after_keeps (store : EventStore) (operation : Operation) :
    (store.after operation).reader = store.reader ∧
      ((store.after operation).storage.options = store.storage.options ∨
        ∃ path, operation = .reopen path (store.after operation).storage.options) := by
  rcases store.perform_cases operation with
    ⟨next, hnext, hperform⟩ | ⟨error, _, hperform | ⟨_, hperform⟩⟩
  · rw [after, hperform]
    exact outcome_keeps hnext
  · rw [after, hperform]
    exact ⟨rfl, .inl rfl⟩
  · rw [after, hperform]
    exact ⟨rfl, .inl rfl⟩

theorem Represents.follow (h : store.Represents ledger) (hroom : store.HasRoom)
    {operation : Operation} {next : EventStore} (hnext : store.outcome operation = .ok next) :
    next.Represents (ledger.follow store operation) := by
  cases operation with
  | write record => exact h.write hnext
  | delete entity timestamp => exact h.delete hnext
  | deleteEntity entity =>
      obtain ⟨⟨count, next'⟩, hdelete, rfl⟩ := map_eq_ok.mp hnext
      exact h.deleteEntity hroom hdelete
  | importDocument importer document =>
      obtain ⟨⟨report, next'⟩, himport, rfl⟩ := map_eq_ok.mp hnext
      rw [importDocument_eq] at himport
      obtain ⟨taken, htaken, htotal⟩ := map_eq_ok.mp himport
      cases htotal
      rw [Ledger.follow, htaken]
      exact h.writeAll taken.2.accepted
  | compact =>
      cases hnext
      exact h.compact
  | reopen path options => exact h.reopen hnext

-- A store of the current format can be opened again, so whatever fails leaves it as it was.
theorem Represents.perform_cases (h : store.Represents ledger) (operation : Operation) :
    (∃ next, store.outcome operation = .ok next ∧ store.perform operation = (.ok (), next)) ∨
    ∃ error, store.perform operation = (.error error, store) := by
  rcases store.perform_cases operation with
    hdone | ⟨error, _, hperform | ⟨hformat, _⟩⟩
  · exact .inl hdone
  · exact .inr ⟨error, hperform⟩
  · exact absurd h.format_eq hformat

theorem Represents.after (h : store.Represents ledger) (hroom : store.HasRoom)
    (operation : Operation) :
    (store.after operation).Represents (ledger.after store operation) := by
  unfold EventStore.after Ledger.after
  rcases h.perform_cases operation with ⟨next, hnext, hperform⟩ | ⟨error, hperform⟩
  · rw [hperform]
    exact h.follow hroom hnext
  · rw [hperform]
    exact h

theorem Represents.run (h : store.Represents ledger) (operations : List Operation)
    (hroom : ∀ before, before <+: operations → (store.run ledger before).1.HasRoom) :
    (store.run ledger operations).1.Represents (store.run ledger operations).2 := by
  induction operations generalizing store ledger with
  | nil => exact h
  | cons operation rest ih =>
      have hstart : store.HasRoom := hroom [] List.nil_prefix
      exact ih (h.after hstart operation) fun before hbefore =>
        hroom (operation :: before) (List.cons_prefix_cons.mpr ⟨rfl, hbefore⟩)

theorem reader_run (store : EventStore) (ledger : Ledger) (operations : List Operation) :
    (store.run ledger operations).1.reader = store.reader := by
  induction operations generalizing store ledger with
  | nil => rfl
  | cons operation rest ih =>
      exact (ih (store.after operation) (ledger.after store operation)).trans
        (store.after_keeps operation).1

-- There is room where no opening asks for greater pages than there can be.
theorem hasRoom_run {operations : List Operation}
    (hstart : store.storage.options.pageSize ≤ Snapshot.maxPage)
    (hoptions : ∀ path options, .reopen path options ∈ operations →
      options.pageSize ≤ Snapshot.maxPage) :
    (store.run ledger operations).1.HasRoom := by
  induction operations generalizing store ledger with
  | nil =>
      refine .inl (Nat.max_le.mpr ⟨hstart, ?_⟩)
      decide
  | cons operation rest ih =>
      refine @ih (store.after operation) (ledger.after store operation) ?_ ?_
      · rcases (store.after_keeps operation).2 with hsame | ⟨path, hreopen⟩
        · rw [hsame]
          exact hstart
        · exact hoptions path _ (by rw [← hreopen]; exact List.mem_cons_self)
      · exact fun path options hmem => hoptions path options (List.mem_cons_of_mem _ hmem)

theorem represents_open {config : StoreConfig} {registry : Registry}
    (h : openIn Directory.fresh config registry = .ok store) :
    store.Represents Ledger.empty ∧
      store.reader = ⟨registry, config.unknownFields, config.decode⟩ := by
  obtain ⟨storage, hstorage, h⟩ := bind_eq_ok.mp h
  cases h
  cases mapError_eq_ok.mp hstorage
  exact ⟨⟨List.Perm.refl _, rfl⟩, rfl⟩

end Steps

section Answers

theorem Represents.get? (h : store.Represents ledger) {entity : String}
    (hentity : RecordKey.IsEntity entity) (timestamp : Timestamp) :
    store.get? entity timestamp =
      match ledger.get? ⟨entity, timestamp.micros⟩ with
      | none => .ok none
      | some record => (store.reader.answer record).map some := by
  rw [get?_of_isEntity hentity]
  cases hfound : ledger.get? ⟨entity, timestamp.micros⟩ with
  | none =>
      have hnone : store.storage.table.value? (RecordKey.mk entity timestamp.micros).keyBytes =
          none := by
        refine Table.value?_eq_none_iff.mpr fun entry hlive he => ?_
        obtain ⟨record, hrecord, hstores⟩ := h.mem_of_live hlive
        rw [hstores.key_eq] at he
        exact Ledger.get?_eq_none_iff.mp hfound record hrecord
          (RecordKey.keyBytes_injective hstores.isEntity hentity he)
      rw [hnone]
  | some record =>
      obtain ⟨hrecord, hof⟩ := Ledger.get?_eq_some_iff.mp hfound
      obtain ⟨value, hstores, hlive⟩ := h.stores_of_mem hrecord
      rw [hof] at hstores hlive
      rw [Table.value?_eq_some_iff.mpr hlive]
      dsimp only
      rw [hstores.decode]

-- The entries that a read of a span comes to, in the order of their keys.
theorem Represents.map_within (h : store.Represents ledger) {entity : String}
    (hentity : RecordKey.IsEntity entity) (span : TimeSpan) :
    (ledger.within entity span).map store.entry =
      (store.storage.table.liveIn (span.keyRange (RecordKey.frontBytes entity))).map .ok := by
  let range := span.keyRange (RecordKey.frontBytes entity)
  have hkeys : span.keys entity = .ok range := TimeSpan.keys_of_isEntity span hentity
  let before : Except StoreError (Bytes × Bytes) → Except StoreError (Bytes × Bytes) → Prop :=
    fun first second => ∃ entry other, first = .ok entry ∧ second = .ok other ∧ entry.1 < other.1
  have hperm : ((ledger.within entity span).map store.entry).Perm
      ((store.storage.table.liveIn range).map .ok) := by
    apply ((List.mergeSort_perm _ _).map store.entry).trans
    refine h.filter_perm
      (fun key => key.entity = entity ∧ span.contains key.micros) range.contains fun key hkey => ?_
    rw [Bool.eq_iff_iff, decide_eq_true_eq]
    exact (TimeSpan.contains_keys_iff hkeys hkey).symm
  have hledger : ((ledger.within entity span).map store.entry).Pairwise before := by
    refine List.pairwise_map.mpr ((ledger.pairwise_within entity span).imp_of_mem ?_)
    intro first second hfirst hsecond hlt
    obtain ⟨hmem, hentity, _⟩ := Ledger.mem_within.mp hfirst
    obtain ⟨hmem', hentity', _⟩ := Ledger.mem_within.mp hsecond
    obtain ⟨value, hstores, _⟩ := h.stores_of_mem hmem
    obtain ⟨value', hstores', _⟩ := h.stores_of_mem hmem'
    refine ⟨_, _, entry_eq_ok.mpr hstores, entry_eq_ok.mpr hstores', ?_⟩
    rw [RecordKey.keyBytes, RecordKey.keyBytes, RecordKey.of, RecordKey.of, hentity, hentity']
    exact TimeSpan.append_lt_append_iff.mpr hlt
  have htable : ((store.storage.table.liveIn range).map Except.ok).Pairwise before :=
    List.pairwise_map.mpr ((Table.ascending_liveIn _ range).imp fun hlt => ⟨_, _, rfl, rfl, hlt⟩)
  refine hperm.eq_of_pairwise ?_ hledger htable
  rintro _ _ _ _ ⟨entry, other, rfl, rfl, hlt⟩ ⟨entry', other', he, he', hgt⟩
  cases he
  cases he'
  exact absurd (Std.lt_trans hlt hgt) Std.lt_irrefl

-- Entries of the ledger are answered, if only with the lack of an upgrade.
theorem Represents.answers (h : store.Represents ledger)
    (hregistry : store.registry.WellFormed) {entry : Bytes × Bytes}
    (hlive : entry ∈ store.storage.table.liveEntries) :
    store.reader.stepsOver entry = false := by
  obtain ⟨record, _, hstores⟩ := h.mem_of_live hlive
  obtain ⟨schema, hschema, _⟩ := hstores.checked
  rw [Reader.stepsOver, hstores.decode]
  cases hanswer : store.reader.answer record with
  | ok answered => rfl
  | error error =>
      obtain ⟨version, rfl⟩ := Reader.answer_eq_error hregistry hschema hanswer
      exact Bool.and_false _

theorem Represents.read (h : store.Represents ledger) (hregistry : store.registry.WellFormed)
    (hroom : store.HasRoom) {entity : String} (hentity : RecordKey.IsEntity entity)
    (span : TimeSpan) :
    ∃ records, store.read entity span = .ok records ∧ ∀ count,
      (records.take count).1 =
        (untilError ((ledger.within entity span).map store.reader.answer)).take count ∧
      (records.take count).2.skipped = 0 := by
  let range := span.keyRange (RecordKey.frontBytes entity)
  let records := Records.start (Scan.start store.storage.snapshot range) store.reader
  have hread : store.read entity span = .ok records := by
    rw [EventStore.read, StoreView.read, TimeSpan.keys_of_isEntity span hentity]
    rfl
  have hsound : records.scan.Sound := Scan.sound_start range hroom
  have hpending : records.scan.pending = store.storage.table.liveIn range :=
    Scan.pending_start store.storage.snapshot range
  have hall : ∀ entry ∈ records.scan.pending, store.reader.stepsOver entry = false := by
    intro entry hmem
    rw [hpending] at hmem
    exact h.answers hregistry (Table.mem_liveIn.mp hmem).1
  have hdecoded : (store.storage.table.liveIn range).map
      (fun entry => store.reader.decode entry.1 entry.2) =
      (ledger.within entity span).map store.reader.answer := by
    have hmapped := congrArg (List.map fun found => found >>= fun entry : Bytes × Bytes =>
      store.reader.decode entry.1 entry.2) (h.map_within hentity span)
    rw [List.map_map, List.map_map] at hmapped
    refine Eq.trans hmapped.symm (List.map_congr_left fun record hrecord => ?_)
    obtain ⟨value, hstores, _⟩ := h.stores_of_mem (Ledger.mem_within.mp hrecord).1
    rw [Function.comp_apply, entry_eq_ok.mpr hstores, ok_bind, hstores.decode]
  refine ⟨records, hread, fun count => ⟨?_, Records.skipped_take hsound hall count⟩⟩
  have hanswers : records.answers = store.reader.answers records.scan.pending := rfl
  rw [Records.fst_take hsound, hanswers, Reader.answers_of_all hall, hpending, hdecoded]

theorem Represents.live_stats_eq (h : store.Represents ledger) :
    store.stats.live = ledger.records.length := by
  have hlength := h.entries.length_eq
  rw [List.length_map, List.length_map] at hlength
  rw [hlength]
  exact Table.live_stats store.storage.table

end Answers

-- The store answers as the ledger says, seen by a reader.
structure Mirrors (store : EventStore) (reader : Reader) (ledger : Ledger) : Prop where
  get?_eq : ∀ entity timestamp, RecordKey.IsEntity entity →
    store.get? entity timestamp =
      match ledger.get? ⟨entity, timestamp.micros⟩ with
      | none => .ok none
      | some record => (reader.answer record).map some
  -- The records within a span are answered in the order of time up to the first
  -- error, and none is stepped over.
  read_eq : ∀ entity span, RecordKey.IsEntity entity →
    ∃ (expected : List Record) (records : Records),
    (expected.Pairwise fun first second => first.timestamp.micros < second.timestamp.micros) ∧
    (∀ record, record ∈ expected ↔ ledger.get? (RecordKey.of record) = some record ∧
      record.entity = entity ∧ span.contains record.timestamp.micros = true) ∧
    store.read entity span = .ok records ∧
    ∀ count, (records.take count).1 = (untilError (expected.map reader.answer)).take count ∧
      (records.take count).2.skipped = 0
  error_eq : ∀ key record error, ledger.get? key = some record →
    reader.answer record = .error error →
    ∃ version, error = .record (.missingUpgrade record.kind version)
  live_eq : store.stats.live = ledger.records.length
  failure : ∀ operation error, (store.perform operation).1 = .error error →
    store.after operation = store ∧ ledger.after store operation = ledger

theorem Represents.mirrors {store : EventStore} {ledger : Ledger} (h : store.Represents ledger)
    (hregistry : store.registry.WellFormed) (hroom : store.HasRoom) :
    store.Mirrors store.reader ledger := by
  refine ⟨fun entity timestamp hentity => h.get? hentity timestamp, ?_, ?_, h.live_stats_eq, ?_⟩
  · intro entity span hentity
    obtain ⟨records, hread, htake⟩ := h.read hregistry hroom hentity span
    refine ⟨ledger.within entity span, records, ledger.pairwise_within entity span, ?_, hread,
      htake⟩
    intro record
    rw [Ledger.mem_within, Ledger.get?_eq_some_iff]
    exact and_congr_left fun _ => ⟨fun hmem => ⟨hmem, rfl⟩, fun hmem => hmem.1⟩
  · intro key record error hfound herror
    obtain ⟨hmem, _⟩ := Ledger.get?_eq_some_iff.mp hfound
    obtain ⟨value, hstores, _⟩ := h.stores_of_mem hmem
    obtain ⟨schema, hschema, _⟩ := hstores.checked
    exact Reader.answer_eq_error hregistry hschema herror
  · intro operation error herror
    rcases h.perform_cases operation with ⟨next, _, hperform⟩ | ⟨other, hperform⟩
    · rw [hperform] at herror
      contradiction
    · simp [EventStore.after, Ledger.after, hperform]

-- After any run from an empty directory the store answers what was written and
-- not deleted since.
theorem mirrors_run {registry : Registry} (hregistry : registry.Built) {config : StoreConfig}
    {opened : EventStore} (hopen : openIn Directory.fresh config registry = .ok opened)
    (operations : List Operation)
    (hroom : ∀ before, before <+: operations → (opened.run Ledger.empty before).1.HasRoom) :
    (opened.run Ledger.empty operations).1.Mirrors ⟨registry, config.unknownFields, config.decode⟩
      (opened.run Ledger.empty operations).2 := by
  obtain ⟨hstart, hreader⟩ := represents_open hopen
  have hend := hstart.run operations hroom
  have hsame := opened.reader_run Ledger.empty operations
  have hknown : (opened.run Ledger.empty operations).1.registry.WellFormed := by
    rw [EventStore.registry, hsame, hreader]
    exact hregistry.wellFormed
  have hmirrors := hend.mirrors hknown (hroom operations (List.prefix_refl _))
  rwa [hsame, hreader] at hmirrors

-- A record is written, the store is compacted and opened again with pages of one
-- entry, and a deletion fails.
theorem mirrors_short_run :
    ∃ registry opened, Registry.register ∅ ⟨"note", 1, []⟩ = .ok registry ∧
      openIn Directory.fresh ⟨"notes", .skip, .drop, .default⟩ registry = .ok opened ∧
      let operations : List Operation :=
        [.write ⟨"note", "e", ⟨5, none⟩, 1, ∅⟩, .compact, .reopen "notes" ⟨0, 1, 0⟩,
          .delete "" ⟨5, none⟩]
      (opened.run Ledger.empty operations).2.records.length = 1 ∧
      (opened.run Ledger.empty operations).1.Mirrors ⟨registry, .drop, .skip⟩
        (opened.run Ledger.empty operations).2 := by
  have hbuilt : Registry.Built _ :=
    .register .empty (rfl : Registry.register ∅ ⟨"note", 1, []⟩ = .ok _)
  refine ⟨_, _, rfl, rfl, by decide +kernel, ?_⟩
  refine mirrors_run hbuilt rfl _ fun before hbefore => hasRoom_run ?_ ?_
  · decide
  · intro path options hmem
    have hmem := hbefore.subset hmem
    simp at hmem
    obtain ⟨_, rfl⟩ := hmem
    decide

end EventStore

end Chronicle
