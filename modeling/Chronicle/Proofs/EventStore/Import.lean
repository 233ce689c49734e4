import Chronicle.Proofs.EventStore.Run
import Chronicle.Proofs.Import.Validation

-- Imports: whatever a document holds, each of its entries is stored, rejected or
-- too large to be stored.

namespace Chronicle

-- The failure to write a record that is too large.
def WriteFailure.ofTooLarge? (record : Record) : Option WriteFailure :=
  let length := (Codec.ofRecord record).encode.length
  if Frame.maxBody < length then
    some ⟨record.entity, record.timestamp, .record (.tooLarge length Frame.maxBody)⟩
  else none

namespace EventStore

-- The failure to write a record, if it fails.
def failure? (store : EventStore) (record : Record) : Option WriteFailure :=
  match store.entry record with
  | .ok _ => none
  | .error error => some ⟨record.entity, record.timestamp, error⟩

variable {store next : EventStore} {record : Record} {records : List Record}

section Entries

variable {schema : Schema}

-- Of what conforms to a known schema only the size can stand in the way.
theorem entry_of_conforms
    (hschema : store.registry.schema? record.kind record.version = some schema)
    (h : Import.Conforms schema record) :
    store.entry record = ((Codec.encode record).mapError .record).map fun value =>
      ((RecordKey.of record).keyBytes, value) := by
  have hkey : (RecordKey.of record).encode = .ok (RecordKey.of record).keyBytes :=
    RecordKey.encode_of_isEntity h.isEntity
  rw [entry, Registry.resolve_eq_ok.mpr hschema, mapError_ok, ok_bind, h.check_eq, mapError_ok,
    ok_bind, hkey, mapError_ok, ok_bind]
  exact bind_ok_eq_map _ _

theorem failure_of_conforms
    (hschema : store.registry.schema? record.kind record.version = some schema)
    (h : Import.Conforms schema record) :
    store.failure? record = WriteFailure.ofTooLarge? record := by
  rw [failure?, entry_of_conforms hschema h, WriteFailure.ofTooLarge?]
  by_cases hlarge : Frame.maxBody < (Codec.ofRecord record).encode.length
  · rw [Codec.encode_of_too_large hlarge]
    simp [hlarge, Except.map]
  · rw [Codec.encode_of_fits (Nat.not_lt.mp hlarge)]
    simp [hlarge, Except.map]

end Entries

section WriteAll

-- What can be written does not depend on what is stored.
@[simp] theorem entry_withStorage (store : EventStore) (storage : Storage) :
    EventStore.entry { store with storage := storage } = store.entry := rfl

@[simp] theorem failure_withStorage (store : EventStore) (storage : Storage) :
    EventStore.failure? { store with storage := storage } = store.failure? := rfl

theorem write_of_entry {key value : Bytes} (h : store.entry record = .ok (key, value)) :
    store.write record = .ok { store with storage := store.storage.put key value } := by
  rw [write, h]
  rfl

theorem write_of_entry_error {error : StoreError} (h : store.entry record = .error error) :
    store.write record = .error error := by
  rw [write, h]
  rfl

-- Each record is counted or its failure is kept.
theorem report_writeAll (store : EventStore) (records : List Record) :
    (store.writeAll records).1 = records.countP (fun record => (store.failure? record).isNone) ∧
      (store.writeAll records).2.1 = records.filterMap store.failure? := by
  induction records generalizing store with
  | nil => exact ⟨rfl, rfl⟩
  | cons record rest ih =>
      rw [writeAll, List.countP_cons, List.filterMap_cons]
      cases hentry : store.entry record with
      | ok entry =>
          obtain ⟨hcount, hfailed⟩ := ih { store with storage := store.storage.put entry.1 entry.2 }
          rw [failure_withStorage] at hcount hfailed
          rw [write_of_entry hentry]
          simp [hcount, hfailed, failure?, hentry]
      | error error =>
          obtain ⟨hcount, hfailed⟩ := ih store
          rw [write_of_entry_error hentry]
          simp [hcount, hfailed, failure?, hentry]

theorem accepted_add_failed (store : EventStore) (records : List Record) :
    (store.writeAll records).1 + (store.writeAll records).2.1.length = records.length := by
  obtain ⟨hcount, hfailed⟩ := store.report_writeAll records
  have hsplit := List.length_eq_countP_add_countP (fun record => (store.failure? record).isNone)
    (l := records)
  have hsome : records.countP (fun record => (store.failure? record).isSome) =
      records.countP (fun record => ¬ (store.failure? record).isNone = true) := by
    apply List.countP_congr
    intro record _
    cases store.failure? record <;> simp
  rw [hcount, hfailed, List.length_filterMap_eq_countP, hsome, hsplit]

-- Nothing is written under a key that none of the records has.
theorem value?_writeAll_of_not_mem {key : Bytes}
    (h : ∀ record ∈ records, ∀ entry, store.entry record = .ok entry → entry.1 ≠ key) :
    (store.writeAll records).2.2.storage.table.value? key = store.storage.table.value? key := by
  induction records generalizing store with
  | nil => rfl
  | cons record rest ih =>
      obtain ⟨hfirst, hrest⟩ := List.forall_mem_cons.mp h
      rw [writeAll]
      cases hentry : store.entry record with
      | ok entry =>
          rw [write_of_entry hentry]
          refine (ih fun other hother => ?_).trans
            (Table.value?_put_of_ne _ _ (hfirst entry hentry).symm)
          rw [entry_withStorage]
          exact hrest other hother
      | error error =>
          rw [write_of_entry_error hentry]
          exact ih hrest

-- Records of different keys do not get in each other's way.
theorem value?_writeAll {key value : Bytes} (hkeys : (records.map RecordKey.of).Nodup)
    (hmem : record ∈ records) (hentry : store.entry record = .ok (key, value)) :
    (store.writeAll records).2.2.storage.table.value? key = some value := by
  induction records generalizing store with
  | nil => contradiction
  | cons first rest ih =>
      obtain ⟨hfirst, hrest⟩ := List.nodup_cons.mp hkeys
      rw [writeAll]
      rcases List.mem_cons.mp hmem with rfl | hmem
      · rw [write_of_entry hentry]
        refine (value?_writeAll_of_not_mem fun other hother entry hother' he => hfirst ?_).trans
          (Table.value?_put_self _ key value)
        rw [entry_withStorage] at hother'
        have hstores := entry_eq_ok.mp hentry
        have hstores' := entry_eq_ok.mp hother'
        have hkey : (RecordKey.of other).keyBytes = (RecordKey.of record).keyBytes := by
          rw [← hstores'.key_eq, he, hstores.key_eq]
        rw [← RecordKey.keyBytes_injective hstores'.isEntity hstores.isEntity hkey]
        exact List.mem_map_of_mem hother
      · cases hother : store.entry first with
        | ok entry =>
            rw [write_of_entry hother]
            apply ih hrest hmem
            rw [entry_withStorage]
            exact hentry
        | error error =>
            rw [write_of_entry_error hother]
            exact ih hrest hmem hentry

-- What was written last under its key is read.
theorem get?_writeAll (hkeys : (records.map RecordKey.of).Nodup) (hmem : record ∈ records)
    (hwritten : store.failure? record = none) :
    (store.writeAll records).2.2.get? record.entity record.timestamp =
      (store.reader.answer record).map some := by
  obtain ⟨key, value, hentry⟩ : ∃ key value, store.entry record = .ok (key, value) := by
    rw [failure?] at hwritten
    split at hwritten
    · exact ⟨_, _, ‹_›⟩
    · contradiction
  have hstores := entry_eq_ok.mp hentry
  obtain rfl := hstores.key_eq
  have hfound : (store.writeAll records).2.2.storage.table.value?
      (RecordKey.mk record.entity record.timestamp.micros).keyBytes = some value :=
    value?_writeAll hkeys hmem hentry
  have hdecode : store.reader.decode (RecordKey.mk record.entity record.timestamp.micros).keyBytes
      value = store.reader.answer record := hstores.decode
  rw [get?_of_isEntity hstores.isEntity, hfound, (store.writeAll_keeps records).1]
  dsimp only
  rw [hdecode]

end WriteAll

-- What an import reports and leaves behind: of the records that it accepted it
-- fails to write those that are too large, and the others can be read as they
-- were admitted.
structure Imports (next : EventStore) (importer : Import.Importer) (document : String)
    (accepted : List Record) (report : ImportReport) : Prop where
  failed_eq : report.failed = accepted.filterMap WriteFailure.ofTooLarge?
  accepted_eq : report.accepted =
    accepted.countP fun record => (WriteFailure.ofTooLarge? record).isNone
  get?_eq : ∀ record ∈ accepted, WriteFailure.ofTooLarge? record = none →
    next.get? record.entity record.timestamp = .ok (some (next.reader.admitted record))
  total_eq : ∃ tree notes entries rest,
    Import.document? importer.config.format document = some (tree, notes) ∧
    tree.take? importer.config.records = some (.array entries, rest) ∧
    report.total = entries.length

theorem importDocument_eq_ok {importer : Import.Importer} {document : String}
    {report : ImportReport} (h : store.importDocument importer document = .ok (report, next)) :
    ∃ schema batch validation, store.registry.latest? importer.config.kind = some schema ∧
      importer.parse document = .ok batch ∧ importer.validate batch schema = .ok validation ∧
      report = ⟨importer.config.kind, (store.writeAll validation.accepted).1, validation.rejected,
        (store.writeAll validation.accepted).2.1, batch.notes⟩ ∧
      next = (store.writeAll validation.accepted).2.2 := by
  rw [importDocument_eq] at h
  obtain ⟨⟨batch, validation⟩, htaken, hreport⟩ := map_eq_ok.mp h
  cases hreport
  unfold intake at htaken
  split at htaken
  · contradiction
  · rename_i schema hschema
    obtain ⟨found, hbatch, htaken⟩ := bind_eq_ok.mp htaken
    obtain ⟨found', hvalidation, htaken⟩ := bind_eq_ok.mp htaken
    cases htaken
    exact ⟨schema, batch, validation, hschema, mapError_eq_ok.mp hbatch,
      mapError_eq_ok.mp hvalidation, rfl, rfl⟩

-- What is known of a record at the latest version is handed out as it is.
theorem answer_of_latest {reader : Reader} {schema : Schema}
    (hregistry : reader.registry.WellFormed)
    (hlatest : reader.registry.latest? record.kind = some schema)
    (hversion : record.version = schema.version) :
    reader.answer record = .ok (reader.admitted record) := by
  obtain ⟨payload, hadmitted⟩ := reader.admitted_eq record
  have hupgrade : reader.registry.upgrade (record.withPayload payload) =
      .ok (record.withPayload payload) := hregistry.upgrade_of_latest hlatest hversion
  rw [Reader.answer, hadmitted, hupgrade]
  rfl

theorem known_of_validate (hregistry : store.registry.WellFormed) {schema : Schema}
    {importer : Import.Importer} {batch : Import.Batch} {validation : Import.Validation}
    (hlatest : store.registry.latest? importer.config.kind = some schema)
    (hvalidation : importer.validate batch schema = .ok validation) :
    ∀ record ∈ validation.accepted,
      store.registry.schema? record.kind record.version = some schema := by
  obtain ⟨hkind, hschema⟩ := hregistry.of_latest? hlatest
  have hnormal := (hregistry.of_schema? hschema).1
  intro record hrecord
  have hconforms := Import.Importer.conforms_of_validate hnormal hvalidation record hrecord
  rw [hconforms.kind_eq, hconforms.version_eq, hkind]
  exact hschema

theorem imports_of_validate (hregistry : store.registry.WellFormed) {schema : Schema}
    {importer : Import.Importer} {document : String} {batch : Import.Batch}
    {validation : Import.Validation}
    (hlatest : store.registry.latest? importer.config.kind = some schema)
    (hbatch : importer.parse document = .ok batch)
    (hvalidation : importer.validate batch schema = .ok validation) :
    Imports (store.writeAll validation.accepted).2.2 importer document validation.accepted
      ⟨importer.config.kind, (store.writeAll validation.accepted).1, validation.rejected,
        (store.writeAll validation.accepted).2.1, batch.notes⟩ := by
  obtain ⟨hkind, hschema⟩ := hregistry.of_latest? hlatest
  have hnormal := (hregistry.of_schema? hschema).1
  have hconforms := Import.Importer.conforms_of_validate hnormal hvalidation
  have hknown := known_of_validate hregistry hlatest hvalidation
  have hfailure : ∀ record ∈ validation.accepted,
      store.failure? record = WriteFailure.ofTooLarge? record := fun record hrecord =>
    failure_of_conforms (hknown record hrecord) (hconforms record hrecord)
  obtain ⟨hcount, hfailed⟩ := store.report_writeAll validation.accepted
  refine ⟨?_, ?_, ?_, ?_⟩
  · exact hfailed.trans (List.filterMap_congr hfailure)
  · refine hcount.trans (List.countP_congr fun record hrecord => ?_)
    rw [hfailure record hrecord]
  · intro record hrecord hfits
    rw [← hfailure record hrecord] at hfits
    have hrecordLatest : store.reader.registry.latest? record.kind = some schema := by
      rw [(hconforms record hrecord).kind_eq, hkind]
      exact hlatest
    have hanswer : store.reader.answer record = .ok (store.reader.admitted record) :=
      answer_of_latest hregistry hrecordLatest (hconforms record hrecord).version_eq
    rw [get?_writeAll (Import.Importer.nodup_keys_of_validate hvalidation) hrecord hfits, hanswer,
      (store.writeAll_keeps validation.accepted).1]
    rfl
  · obtain ⟨tree, notes, entries, rest, hdocument, hentries, rfl⟩ :=
      Import.Importer.parse_eq_ok hbatch
    refine ⟨tree, notes, entries, rest, hdocument, hentries, ?_⟩
    have htotal := Import.Importer.total_of_validate hvalidation
    rw [Import.Importer.length_candidates, Import.Validation.total] at htotal
    have hwritten := store.accepted_add_failed validation.accepted
    simp only [ImportReport.total]
    omega

-- Importers and stores agree on what is valid. What an importer accepts fits its
-- schema and has a key, so an import loses nothing but records that are too large.
theorem importDocument_of_registry {registry : Registry} (hregistry : registry.Built)
    (importer : Import.Importer) :
    (∀ kind version schema batch validation, registry.schema? kind version = some schema →
      importer.validate batch schema = .ok validation → ∀ record ∈ validation.accepted,
        record.kind = schema.kind ∧ record.version = schema.version ∧
        schema.check record.payload = .ok () ∧
        (RecordKey.of record).encode = .ok (RecordKey.of record).keyBytes) ∧
    ∀ (store next : EventStore) document report, store.registry = registry →
      store.importDocument importer document = .ok (report, next) →
      ∃ schema batch validation, registry.latest? importer.config.kind = some schema ∧
        importer.parse document = .ok batch ∧ importer.validate batch schema = .ok validation ∧
        report.rejected = validation.rejected ∧
        next.Imports importer document validation.accepted report := by
  constructor
  · intro kind version schema batch validation hschema hvalidation record hrecord
    have hnormal := (hregistry.wellFormed.of_schema? hschema).1
    obtain ⟨hkind, hversion, hcheck, hentity⟩ :=
      Import.Importer.conforms_of_validate hnormal hvalidation record hrecord
    exact ⟨hkind, hversion, hcheck, RecordKey.encode_of_isEntity hentity⟩
  · rintro store next document report rfl himport
    obtain ⟨schema, batch, validation, hlatest, hbatch, hvalidation, rfl, rfl⟩ :=
      importDocument_eq_ok himport
    exact ⟨schema, batch, validation, hlatest, hbatch, hvalidation, rfl,
      imports_of_validate hregistry.wellFormed hlatest hbatch hvalidation⟩

-- Notes need a number of pages.
def noteSchema : Schema := ⟨"note", 1, [⟨1, "pages", .uint, true, none⟩]⟩

def noteRegistry : Registry := (Registry.register ∅ noteSchema).toOption.getD ∅

-- Of two notes the one without pages is rejected, and the other can be read.
theorem importDocument_of_notes :
    let importer : Import.Importer := ⟨.ofKind "note", ⟨none, Offset.utc⟩⟩
    let store : EventStore := ⟨⟨"notes", .fresh, .default⟩, ⟨noteRegistry, .preserve, .skip⟩⟩
    let document := "\x7b\"records\":[" ++
      "\x7b\"entity\":\"e\",\"timestamp\":5,\"pages\":3\x7d,\x7b\"entity\":7\x7d" ++ "]\x7d"
    ∃ report next accepted, store.importDocument importer document = .ok (report, next) ∧
      report.accepted = 1 ∧ report.rejected.length = 1 ∧ accepted ≠ [] ∧
      (∀ record ∈ accepted, noteSchema.check record.payload = .ok ()) ∧
      next.Imports importer document accepted report := by
  intro importer store document
  have hbuilt : noteRegistry.Built :=
    .register .empty (rfl : Registry.register ∅ noteSchema = .ok noteRegistry)
  have hcounts : (store.importDocument importer document).map (fun done =>
      (done.1.accepted, done.1.rejected.length)) = .ok (1, 1) := by decide +kernel
  obtain ⟨⟨report, next⟩, himport, hcounts⟩ := map_eq_ok.mp hcounts
  obtain ⟨haccepted, hrejected⟩ := Prod.mk.inj hcounts
  obtain ⟨hconforms, himports⟩ := importDocument_of_registry hbuilt importer
  obtain ⟨schema, batch, validation, hlatest, _, hvalidation, _, himported⟩ :=
    himports store next document report rfl himport
  have hschema : noteRegistry.latest? "note" = some noteSchema := by decide
  cases hlatest.symm.trans hschema
  have hknown : noteRegistry.schema? "note" 1 = some noteSchema := by decide
  refine ⟨report, next, validation.accepted, himport, haccepted, hrejected, ?_, ?_, himported⟩
  · intro hnone
    have hcount := himported.accepted_eq
    rw [haccepted, hnone] at hcount
    contradiction
  · intro record hrecord
    exact (hconforms "note" 1 noteSchema batch validation hknown hvalidation record hrecord).2.2.1

end EventStore

end Chronicle
