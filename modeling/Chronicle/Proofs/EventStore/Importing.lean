import Chronicle.Proofs.EventStore.Import
import Chronicle.Proofs.EventStore.Requests

-- Imports as courses of steps on a store: one that is refused has written nothing, and
-- one that is not comes to the same when it is made again, and in whatever order the
-- document has its entries.

namespace Chronicle

-- The key and the bytes of a record, unless it is too large.
def Record.stored? (record : Record) : Option (Bytes × Bytes) :=
  let body := (Codec.ofRecord record).encode
  if Frame.maxBody < body.length then none
  else some ((RecordKey.of record).keyBytes, Frame.wrap body)

-- Why an import fails as a whole.
inductive Import.Refusal (config : Import.Config) : StoreError → Prop where
  | unknownKind : Refusal config (.record (.unknownKind config.kind))
  | malformed (reason : Import.Malformation) :
      Refusal config (.document (.malformed config.format reason))
  | unknownField (field : String) : Refusal config (.document (.unknownField config.kind field))
  | badDefault (field : String) (type : FieldType) :
      Refusal config (.document (.config (.badDefault field type)))

namespace EventStore

-- What an import answers, and the store as it is left.
def attemptImport (store : EventStore) (importer : Import.Importer) (document : String) :
    Except StoreError ImportReport × EventStore :=
  store.undergo (importing importer document)

variable {store next : EventStore} {importer : Import.Importer} {document : String}

theorem attemptImport_eq (store : EventStore) (importer : Import.Importer) (document : String) :
    store.attemptImport importer document =
      store.orUnchanged (store.importDocument importer document) :=
  store.undergo_importing importer document

-- What writing some records leaves behind is one change of the table.
theorem writeAll_eq (store : EventStore) (records : List Record) :
    (store.writeAll records).2.2 = store.change (Batch.puts
      (records.filterMap fun record => (store.entry record).toOption)) := by
  induction records generalizing store with
  | nil => rfl
  | cons record rest ih =>
      rw [writeAll, List.filterMap_cons]
      cases hentry : store.entry record with
      | error error =>
          rw [write_of_entry_error hentry]
          exact ih store
      | ok entry =>
          rw [write_of_entry hentry]
          exact ih { store with storage := store.storage.put entry.1 entry.2 }

section Conforming

variable {schema : Schema} {record : Record} {records : List Record}

theorem toOption_entry_of_conforms
    (hschema : store.registry.schema? record.kind record.version = some schema)
    (h : Import.Conforms schema record) : (store.entry record).toOption = record.stored? := by
  rw [entry_of_conforms hschema h, Record.stored?]
  by_cases hlarge : Frame.maxBody < (Codec.ofRecord record).encode.length
  · rw [Codec.encode_of_too_large hlarge]
    simp [hlarge, Except.map, Except.toOption]
  · rw [Codec.encode_of_fits (Nat.not_lt.mp hlarge)]
    simp [hlarge, Except.map, Except.toOption]

-- Records of entities have different keys in the table when they are of different keys.
theorem nodup_keys_stored (hentities : ∀ record ∈ records, RecordKey.IsEntity record.entity)
    (hkeys : (records.map RecordKey.of).Nodup) :
    ((records.filterMap Record.stored?).map (·.1)).Nodup := by
  rw [List.map_filterMap]
  apply List.pairwise_filterMap.mpr
  refine (List.pairwise_map.mp hkeys).imp_of_mem ?_
  intro first second hfirst hsecond hne key hkey other hother heq
  apply hne
  obtain ⟨entry, hentry, rfl⟩ := Option.map_eq_some_iff.mp hkey
  obtain ⟨entry', hentry', rfl⟩ := Option.map_eq_some_iff.mp hother
  apply RecordKey.keyBytes_injective (hentities first hfirst) (hentities second hsecond)
  simp only [Record.stored?, Option.ite_none_left_eq_some, Option.some.injEq] at hentry hentry'
  rw [← hentry.2, ← hentry'.2] at heq
  exact heq

end Conforming

-- The report on a batch: of what is accepted nothing fails but what is too large.
def reportOn (importer : Import.Importer) (batch : Import.Batch)
    (validation : Import.Validation) : ImportReport :=
  ⟨importer.config.kind, (validation.accepted.filterMap Record.stored?).length,
    validation.rejected, validation.accepted.filterMap WriteFailure.ofTooLarge?, batch.notes⟩

section Validated

variable {schema : Schema} {batch : Import.Batch} {validation : Import.Validation}

theorem length_stored (records : List Record) :
    (records.filterMap Record.stored?).length =
      records.countP fun record => (WriteFailure.ofTooLarge? record).isNone := by
  rw [List.length_filterMap_eq_countP]
  apply List.countP_congr
  intro record _
  unfold Record.stored? WriteFailure.ofTooLarge?
  by_cases hlarge : Frame.maxBody < (Codec.ofRecord record).encode.length
  · simp [hlarge]
  · simp [hlarge]

theorem attemptImport_of_validate (hregistry : store.registry.WellFormed)
    (hlatest : store.registry.latest? importer.config.kind = some schema)
    (hbatch : importer.parse document = .ok batch)
    (hvalidation : importer.validate batch schema = .ok validation) :
    store.attemptImport importer document = (.ok (reportOn importer batch validation),
      store.change (Batch.puts (validation.accepted.filterMap Record.stored?))) := by
  obtain ⟨_, hschema⟩ := hregistry.of_latest? hlatest
  have hnormal := (hregistry.of_schema? hschema).1
  have hconforms := Import.Importer.conforms_of_validate hnormal hvalidation
  have hknown := known_of_validate hregistry hlatest hvalidation
  have himports := imports_of_validate hregistry hlatest hbatch hvalidation
  have hstored : validation.accepted.filterMap (fun record => (store.entry record).toOption) =
      validation.accepted.filterMap Record.stored? :=
    List.filterMap_congr fun record hrecord =>
      toOption_entry_of_conforms (hknown record hrecord) (hconforms record hrecord)
  have hcount : (store.writeAll validation.accepted).1 =
      (validation.accepted.filterMap Record.stored?).length := by
    rw [length_stored]
    exact himports.accepted_eq
  have hfailed : (store.writeAll validation.accepted).2.1 =
      validation.accepted.filterMap WriteFailure.ofTooLarge? := himports.failed_eq
  have himport : store.importDocument importer document =
      .ok (⟨importer.config.kind, (store.writeAll validation.accepted).1, validation.rejected,
        (store.writeAll validation.accepted).2.1, batch.notes⟩,
        (store.writeAll validation.accepted).2.2) := by
    rw [importDocument_eq, intake, hlatest, hbatch]
    simp only [mapError_ok, ok_bind, hvalidation]
    rfl
  rw [attemptImport_eq, himport, hcount, hfailed, writeAll_eq, hstored]
  rfl

theorem attemptImport_cases (hregistry : store.registry.WellFormed) :
    (∃ error, store.attemptImport importer document = (.error error, store) ∧
      Import.Refusal importer.config error) ∨
    ∃ schema batch validation, store.registry.latest? importer.config.kind = some schema ∧
      importer.parse document = .ok batch ∧ importer.validate batch schema = .ok validation ∧
      store.attemptImport importer document = (.ok (reportOn importer batch validation),
        store.change (Batch.puts (validation.accepted.filterMap Record.stored?))) := by
  cases hlatest : store.registry.latest? importer.config.kind with
  | none =>
      refine .inl ⟨_, ?_, .unknownKind⟩
      rw [attemptImport_eq, importDocument_eq, intake, hlatest]
      rfl
  | some schema =>
      cases hbatch : importer.parse document with
      | error error =>
          obtain ⟨reason, rfl⟩ := Import.Importer.parse_eq_error hbatch
          refine .inl ⟨_, ?_, .malformed reason⟩
          rw [attemptImport_eq, importDocument_eq, intake, hlatest, hbatch]
          rfl
      | ok batch =>
          cases hvalidation : importer.validate batch schema with
          | error error =>
              have hrefused : store.attemptImport importer document =
                  (.error (.document error), store) := by
                rw [attemptImport_eq, importDocument_eq, intake, hlatest, hbatch]
                simp only [mapError_ok, ok_bind, hvalidation]
                rfl
              refine .inl ⟨_, hrefused, ?_⟩
              obtain ⟨hkind, _⟩ := hregistry.of_latest? hlatest
              have hsame : batch.kind = schema.kind :=
                (Import.Importer.kind_of_parse hbatch).trans hkind.symm
              rcases Import.Importer.validate_eq_error hsame hvalidation with
                ⟨field, rfl⟩ | ⟨field, type, rfl⟩
              · rw [hkind]
                exact .unknownField field
              · exact .badDefault field type
          | ok validation =>
              exact .inr ⟨schema, batch, validation, rfl, rfl, hvalidation,
                attemptImport_of_validate hregistry hlatest hbatch hvalidation⟩

end Validated

-- Some entries are put into a table, each under a key of its own, and nothing else is
-- done to it.
structure Puts (store next : EventStore) (entries : List (Bytes × Bytes)) : Prop where
  distinct : (entries.map (·.1)).Nodup
  table_eq : next.storage.table =
    entries.foldl (fun table entry => table.put entry.1 entry.2) store.storage.table
  put : ∀ entry ∈ entries, next.storage.table.get? entry.1 = some (.live entry.2)
  kept : ∀ key ∉ entries.map (·.1),
    next.storage.table.get? key = store.storage.table.get? key
  live_eq : next.stats.live = store.stats.live +
    entries.countP fun entry => (store.storage.table.value? entry.1).isNone

theorem puts_change (store : EventStore) {entries : List (Bytes × Bytes)}
    (hkeys : (entries.map (·.1)).Nodup) :
    store.Puts (store.change (Batch.puts entries)) entries := by
  have htable : (store.change (Batch.puts entries)).storage.table =
      store.storage.table.applyAll (Batch.puts entries) := rfl
  refine ⟨hkeys, ?_, ?_, ?_, ?_⟩
  · rw [htable, Table.applyAll, Batch.puts, List.foldl_map]
    rfl
  · intro entry hentry
    rw [htable, Table.get?_applyAll_puts_of_mem _ hkeys hentry]
  · intro key hkey
    rw [htable, Table.get?_applyAll_puts_of_not_mem _ hkey]
  · have hlive : ∀ other : EventStore,
        other.stats.live = other.storage.table.liveEntries.length := fun other =>
      other.storage.table.live_stats
    rw [hlive, hlive, htable, Table.length_liveEntries_puts _ hkeys]

-- What becomes of an import. The same document again changes nothing, and neither does
-- the order of its entries, if no two of them have the same entity and instant.
structure Settles (store : EventStore) (importer : Import.Importer) (document : String) :
    Prop where
  refused : ∀ error next, store.attemptImport importer document = (.error error, next) →
    next = store ∧ Import.Refusal importer.config error
  written : ∀ report next, store.attemptImport importer document = (.ok report, next) →
    ∃ schema batch validation, store.registry.latest? importer.config.kind = some schema ∧
      importer.parse document = .ok batch ∧ importer.validate batch schema = .ok validation ∧
      report = reportOn importer batch validation ∧
      store.Puts next (validation.accepted.filterMap Record.stored?)
  repeated : ∀ report next, store.attemptImport importer document = (.ok report, next) →
    next.attemptImport importer document = (.ok report, next)
  permuted : ∀ other batch batch', importer.parse document = .ok batch →
    importer.parse other = .ok batch' →
    (batch.candidates.map (·.entry)).Perm (batch'.candidates.map (·.entry)) →
    (batch.candidates.filterMap fun candidate => importer.key? candidate.entry).Nodup →
    (store.attemptImport importer document).2.storage.table =
      (store.attemptImport importer other).2.storage.table

theorem nodup_keys_of_import (hregistry : store.registry.WellFormed) {schema : Schema}
    {batch : Import.Batch} {validation : Import.Validation}
    (hlatest : store.registry.latest? importer.config.kind = some schema)
    (hvalidation : importer.validate batch schema = .ok validation) :
    ((validation.accepted.filterMap Record.stored?).map (·.1)).Nodup := by
  obtain ⟨_, hschema⟩ := hregistry.of_latest? hlatest
  have hnormal := (hregistry.of_schema? hschema).1
  apply nodup_keys_stored
  · intro record hrecord
    exact (Import.Importer.conforms_of_validate hnormal hvalidation record hrecord).isEntity
  · exact Import.Importer.nodup_keys_of_validate hvalidation

-- A store knows the same after a change, so the same document comes to the same batch.
theorem attemptImport_change (hregistry : store.registry.WellFormed) {schema : Schema}
    {batch : Import.Batch} {validation : Import.Validation}
    (hlatest : store.registry.latest? importer.config.kind = some schema)
    (hbatch : importer.parse document = .ok batch)
    (hvalidation : importer.validate batch schema = .ok validation) :
    let next := store.change (Batch.puts (validation.accepted.filterMap Record.stored?))
    next.attemptImport importer document = (.ok (reportOn importer batch validation), next) := by
  intro next
  have hwhole : next.registry.WellFormed := hregistry
  have hknown : next.registry.latest? importer.config.kind = some schema := hlatest
  have htwice : next.change (Batch.puts (validation.accepted.filterMap Record.stored?)) = next := by
    have htable := Table.applyAll_applyAll store.storage.table
      (Batch.puts (validation.accepted.filterMap Record.stored?))
    simp only [next, change, Storage.write, Storage.modify, Storage.table] at htable ⊢
    rw [htable]
  rw [attemptImport_of_validate hwhole hknown hbatch hvalidation, htwice]

-- The same entries in another order are accepted, and they are put under the same keys.
theorem table_attemptImport_of_perm (hregistry : store.registry.WellFormed) {other : String}
    {batch batch' : Import.Batch} (hbatch : importer.parse document = .ok batch)
    (hbatch' : importer.parse other = .ok batch')
    (hperm : (batch.candidates.map (·.entry)).Perm (batch'.candidates.map (·.entry)))
    (hkeys : (batch.candidates.filterMap fun candidate => importer.key? candidate.entry).Nodup) :
    (store.attemptImport importer document).2.storage.table =
      (store.attemptImport importer other).2.storage.table := by
  cases hlatest : store.registry.latest? importer.config.kind with
  | none =>
      simp only [attemptImport_eq, importDocument_eq, intake, hlatest]
  | some schema =>
      obtain ⟨hkind, _⟩ := hregistry.of_latest? hlatest
      have hsame : batch.kind = schema.kind :=
        (Import.Importer.kind_of_parse hbatch).trans hkind.symm
      have hsame' : batch'.kind = schema.kind :=
        (Import.Importer.kind_of_parse hbatch').trans hkind.symm
      have hvalidate : importer.validate batch schema = _ := Import.Importer.validate_eq hsame
      have hvalidate' : importer.validate batch' schema = _ := Import.Importer.validate_eq hsame'
      cases hsources : Import.Importer.sources importer.config schema with
      | error error =>
          rw [hsources] at hvalidate hvalidate'
          simp only [attemptImport_eq, importDocument_eq, intake, hlatest, hbatch, hbatch',
            mapError_ok, ok_bind, hvalidate, hvalidate']
          rfl
      | ok sources =>
          rw [hsources] at hvalidate hvalidate'
          have haccepted :
              (importer.validateFrom schema sources [] batch.candidates).accepted.Perm
                (importer.validateFrom schema sources [] batch'.candidates).accepted :=
            Import.Importer.accepted_of_perm hperm hkeys
          have hnodup := nodup_keys_of_import hregistry hlatest hvalidate
          rw [attemptImport_of_validate hregistry hlatest hbatch hvalidate,
            attemptImport_of_validate hregistry hlatest hbatch' hvalidate']
          apply Table.applyAll_of_perm
          · exact (haccepted.filterMap Record.stored?).map _
          · rwa [Table.map_key_puts]

-- Whatever a store holds, an import settles into it.
theorem settles_of_built (hregistry : store.registry.Built) (importer : Import.Importer)
    (document : String) : store.Settles importer document := by
  have hwhole := hregistry.wellFormed
  refine ⟨?_, ?_, ?_, ?_⟩
  · intro error next hrefused
    rcases store.attemptImport_cases hwhole with ⟨other, hother, hrefusal⟩ |
      ⟨schema, batch, validation, _, _, _, htaken⟩
    · cases hother.symm.trans hrefused
      exact ⟨rfl, hrefusal⟩
    · cases htaken.symm.trans hrefused
  · intro report next hdone
    rcases store.attemptImport_cases hwhole with ⟨other, hother, _⟩ |
      ⟨schema, batch, validation, hlatest, hbatch, hvalidation, htaken⟩
    · cases hother.symm.trans hdone
    · cases htaken.symm.trans hdone
      exact ⟨schema, batch, validation, hlatest, hbatch, hvalidation, rfl,
        store.puts_change (nodup_keys_of_import hwhole hlatest hvalidation)⟩
  · intro report next hdone
    rcases store.attemptImport_cases hwhole with ⟨other, hother, _⟩ |
      ⟨schema, batch, validation, hlatest, hbatch, hvalidation, htaken⟩
    · cases hother.symm.trans hdone
    · cases htaken.symm.trans hdone
      exact attemptImport_change hwhole hlatest hbatch hvalidation
  · intro other batch batch' hbatch hbatch' hperm hkeys
    exact table_attemptImport_of_perm hwhole hbatch hbatch' hperm hkeys

-- Two notes of one entity are put in, and the entry between them is rejected. The same
-- document again changes nothing.
theorem settles_notes :
    let importer : Import.Importer := ⟨.ofKind "note", ⟨none, Offset.utc⟩⟩
    let store : EventStore := ⟨⟨"notes", .fresh, .default⟩, ⟨noteRegistry, .preserve, .skip⟩⟩
    let document := "\x7b\"records\":[" ++
      "\x7b\"entity\":\"e\",\"timestamp\":5,\"pages\":3\x7d,\x7b\"entity\":7\x7d," ++
      "\x7b\"entity\":\"e\",\"timestamp\":6,\"pages\":4\x7d" ++ "]\x7d"
    noteRegistry.Built ∧ store.Settles importer document ∧ ∃ report next,
      store.attemptImport importer document = (.ok report, next) ∧
      report.accepted = 2 ∧ report.rejected.length = 1 ∧ next.stats.live = store.stats.live + 2 ∧
      next.attemptImport importer document = (.ok report, next) := by
  intro importer store document
  have hbuilt : noteRegistry.Built :=
    .register .empty (rfl : Registry.register ∅ noteSchema = .ok noteRegistry)
  have hsettles : store.Settles importer document :=
    @settles_of_built store hbuilt importer document
  have hcounts : (store.importDocument importer document).map (fun done =>
      (done.1.accepted, done.1.rejected.length, done.2.stats.live)) = .ok (2, 1, 2) := by
    decide +kernel
  obtain ⟨⟨report, next⟩, himport, hcounts⟩ := map_eq_ok.mp hcounts
  obtain ⟨haccepted, hcounts⟩ := Prod.mk.inj hcounts
  obtain ⟨hrejected, hlive⟩ := Prod.mk.inj hcounts
  have hdone : store.attemptImport importer document = (.ok report, next) := by
    rw [attemptImport_eq, himport]
    rfl
  exact ⟨hbuilt, hsettles, report, next, hdone, haccepted, hrejected, hlive,
    hsettles.repeated report next hdone⟩

end EventStore

end Chronicle
