import Chronicle.Proofs.Config.Fill
import Chronicle.Proofs.EventStore.History

-- Stores that drop the fields without a slot: what they hand out fits the latest version
-- of its kind, and holds nothing but what was written with a slot and later defaults.

namespace Chronicle

-- What a record becomes that is handed out under a registry.
structure Registry.Renews (registry : Registry) (written record : Record) : Prop where
  kind_eq : record.kind = written.kind
  entity_eq : record.entity = written.entity
  timestamp_eq : record.timestamp = written.timestamp
  latest : ∃ latest, registry.latest? record.kind = some latest ∧
    record.version = latest.version ∧ latest.check record.payload = .ok ()
  -- A field has a slot when the version that it was written under has one of its name.
  fields : ∃ schema, registry.schema? written.kind written.version = some schema ∧
    (∀ field ∈ written.payload.toList, (schema.byName? field.name).isSome →
      field ∈ record.payload.toList) ∧
    ∀ field ∈ record.payload.toList,
      (field ∈ written.payload.toList ∧ (schema.byName? field.name).isSome) ∨
      ∃ newer, registry.schema? written.kind newer.version = some newer ∧
        written.version < newer.version ∧ field ∈ Config.defaultFields newer

namespace Config

variable {config : Config} {registry : Registry} {record : Record} {schema : Schema}

-- With nothing but fields that have a slot a record is upgraded to one that fits.
theorem exists_fillAll (hregistry : config.registry = .ok registry)
    (hschema : registry.schema? record.kind record.version = some schema)
    (hcheck : schema.check record.payload = .ok ())
    (hslots : ∀ field ∈ record.payload.toList, schema.byName? field.name ≠ none) :
    ∃ latest later, registry.latest? record.kind = some latest ∧
      (∀ newer ∈ later, registry.schema? record.kind newer.version = some newer ∧
        record.version < newer.version) ∧
      registry.upgrade record = .ok { record with
        version := latest.version, payload := fillAll later record.payload } ∧
      latest.check (fillAll later record.payload) = .ok () := by
  obtain ⟨later, latest, hascent⟩ := exists_ascent hregistry hschema
  have hwhole := (bridged_registryOf hregistry).1.wellFormed
  refine ⟨latest, later.map (·.2), hascent.latest_eq, ?_, hascent.upgrade, ?_⟩
  · intro newer hnewer
    obtain ⟨⟨version, newer⟩, hentry, rfl⟩ := List.mem_map.mp hnewer
    obtain ⟨hlt, hfound⟩ := (hascent.mem_later version newer).mp hentry
    have hversion : newer.version = version := (hwhole.of_schema? hfound).2.2
    rw [hversion]
    exact ⟨hfound, hlt⟩
  · apply (hascent.fits hcheck).mpr
    exact fun field hfield hnone => absurd hnone (hslots field hfield)

end Config

namespace Reader

-- A record that was checked when it was written is answered as one that fits.
theorem renews_answer {config : Config} {reader : Reader}
    (hregistry : config.registry = .ok reader.registry) (hdrop : reader.unknownFields = .drop)
    {written : Record} {schema : Schema}
    (hschema : reader.registry.schema? written.kind written.version = some schema)
    (hcheck : schema.check written.payload = .ok ()) :
    ∃ record, reader.answer written = .ok record ∧ reader.registry.Renews written record := by
  have hnormal : schema.Normal :=
    ((Config.bridged_registryOf hregistry).1.wellFormed.of_schema? hschema).1
  have hfields := (Schema.check_eq_ok.mp hcheck).1
  let kept := written.withPayload (written.payload.filter schema.knows)
  have hadmitted : reader.admitted written = kept := by
    rw [admitted, hdrop, hschema]
  have hslots : ∀ field ∈ kept.payload.toList, schema.byName? field.name ≠ none := by
    intro field hfield
    obtain ⟨hmem, hknown⟩ := List.mem_filter.mp hfield
    obtain ⟨slot, hslot⟩ := (hnormal.knows_iff (hfields field hmem)).mp hknown
    rw [hslot]
    exact Option.some_ne_none slot
  have hkept : schema.check kept.payload = .ok () := hnormal.check_filter_knows hcheck
  have hschema' : reader.registry.schema? kept.kind kept.version = some schema := hschema
  obtain ⟨latest, later, hlatest, hnewer, hupgrade, hfits⟩ :=
    Config.exists_fillAll hregistry hschema' hkept hslots
  refine ⟨{ kept with version := latest.version, payload := Config.fillAll later kept.payload }, ?_,
    rfl, rfl, rfl, ⟨latest, hlatest, rfl, hfits⟩, schema, hschema, ?_, ?_⟩
  · rw [answer, hadmitted, hupgrade, mapError_ok]
  · intro field hfield hslot
    have hknown : schema.knows field = true :=
      (hnormal.knows_iff (hfields field hfield)).mpr (Option.isSome_iff_exists.mp hslot)
    exact Config.mem_fillAll_of_mem (List.mem_filter.mpr ⟨hfield, hknown⟩)
  · intro field hfield
    rcases Config.mem_or_mem_of_fillAll hfield with hold | ⟨newer, hlater, hdefault⟩
    · exact .inl ⟨(List.mem_filter.mp hold).1, Option.isSome_iff_ne_none.mpr (hslots field hold)⟩
    · exact .inr ⟨newer, (hnewer newer hlater).1, (hnewer newer hlater).2, hdefault⟩

end Reader

-- What became of the record that was written last under the same key.
def Registry.Renewed (registry : Registry) (history : Ledger) (record : Record) : Prop :=
  ∃ written, history.get? (RecordKey.of record) = some written ∧ registry.Renews written record

namespace StoreView

-- Whatever is handed out is renewed, and no error comes in its place.
structure HandsOut (view : StoreView) (registry : Registry) (history : Ledger) : Prop where
  get : ∀ entity timestamp record, view.get? entity timestamp = .ok (some record) →
    RecordKey.of record = ⟨entity, timestamp.micros⟩ ∧ registry.Renewed history record
  get_ok : ∀ entity timestamp, RecordKey.IsEntity entity →
    ∃ found, view.get? entity timestamp = .ok found
  read : ∀ entity span records calls record, view.read entity span = .ok records →
    (records.after calls).next.1 = some (.ok record) → registry.Renewed history record
  read_ok : ∀ entity span, RecordKey.IsEntity entity → ∃ records,
    view.read entity span = .ok records ∧
    ∀ calls error, (records.after calls).next.1 ≠ some (.error error)
  latest : ∀ entity record, view.latest? entity = .ok (some record) →
    registry.Renewed history record
  latest_ok : ∀ entity, RecordKey.IsEntity entity → ∃ found, view.latest? entity = .ok found

-- Every entry that can be seen is a renewed record under its own key.
def ShowsRenewed (view : StoreView) (registry : Registry) (history : Ledger) : Prop :=
  ∀ entry ∈ view.snapshot.table.liveEntries, ∃ record,
    view.reader.decode entry.1 entry.2 = .ok record ∧ RecordKey.IsEntity record.entity ∧
    entry.1 = (RecordKey.of record).keyBytes ∧ registry.Renewed history record

variable {view : StoreView} {registry : Registry} {history : Ledger} {entity : String}

theorem read_of_isEntity (view : StoreView) (hentity : RecordKey.IsEntity entity)
    (span : TimeSpan) :
    view.read entity span = .ok (Records.start
      (Scan.start view.snapshot (span.keyRange (RecordKey.frontBytes entity))) view.reader) :=
  read_eq_ok.mpr ⟨_, TimeSpan.keys_of_isEntity span hentity, rfl⟩

-- Entries that a read may come to are entries of the table.
theorem mem_liveEntries_of_ahead {range : KeyRange} {entry : Bytes × Bytes}
    (h : entry ∈ (Records.start (Scan.start view.snapshot range) view.reader).ahead) :
    entry ∈ view.snapshot.table.liveEntries := by
  rw [Records.ahead_start] at h
  exact (Table.mem_liveIn.mp h).1

theorem ShowsRenewed.answer (h : view.ShowsRenewed registry history) {range : KeyRange}
    {outcome : Except StoreError Record}
    (houtcome : ∃ entry ∈ (Records.start (Scan.start view.snapshot range) view.reader).ahead,
      view.reader.decode entry.1 entry.2 = outcome) :
    ∃ record, outcome = .ok record ∧ registry.Renewed history record := by
  obtain ⟨entry, hmem, hdecode⟩ := houtcome
  obtain ⟨record, hrecord, _, _, hrenewed⟩ := h entry (mem_liveEntries_of_ahead hmem)
  exact ⟨record, hdecode.symm.trans hrecord, hrenewed⟩

theorem ShowsRenewed.get? (h : view.ShowsRenewed registry history)
    (hentity : RecordKey.IsEntity entity) (timestamp : Timestamp) :
    view.get? entity timestamp = .ok none ∨ ∃ record,
      view.get? entity timestamp = .ok (some record) ∧
      RecordKey.of record = ⟨entity, timestamp.micros⟩ ∧ registry.Renewed history record := by
  have hkey : (RecordKey.mk entity timestamp.micros).encode =
      .ok (RecordKey.mk entity timestamp.micros).keyBytes := RecordKey.encode_of_isEntity hentity
  rw [StoreView.get?, hkey, mapError_ok, ok_bind]
  cases hvalue : view.snapshot.value? (RecordKey.mk entity timestamp.micros).keyBytes with
  | none => exact .inl rfl
  | some value =>
      obtain ⟨record, hdecode, hentity', hplace, hrenewed⟩ :=
        h _ (Table.value?_eq_some_iff.mp hvalue)
      refine .inr ⟨record, ?_, ?_, hrenewed⟩
      · dsimp only
        rw [hdecode]
        rfl
      · exact (RecordKey.keyBytes_injective hentity hentity' hplace).symm

theorem ShowsRenewed.handsOut (h : view.ShowsRenewed registry history) :
    view.HandsOut registry history := by
  refine ⟨?_, ?_, ?_, ?_, ?_, ?_⟩
  · intro entity timestamp record hget
    obtain ⟨key, hkey, _⟩ := bind_eq_ok.mp hget
    obtain ⟨hentity, _⟩ := RecordKey.encode_eq_ok.mp (mapError_eq_ok.mp hkey)
    rcases h.get? hentity timestamp with hnone | ⟨other, hother, hplace, hrenewed⟩
    · cases hnone.symm.trans hget
    · cases hother.symm.trans hget
      exact ⟨hplace, hrenewed⟩
  · intro entity timestamp hentity
    rcases h.get? hentity timestamp with hnone | ⟨record, hrecord, _⟩
    · exact ⟨none, hnone⟩
    · exact ⟨some record, hrecord⟩
  · intro entity span records calls record hread hanswer
    obtain ⟨range, _, rfl⟩ := read_eq_ok.mp hread
    obtain ⟨other, hother, hrenewed⟩ := h.answer (Records.exists_of_after hanswer)
    cases hother
    exact hrenewed
  · intro entity span hentity
    refine ⟨_, view.read_of_isEntity hentity span, fun calls error hanswer => ?_⟩
    obtain ⟨other, hother, _⟩ := h.answer (Records.exists_of_after hanswer)
    contradiction
  · intro entity record hlatest
    obtain ⟨records, hread, hlatest⟩ := bind_eq_ok.mp hlatest
    obtain ⟨range, _, rfl⟩ := read_eq_ok.mp hread
    rcases mem_of_foldlM_answers hlatest with hnone | ⟨other, hsome, hmem⟩
    · contradiction
    · cases hsome
      obtain ⟨other, hother, hrenewed⟩ := h.answer (Records.exists_of_mem_take hmem)
      cases hother
      exact hrenewed
  · intro entity hentity
    rw [latest?, view.read_of_isEntity hentity TimeSpan.always, ok_bind]
    refine exists_of_foldlM_answers fun answer hmem => ?_
    obtain ⟨record, hrecord, _⟩ := h.answer (Records.exists_of_mem_take hmem)
    exact ⟨record, hrecord⟩

end StoreView

namespace EventStore

theorem Recalls.showsRenewed {store : EventStore} {history : Ledger} (h : store.Recalls history)
    {config : Config} (hregistry : config.registry = .ok store.registry)
    (hdrop : store.reader.unknownFields = .drop) :
    store.view.ShowsRenewed store.registry history := by
  intro entry hentry
  obtain ⟨written, hwritten, hstores⟩ := h entry hentry
  obtain ⟨schema, hschema, hcheck⟩ := hstores.checked
  obtain ⟨record, hanswer, hrenews⟩ := Reader.renews_answer hregistry hdrop hschema hcheck
  have hsame : RecordKey.of record = RecordKey.of written := by
    rw [RecordKey.of, RecordKey.of, hrenews.entity_eq, hrenews.timestamp_eq]
  refine ⟨record, hstores.decode.trans hanswer, ?_, ?_, written, ?_, hrenews⟩
  · rw [hrenews.entity_eq]
    exact hstores.isEntity
  · rw [hsame]
    exact hstores.key_eq
  · exact Ledger.get?_eq_some_iff.mpr ⟨hwritten, hsame.symm⟩

-- After any run of a store that drops what it does not know, all that it hands out is
-- valid.
theorem handsOut_run {config : Config} {registry : Registry}
    (hregistry : config.registry = .ok registry) {storeConfig : StoreConfig}
    (hdrop : storeConfig.unknownFields = .drop) {opened : EventStore}
    (hopen : openIn Directory.fresh storeConfig registry = .ok opened)
    (operations : List Operation) :
    (opened.runRemembering Ledger.empty operations).1.view.HandsOut registry
      (opened.runRemembering Ledger.empty operations).2 := by
  obtain ⟨hstart, hreader⟩ := recalls_open hopen
  have hend := hstart.run operations
  have hsame := (opened.reader_runRemembering Ledger.empty operations).trans hreader
  generalize opened.runRemembering Ledger.empty operations = reached at hend hsame ⊢
  have hknown : reached.1.registry = registry := by rw [EventStore.registry, hsame]
  have hpolicy : reached.1.reader.unknownFields = .drop := by
    rw [hsame]
    exact hdrop
  rw [← hknown] at hregistry
  have hshows := hend.showsRenewed hregistry hpolicy
  rw [hknown] at hshows
  exact hshows.handsOut

-- A task of the first version is written with a note that has no slot, and another one
-- is written and deleted. The first is handed out as one of the second version, with the
-- minutes that it lacked and without the note.
theorem handsOut_of_task :
    ∃ opened, openIn Directory.fresh ⟨"tasks", .strict, .drop, .default⟩ Config.taskRegistry =
        .ok opened ∧
      let operations : List Operation :=
        [.write ⟨"task", "e", ⟨5, none⟩, 1,
            .ofList [⟨1, "title", .text "sow"⟩, ⟨0, "note", .bool true⟩]⟩,
          .write ⟨"task", "f", ⟨5, none⟩, 1, .ofList [⟨1, "title", .text "reap"⟩]⟩,
          .delete "f" ⟨5, none⟩]
      let reached := opened.runRemembering Ledger.empty operations
      let renewed : Record := ⟨"task", "e", ⟨5, none⟩, 2,
        .ofList [⟨1, "title", .text "sow"⟩, ⟨2, "minutes", .int 90⟩]⟩
      reached.1.stats = ⟨1, 1⟩ ∧ reached.2.records.length = 2 ∧
        reached.1.get? "e" ⟨5, none⟩ = .ok (some renewed) ∧
        reached.1.latest? "e" = .ok (some renewed) ∧
        reached.1.get? "f" ⟨5, none⟩ = .ok none ∧
        reached.1.view.HandsOut Config.taskRegistry reached.2 :=
  ⟨_, rfl, by decide +kernel, by decide +kernel, by decide +kernel, by decide +kernel,
    by decide +kernel, handsOut_run Config.registry_tasks rfl rfl _⟩

end EventStore

end Chronicle
