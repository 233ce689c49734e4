import Chronicle.EventStore
import Chronicle.Proofs.Codec.RoundTrip
import Chronicle.Proofs.RecordKey
import Chronicle.Proofs.Registry

-- What is stored of a record, and what a reader makes of it.

namespace Chronicle

namespace Reader

-- A record with the fields that are handed out, before it is upgraded.
def admitted (reader : Reader) (record : Record) : Record :=
  match reader.unknownFields, reader.registry.schema? record.kind record.version with
  | .drop, some schema => record.withPayload (record.payload.filter schema.knows)
  | _, _ => record

-- What is read of a record.
def answer (reader : Reader) (record : Record) : Except StoreError Record :=
  (reader.registry.upgrade (reader.admitted record)).mapError .record

theorem receive_eq_admitted {reader : Reader} {record : Record} {schema : Schema}
    (hschema : reader.registry.schema? record.kind record.version = some schema) :
    Codec.receive reader.registry reader.unknownFields record = .ok (reader.admitted record) := by
  rw [Codec.receive, Registry.resolve_eq_ok.mpr hschema, ok_bind, admitted, hschema]
  cases reader.unknownFields <;> rfl

theorem admitted_eq (reader : Reader) (record : Record) :
    ∃ payload, reader.admitted record = record.withPayload payload := by
  unfold admitted
  split
  · exact ⟨_, rfl⟩
  · exact ⟨record.payload, rfl⟩

theorem key_admitted (reader : Reader) (record : Record) :
    RecordKey.of (reader.admitted record) = RecordKey.of record := by
  obtain ⟨payload, hadmitted⟩ := reader.admitted_eq record
  rw [hadmitted]
  rfl

-- Of a record of a known version nothing but a step of its upgrade is missing.
theorem answer_eq_error {reader : Reader} {record : Record} {schema : Schema} {error : StoreError}
    (hregistry : reader.registry.WellFormed)
    (hschema : reader.registry.schema? record.kind record.version = some schema)
    (h : reader.answer record = .error error) :
    ∃ version, error = .record (.missingUpgrade record.kind version) := by
  obtain ⟨reason, hreason, rfl⟩ := mapError_eq_error.mp h
  obtain ⟨payload, hadmitted⟩ := reader.admitted_eq record
  rw [hadmitted] at hreason
  have hknown : reader.registry.schema? (record.withPayload payload).kind
      (record.withPayload payload).version = some schema := hschema
  obtain ⟨version, rfl⟩ := hregistry.upgrade_eq_error hknown hreason
  exact ⟨version, rfl⟩

end Reader

theorem StoreView.read_eq_ok {view : StoreView} {entity : String} {span : TimeSpan}
    {records : Records} :
    view.read entity span = .ok records ↔ ∃ range, span.keys entity = .ok range ∧
      records = Records.start (Scan.start view.snapshot range) view.reader := by
  rw [StoreView.read, bind_eq_ok]
  constructor
  · rintro ⟨range, hkeys, hrecords⟩
    cases hrecords
    exact ⟨range, mapError_eq_ok.mp hkeys, rfl⟩
  · rintro ⟨range, hkeys, rfl⟩
    exact ⟨range, mapError_eq_ok.mpr hkeys, rfl⟩

namespace EventStore

variable {store : EventStore} {record : Record} {key value : Bytes}

-- A record is stored under its key when it fits a known schema and the limits.
structure Stores (store : EventStore) (record : Record) (key value : Bytes) : Prop where
  checked : ∃ schema, store.registry.schema? record.kind record.version = some schema ∧
    schema.check record.payload = .ok ()
  isEntity : RecordKey.IsEntity record.entity
  key_eq : key = (RecordKey.of record).keyBytes
  encoded : Codec.encode record = .ok value

theorem entry_eq_ok : store.entry record = .ok (key, value) ↔ store.Stores record key value := by
  constructor
  · intro h
    obtain ⟨schema, hschema, h⟩ := bind_eq_ok.mp h
    obtain ⟨⟨⟩, hcheck, h⟩ := bind_eq_ok.mp h
    obtain ⟨bytes, hkey, h⟩ := bind_eq_ok.mp h
    obtain ⟨encoded, hencoded, h⟩ := bind_eq_ok.mp h
    cases h
    obtain ⟨hentity, hbytes⟩ := RecordKey.encode_eq_ok.mp (mapError_eq_ok.mp hkey)
    exact ⟨⟨schema, Registry.resolve_eq_ok.mp (mapError_eq_ok.mp hschema),
      mapError_eq_ok.mp hcheck⟩, hentity, hbytes, mapError_eq_ok.mp hencoded⟩
  · rintro ⟨⟨schema, hschema, hcheck⟩, hentity, rfl, hencoded⟩
    have hkey : (RecordKey.of record).encode = .ok (RecordKey.of record).keyBytes :=
      RecordKey.encode_of_isEntity hentity
    simp [entry, Registry.resolve_eq_ok.mpr hschema, hcheck, hkey, hencoded]

-- A stored record is read as it was written but for its fields without a slot,
-- and then upgraded.
theorem Stores.decode (h : store.Stores record key value) :
    store.reader.decode key value = store.reader.answer record := by
  obtain ⟨schema, hschema, _⟩ := h.checked
  have hkey : RecordKey.decode key = .ok (RecordKey.of record) := by
    rw [h.key_eq]
    exact RecordKey.decode_keyBytes h.isEntity
  have hreceive : Codec.receive store.reader.registry store.reader.unknownFields record =
      .ok (store.reader.admitted record) := Reader.receive_eq_admitted hschema
  have hsame : RecordKey.of (store.reader.admitted record) = RecordKey.of record :=
    store.reader.key_admitted record
  simp [Reader.decode, Codec.decodeAny, hkey, Codec.decodeRaw_of_encode h.encoded, hreceive, hsame,
    Reader.answer]

-- A look at the table under the key, and then at what was found there.
theorem get?_of_isEntity {entity : String} (hentity : RecordKey.IsEntity entity)
    (timestamp : Timestamp) :
    store.get? entity timestamp =
      match store.storage.table.value? (RecordKey.mk entity timestamp.micros).keyBytes with
      | none => .ok none
      | some value =>
          (store.reader.decode (RecordKey.mk entity timestamp.micros).keyBytes value).map some := by
  have hkey : (RecordKey.mk entity timestamp.micros).encode =
      .ok (RecordKey.mk entity timestamp.micros).keyBytes := RecordKey.encode_of_isEntity hentity
  have hvalue : store.view.snapshot.value? (RecordKey.mk entity timestamp.micros).keyBytes =
      store.storage.table.value? (RecordKey.mk entity timestamp.micros).keyBytes := rfl
  rw [EventStore.get?, StoreView.get?, hkey, mapError_ok, ok_bind, hvalue]
  cases store.storage.table.value? (RecordKey.mk entity timestamp.micros).keyBytes with
  | none => rfl
  | some value => exact bind_ok_eq_map _ _

end EventStore

end Chronicle
