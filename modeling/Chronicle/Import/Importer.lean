import Chronicle.Import.Document
import Chronicle.Import.Error
import Chronicle.Import.Recognizer
import Chronicle.Import.Rejection
import Chronicle.RecordKey
import Chronicle.Value.Json

-- From a document to records: its entries are taken out as a batch, and each of
-- them becomes a record under a schema or is rejected.

namespace Chronicle.Import

-- An entry by its position in the document.
structure Candidate where
  index : Nat
  entry : Json

structure Batch where
  kind : String
  candidates : List Candidate
  notes : List Note

-- Every candidate is in one of the two lists, both in document order.
structure Validation where
  accepted : List Record
  rejected : List Rejection

namespace Validation

def empty : Validation := ⟨[], []⟩

def total (validation : Validation) : Nat :=
  validation.accepted.length + validation.rejected.length

end Validation

-- Where the value of a slot is found, and what stands for an absent one.
structure Source where
  slot : Slot
  path : String
  default : Option Value

structure Importer where
  config : Config
  recognizer : Recognizer

namespace Importer

def ofConfig (config : Config) : Except Error Importer :=
  match Recognizer.zone? config.timezone with
  | some zone => .ok ⟨config, ⟨config.timestampFormat, zone⟩⟩
  | none => .error (.config (.badTimezone (config.timezone.getD "")))

def candidates (entries : List Json) : List Candidate :=
  entries.zipIdx.map fun entry => ⟨entry.2, entry.1⟩

-- The entries of a document.
def parse (importer : Importer) (document : String) : Except Error Batch :=
  let config := importer.config
  let refuse (reason : Malformation) : Except Error Batch :=
    .error (.malformed config.format reason)
  if config.maxDocument < document.utf8ByteSize then
    refuse (.tooLong document.utf8ByteSize config.maxDocument)
  else
    match document? config.format document with
    | none => refuse .unreadable
    | some (tree, notes) =>
        match tree.take? config.records with
        | none => refuse (.missingRecords config.records)
        | some (.array entries, _) => .ok ⟨config.kind, candidates entries, notes⟩
        | some (other, _) => refuse (.notAnArray config.records other.typeName)

-- Every name in the configuration is a field of the schema.
def checkNames (config : Config) (schema : Schema) : Except Error Unit :=
  match (config.fields.keys ++ config.defaults.keys).find?
      fun name => (schema.byName? name).isNone with
  | some field => .error (.unknownField schema.kind field)
  | none => .ok ()

def source (config : Config) (slot : Slot) : Except Error Source :=
  let path := (config.fields.get? slot.name).getD slot.name
  match config.defaults.get? slot.name with
  | none => .ok ⟨slot, path, slot.default⟩
  | some value =>
      match value.coerce? slot.type with
      | some value => .ok ⟨slot, path, some value⟩
      | none => .error (.config (.badDefault slot.name slot.type))

def sources (config : Config) (schema : Schema) : Except Error (List Source) := do
  checkNames config schema
  schema.slots.mapM (source config)

-- The top-level names of an entry that are spoken for.
def consumed (config : Config) (sources : List Source) : List String :=
  Json.root config.entity :: Json.root config.timestamp ::
    sources.map fun source => Json.root source.path

-- The entity is a text that is not blank, or a number.
def entityText? : Json → Option String
  | .string s => if Text.trim s.toList = [] then none else some s
  | .number n => some n.render
  | _ => none

def entity (config : Config) (entry : Json) : Except Reason String :=
  match (entry.lookup config.entity).bind entityText? with
  | none => .error (.missingEntity config.entity)
  | some text =>
      if RecordKey.maxEntity < text.utf8ByteSize then
        .error (.longEntity text.utf8ByteSize RecordKey.maxEntity)
      else .ok text

def present? : Option Json → Option Json
  | some .null => none
  | found => found

def timestamp (importer : Importer) (entry : Json) : Except Reason Timestamp :=
  let path := importer.config.timestamp
  match present? (entry.lookup path) with
  | none => .error (.missingTimestamp path)
  | some tree =>
      match importer.recognizer.read? tree with
      | some timestamp => .ok timestamp
      | none => .error (.badTimestamp tree.render)

-- An entry's value as one of a slot's type.
def convert? (importer : Importer) (type : FieldType) (tree : Json) : Option Value :=
  if type = .timestamp then (importer.recognizer.read? tree).map .timestamp
  else (Value.ofJson? tree).bind fun value => value.coerce? type

-- The field of a slot, if the entry or a default gives it a value.
def field? (importer : Importer) (entry : Json) (source : Source) : Except Reason (Option Field) :=
  let slot := source.slot
  match present? (entry.lookup source.path) with
  | some tree =>
      match importer.convert? slot.type tree with
      | some value => .ok (some ⟨slot.tag, slot.name, value⟩)
      | none => .error (.typeMismatch slot.name slot.type tree.typeName)
  | none =>
      match source.default with
      | some value => .ok (some ⟨slot.tag, slot.name, value⟩)
      | none => if slot.required then .error (.missingField slot.name) else .ok none

-- A member that no slot and no path speaks for, as a field without a tag.
def extraField? (schema : Schema) (consumed : List String) (member : String × Json) :
    Option Field :=
  let (name, tree) := member
  if tree.isNull || consumed.contains name || (schema.byName? name).isSome then none
  else some ⟨Field.untagged, name, Value.ofJson tree⟩

def extraFields (config : Config) (schema : Schema) (consumed : List String)
    (members : List (String × Json)) : List Field :=
  match config.unknownFields with
  | .preserve => members.filterMap (extraField? schema consumed)
  | .drop => []

-- The record of an entry.
def record (importer : Importer) (schema : Schema) (sources : List Source) (entry : Json) :
    Except Reason Record :=
  match entry with
  | .object members => do
      let config := importer.config
      let entity ← entity config entry
      let timestamp ← importer.timestamp entry
      let fields ← sources.mapM (importer.field? entry)
      let extra := extraFields config schema (consumed config sources) members
      return ⟨schema.kind, entity, timestamp, schema.version,
        Payload.ofList (fields.filterMap id ++ extra)⟩
  | _ => .error .notAnObject

-- The record of an entry, unless one of the same key was accepted before.
def verdict (importer : Importer) (schema : Schema) (sources : List Source)
    (seen : List (RecordKey × Nat)) (entry : Json) : Except Reason Record := do
  let record ← importer.record schema sources entry
  match seen.find? fun first => first.1 = RecordKey.of record with
  | some first => throw (.duplicate record.entity record.timestamp first.2)
  | none => return record

def validateFrom (importer : Importer) (schema : Schema) (sources : List Source) :
    (seen : List (RecordKey × Nat)) → List Candidate → Validation
  | _, [] => Validation.empty
  | seen, candidate :: rest =>
      match importer.verdict schema sources seen candidate.entry with
      | .ok record =>
          let validation :=
            validateFrom importer schema sources
              ((RecordKey.of record, candidate.index) :: seen) rest
          { validation with accepted := record :: validation.accepted }
      | .error reason =>
          let validation := validateFrom importer schema sources seen rest
          { validation with
            rejected := ⟨candidate.index, candidate.entry, reason⟩ :: validation.rejected }

-- Only the configuration can make this fail; entries are accepted or rejected.
def validate (importer : Importer) (batch : Batch) (schema : Schema) : Except Error Validation := do
  if batch.kind ≠ schema.kind then throw (.config (.otherKind batch.kind schema.kind))
  let sources ← sources importer.config schema
  return importer.validateFrom schema sources [] batch.candidates

end Importer

end Chronicle.Import
