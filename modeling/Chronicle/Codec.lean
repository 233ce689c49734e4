import Chronicle.Frame
import Chronicle.Registry

-- Records as stored frames, and what a reader who knows the schemas makes of
-- them.

namespace Chronicle.Codec

def ofTimestamp (t : Timestamp) : Body.Instant :=
  ⟨t.micros, t.offset.map fun offset => Int32.ofInt offset.seconds⟩

def toTimestamp (instant : Body.Instant) : Except Corruption Timestamp :=
  match instant.offset with
  | none => .ok ⟨instant.micros, none⟩
  | some seconds =>
      match Offset.ofSeconds? seconds.toInt with
      | some offset => .ok ⟨instant.micros, some offset⟩
      | none => .error (.badOffset seconds.toInt)

def ofValue : Value → Body.Value
  | .bool b => .bool b
  | .int n => .int n
  | .uint n => .uint n
  | .float x => .float x
  | .text s => .text s
  | .bytes bs => .bytes bs
  | .timestamp t => .timestamp (ofTimestamp t)

def toValue : Body.Value → Except Corruption Value
  | .bool b => .ok (.bool b)
  | .int n => .ok (.int n)
  | .uint n => .ok (.uint n)
  | .float x => .ok (.float x)
  | .text s => .ok (.text s)
  | .bytes bs => .ok (.bytes bs)
  | .timestamp t => do return .timestamp (← toTimestamp t)

def ofRecord (record : Record) : Body :=
  { kind := record.kind
    version := record.version
    entity := record.entity
    timestamp := some (ofTimestamp record.timestamp)
    fields := record.payload.toList.map fun field =>
      ⟨field.tag, field.name, some (ofValue field.value)⟩ }

-- Every field needs a value and a name of its own.
def addField (payload : Payload) (field : Body.Field) : Except Corruption Payload :=
  match field.value with
  | none => .error (.noValue field.name)
  | some value => do
      let value ← toValue value
      if payload.contains field.name then .error .repeatedName
      else .ok (payload.insert ⟨field.tag, field.name, value⟩)

def toRecord (body : Body) : Except Corruption Record := do
  match body.timestamp with
  | none => .error .noTimestamp
  | some instant =>
      let timestamp ← toTimestamp instant
      let payload ← body.fields.foldlM addField ∅
      .ok ⟨body.kind, body.entity, timestamp, body.version, payload⟩

def encode (record : Record) : Except RecordError Bytes := Frame.pack (ofRecord record)

-- A frame as a record, without a look at any schema.
def decodeRaw (bytes : Bytes) : Except RecordError Record :=
  (Frame.unpack bytes >>= toRecord).mapError .corrupt

-- What becomes of fields without a slot in the record's schema version.
inductive UnknownFields where
  | preserve
  | drop
  deriving DecidableEq

-- A stored record as the reader of a registry sees it.
def receive (registry : Registry) (unknown : UnknownFields) (record : Record) :
    Except RecordError Record := do
  let schema ← registry.resolve record.kind record.version
  match unknown with
  | .preserve => .ok record
  | .drop => .ok (record.withPayload (record.payload.filter schema.knows))

def decodeAny (registry : Registry) (unknown : UnknownFields) (bytes : Bytes) :
    Except RecordError Record := do
  receive registry unknown (← decodeRaw bytes)

-- A record that must be of one kind.
def decode (registry : Registry) (unknown : UnknownFields) (bytes : Bytes) (kind : String) :
    Except RecordError Record := do
  let record ← decodeRaw bytes
  if record.kind ≠ kind then .error (.kindMismatch kind record.kind)
  else receive registry unknown record

end Chronicle.Codec
