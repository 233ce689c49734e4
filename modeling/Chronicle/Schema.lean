import Chronicle.Payload

-- Schemas: the fields that one version of a record kind has slots for, the
-- check of a payload against them, and the rules that schemas themselves obey.

namespace Chronicle

structure Slot where
  tag : UInt32
  name : String
  type : FieldType
  required : Bool
  -- The value of an optional field that an import leaves absent.
  default : Option Value
  deriving DecidableEq

structure Schema where
  kind : String
  version : UInt32
  slots : List Slot
  deriving DecidableEq

-- Why a payload does not fit a schema.
inductive Violation where
  | missingField (field : String)
  | typeMismatch (field : String) (expected found : FieldType)
  | tagConflict (field : String) (expected found : UInt32)
  deriving DecidableEq

def Violation.code : Violation → String
  | .missingField _ => "missing_field"
  | .typeMismatch _ _ _ => "type_mismatch"
  | .tagConflict _ _ _ => "tag_conflict"

def Violation.message : Violation → String
  | .missingField field => "missing required field '" ++ field ++ "'"
  | .typeMismatch field expected found =>
      "field '" ++ field ++ "' expects " ++ expected.name ++ ", found " ++ found.name
  | .tagConflict field expected found =>
      "field '" ++ field ++ "' carries tag " ++ toString found.toNat ++ ", schema assigns tag " ++
        toString expected.toNat

-- Why a schema is refused.
inductive SchemaDefect where
  | emptyKind
  | versionZero
  | reservedTag (field : String)
  | repeatedTag (tag : UInt32)
  | badName (field : String)
  | badDefault (field : String) (found expected : FieldType)
  | oldVersion (latest : UInt32)
  | tagTaken (slot : Slot) (version : UInt32)
  | nameTaken (slot : Slot) (version : UInt32)
  deriving DecidableEq

def SchemaDefect.message : SchemaDefect → String
  | .emptyKind => "kind must not be empty"
  | .versionZero => "versions start at 1"
  | .reservedTag field => "field '" ++ field ++ "' uses reserved tag 0"
  | .repeatedTag tag => "tag " ++ toString tag.toNat ++ " is used twice"
  | .badName field => "field name '" ++ field ++ "' is empty or repeated"
  | .badDefault field found expected =>
      "default of '" ++ field ++ "' is " ++ found.name ++ ", field is " ++ expected.name
  | .oldVersion latest => "versions must increase (latest is v" ++ toString latest.toNat ++ ")"
  | .tagTaken slot version =>
      "tag " ++ toString slot.tag.toNat ++ " was '" ++ slot.name ++ "' (" ++ slot.type.name ++
        ") in v" ++ toString version.toNat
  | .nameTaken slot version =>
      "field '" ++ slot.name ++ "' was tag " ++ toString slot.tag.toNat ++ " in v" ++
        toString version.toNat

namespace Schema

def byTag? (schema : Schema) (tag : UInt32) : Option Slot :=
  schema.slots.find? fun slot => slot.tag = tag

def byName? (schema : Schema) (name : String) : Option Slot :=
  schema.slots.find? fun slot => slot.name = name

-- Whether a field sits in a slot: its tag is a slot's tag, under that slot's name.
def knows (schema : Schema) (field : Field) : Bool :=
  field.tag ≠ Field.untagged &&
    match schema.byTag? field.tag with
    | some slot => slot.name = field.name
    | none => false

-- One field against the schema. A field without a slot is none of its concern,
-- unless it carries a slot's tag under another name.
def checkField (schema : Schema) (field : Field) : Except Violation Unit :=
  match schema.byName? field.name with
  | none =>
      match schema.byTag? field.tag with
      | some _ => .error (.tagConflict field.name Field.untagged field.tag)
      | none => .ok ()
  | some slot =>
      if slot.tag ≠ field.tag then .error (.tagConflict field.name slot.tag field.tag)
      else if slot.type ≠ field.value.type then
        .error (.typeMismatch field.name slot.type field.value.type)
      else .ok ()

def checkRequired (payload : Payload) (slot : Slot) : Except Violation Unit :=
  if slot.required && !payload.contains slot.name then .error (.missingField slot.name)
  else .ok ()

-- The first violation: of the fields in payload order, then of the required
-- slots in schema order.
def check (schema : Schema) (payload : Payload) : Except Violation Unit := do
  payload.toList.forM schema.checkField
  schema.slots.forM (checkRequired payload)

-- The slots obey the rules, given the tags and names of the slots before them.
def checkSlots : List Slot → List Slot → Except SchemaDefect Unit
  | _, [] => .ok ()
  | seen, slot :: rest =>
      if slot.tag = Field.untagged then .error (.reservedTag slot.name)
      else if seen.any fun other => other.tag = slot.tag then .error (.repeatedTag slot.tag)
      else if slot.name.isEmpty || seen.any fun other => other.name = slot.name then
        .error (.badName slot.name)
      else checkSlots (slot :: seen) rest

-- The default as a value of the slot's type.
def normalizeSlot (slot : Slot) : Except SchemaDefect Slot :=
  match slot.default with
  | none => .ok slot
  | some value =>
      match value.coerce? slot.type with
      | some coerced => .ok { slot with default := some coerced }
      | none => .error (.badDefault slot.name value.type slot.type)

-- The schema with its defaults in their slots' types, if it obeys the rules.
def normalize (schema : Schema) : Except SchemaDefect Schema := do
  if schema.kind.isEmpty then throw .emptyKind
  if schema.version = 0 then throw .versionZero
  checkSlots [] schema.slots
  let slots ← schema.slots.mapM normalizeSlot
  return { schema with slots := slots }

-- One slot of an older version against a newer schema: its tag keeps name and
-- type, and its name keeps the tag, if the newer schema has them.
def checkKept (schema : Schema) (version : UInt32) (old : Slot) : Except SchemaDefect Unit := do
  match schema.byTag? old.tag with
  | some slot =>
      if slot.name ≠ old.name ∨ slot.type ≠ old.type then throw (.tagTaken old version)
  | none => pure ()
  match schema.byName? old.name with
  | some slot => if slot.tag ≠ old.tag then throw (.nameTaken old version)
  | none => pure ()

-- A newer schema only appends to an older one.
def checkExtends (schema older : Schema) : Except SchemaDefect Unit :=
  older.slots.forM (schema.checkKept older.version)

end Schema

end Chronicle
