import Chronicle.Record
import Chronicle.RecordError
import Chronicle.SortedMap

-- The schema versions of every known kind, and the upgrades between them.

namespace Chronicle

-- An upgrade turns a payload of one version into one of the next version.
abbrev Upgrade := Payload → Payload

structure Lineage where
  versions : SortedMap UInt32 Schema
  -- By the version that the upgrade starts from.
  upgrades : SortedMap UInt32 Upgrade

namespace Lineage

def empty : Lineage := ⟨∅, ∅⟩

def latest? (lineage : Lineage) : Option Schema := lineage.versions.last?

def latestVersion (lineage : Lineage) : UInt32 :=
  match lineage.latest? with
  | some schema => schema.version
  | none => 0

-- The least registered version above another.
def nextVersion? (lineage : Lineage) (version : UInt32) : Option UInt32 :=
  lineage.versions.keys.find? fun other => version < other

-- A new version comes after all others and only appends to each of them.
def checkNew (lineage : Lineage) (schema : Schema) : Except SchemaDefect Unit := do
  match lineage.latest? with
  | some latest => if schema.version ≤ latest.version then throw (.oldVersion latest.version)
  | none => pure ()
  lineage.versions.values.forM schema.checkExtends

-- Applies upgrades from version to version up to the latest one. The versions
-- ahead bound the number of steps.
def climb (lineage : Lineage) (kind : String) :
    (ahead : List UInt32) → UInt32 → Payload → Except RecordError Payload
  | [], _, payload => .ok payload
  | next :: ahead, version, payload =>
      match lineage.upgrades.get? version with
      | none => .error (.missingUpgrade kind version)
      | some upgrade => climb lineage kind ahead next (upgrade payload)

end Lineage

structure Registry where
  kinds : SortedMap String Lineage

namespace Registry

def empty : Registry := ⟨∅⟩

instance : EmptyCollection Registry := ⟨empty⟩

instance : Inhabited Registry := ⟨empty⟩

def schema? (registry : Registry) (kind : String) (version : UInt32) : Option Schema := do
  (← registry.kinds.get? kind).versions.get? version

def latest? (registry : Registry) (kind : String) : Option Schema := do
  (← registry.kinds.get? kind).latest?

def lineage (registry : Registry) (kind : String) : Except RecordError Lineage :=
  match registry.kinds.get? kind with
  | some lineage => .ok lineage
  | none => .error (.unknownKind kind)

-- The lineage of a kind, and the registry with a place for it.
def enter (registry : Registry) (kind : String) : Lineage × Registry :=
  match registry.kinds.get? kind with
  | some lineage => (lineage, registry)
  | none => (Lineage.empty, ⟨registry.kinds.insert kind Lineage.empty⟩)

-- Adds a schema, normalized, and answers what came of it and the registry as it
-- is left. Versions of a kind come in ascending order. The kind gets its place
-- before the schema is compared with the versions there.
def enroll (registry : Registry) (schema : Schema) : Except RecordError Unit × Registry :=
  let refuse (defect : SchemaDefect) := RecordError.invalidSchema schema.kind schema.version defect
  match schema.normalize with
  | .error defect => (.error (refuse defect), registry)
  | .ok schema =>
      let (lineage, registry) := registry.enter schema.kind
      match lineage.checkNew schema with
      | .error defect => (.error (refuse defect), registry)
      | .ok () =>
          let versions := lineage.versions.insert schema.version schema
          (.ok (), ⟨registry.kinds.insert schema.kind { lineage with versions := versions }⟩)

-- The registry with a schema added.
def register (registry : Registry) (schema : Schema) : Except RecordError Registry :=
  match registry.enroll schema with
  | (.ok (), next) => .ok next
  | (.error error, _) => .error error

-- The schema that a record of this version was written under.
def resolve (registry : Registry) (kind : String) (version : UInt32) :
    Except RecordError Schema := do
  let lineage ← registry.lineage kind
  match lineage.versions.get? version with
  | some schema => .ok schema
  | none => .error (.unsupportedSchema kind version lineage.latestVersion)

-- Sets the upgrade from a registered version to the one after it, and answers what came
-- of it and the registry as it is left.
def link (registry : Registry) (kind : String) (version : UInt32) (upgrade : Upgrade) :
    Except RecordError Unit × Registry :=
  match registry.kinds.get? kind with
  | none => (.error (.unknownKind kind), registry)
  | some lineage =>
      if lineage.versions.contains version then
        let upgrades := lineage.upgrades.insert version upgrade
        (.ok (), ⟨registry.kinds.insert kind { lineage with upgrades := upgrades }⟩)
      else (.error (.unsupportedSchema kind version lineage.latestVersion), registry)

-- The registry with an upgrade set.
def registerUpgrade (registry : Registry) (kind : String) (version : UInt32) (upgrade : Upgrade) :
    Except RecordError Registry :=
  match registry.link kind version upgrade with
  | (.ok (), next) => .ok next
  | (.error error, _) => .error error

-- The record at the latest version of its kind, one upgrade per step between
-- versions.
def upgrade (registry : Registry) (record : Record) : Except RecordError Record := do
  let lineage ← registry.lineage record.kind
  let latest := lineage.latestVersion
  if latest < record.version then
    .error (.unsupportedSchema record.kind record.version latest)
  else
    let ahead := lineage.versions.keys.filter fun version => record.version < version
    let payload ← lineage.climb record.kind ahead record.version record.payload
    .ok { record with version := latest, payload := payload }

-- Every kind with its versions, for messages.
def describe (registry : Registry) : String :=
  let kind (entry : String × Lineage) :=
    Text.quote entry.1 ++ ": [" ++
      ", ".intercalate (entry.2.versions.keys.map fun version => toString version.toNat) ++ "]"
  "\x7b" ++ ", ".intercalate (registry.kinds.toList.map kind) ++ "\x7d"

end Registry

end Chronicle
