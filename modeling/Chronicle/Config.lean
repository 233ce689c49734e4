import Chronicle.StoreConfig

-- The configuration of the program: the store, the log, all schema versions and
-- the import profiles. Versions of a kind are bridged by upgrades that fill in
-- defaults.

namespace Chronicle

structure LoggingConfig where
  level : String
  -- Where the log is written; without one it goes to standard error.
  file : Option String
  -- Starts the file afresh.
  truncate : Bool

namespace LoggingConfig

def default : LoggingConfig := ⟨"info", none, false⟩

-- In an array the file cannot be left out.
def file? : Toml.Fields → Option (Option String)
  | .named entries => (Toml.Fields.named entries).optional 1 "file" Toml.string?
  | .listed items => ((Toml.Fields.listed items).required 1 "file" Toml.string?).map some

def ofToml? (tree : Toml) : Option LoggingConfig := do
  let fields ← Toml.Fields.ofToml? ["level", "file", "truncate"] tree
  some {
    level := ← fields.withDefault 0 "level" Toml.string? default.level
    file := ← file? fields
    truncate := ← fields.withDefault 2 "truncate" Toml.boolean? default.truncate }

end LoggingConfig

structure Config where
  store : StoreConfig
  logging : LoggingConfig
  -- In any order.
  schemas : List Schema
  imports : SortedMap String Import.Config

inductive ConfigError where
  | invalidSchema (cause : RecordError)
  -- A version adds a required field that no upgrade could fill in.
  | unbridgeable (kind : String) (version : UInt32) (field : String)
  deriving DecidableEq

def ConfigError.message : ConfigError → String
  | .invalidSchema cause => "invalid schema config: " ++ cause.message
  | .unbridgeable kind version field =>
      "'" ++ kind ++ "' v" ++ toString version.toNat ++ " adds required field '" ++ field ++
        "' without a default"

namespace Config

def ofToml? (tree : Toml) : Option Config := do
  let fields ← Toml.Fields.ofToml? ["store", "logging", "schemas", "imports"] tree
  let imports ← fields.withDefault 3 "imports" (Toml.mapOf? Import.Config.ofToml?) []
  some {
    store := ← fields.required 0 "store" StoreConfig.ofToml?
    logging := ← fields.withDefault 1 "logging" LoggingConfig.ofToml? LoggingConfig.default
    schemas := ← fields.withDefault 2 "schemas" (Toml.listOf? Schema.ofToml?) []
    imports := SortedMap.ofList imports }

def parse? (text : String) : Option Config := do ofToml? (.table (← Toml.parse? text))

-- By kind, then by version.
def isInOrder (first second : Schema) : Bool :=
  first.kind < second.kind || (first.kind = second.kind && first.version ≤ second.version)

def sortSchemas (schemas : List Schema) : List Schema := schemas.mergeSort isInOrder

-- A required slot that has no default and was not required under its tag before.
def isUnfillable (previous : Schema) (slot : Slot) : Bool :=
  slot.required && slot.default.isNone &&
    match previous.byTag? slot.tag with
    | some old => !old.required
    | none => true

-- The fields that the defaults of a schema stand for.
def defaultFields (schema : Schema) : List Field :=
  schema.slots.filterMap fun slot => slot.default.map fun value => ⟨slot.tag, slot.name, value⟩

def fillDefault (payload : Payload) (field : Field) : Payload :=
  if payload.contains field.name then payload else payload.insert field

-- Adds the fields whose names the payload lacks.
def fillDefaults (defaults : List Field) : Upgrade := fun payload =>
  defaults.foldl fillDefault payload

-- Adds a schema, and the upgrade to it when the schema before it is of the same
-- kind.
def addSchema (registry : Registry) (previous : Option Schema) (schema : Schema) :
    Except ConfigError Registry := do
  let registry ← (registry.register schema).mapError .invalidSchema
  match previous with
  | none => return registry
  | some previous =>
      if previous.kind ≠ schema.kind then return registry
      match schema.slots.find? (isUnfillable previous) with
      | some slot => throw (.unbridgeable schema.kind schema.version slot.name)
      | none =>
          let defaults :=
            match registry.schema? schema.kind schema.version with
            | some registered => defaultFields registered
            | none => []
          (registry.registerUpgrade previous.kind previous.version
            (fillDefaults defaults)).mapError .invalidSchema

def addSchemas : Registry → Option Schema → List Schema → Except ConfigError Registry
  | registry, _, [] => .ok registry
  | registry, previous, schema :: rest => do
      addSchemas (← addSchema registry previous schema) (some schema) rest

def registryOf (schemas : List Schema) : Except ConfigError Registry :=
  addSchemas ∅ none (sortSchemas schemas)

def registry (config : Config) : Except ConfigError Registry := registryOf config.schemas

end Config

end Chronicle
