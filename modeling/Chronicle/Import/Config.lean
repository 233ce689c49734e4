import Chronicle.Codec
import Chronicle.Schema.Toml
import Chronicle.Toml.Reader

-- How the entries of a document map onto records of one kind.

namespace Chronicle

def Codec.UnknownFields.ofToml? : Toml → Option Codec.UnknownFields :=
  Toml.choice? [("preserve", .preserve), ("drop", .drop)]

namespace Import

inductive Format where
  | json
  | toml
  deriving DecidableEq

-- The name of the format, which is also the extension of its files.
def Format.name : Format → String
  | .json => "json"
  | .toml => "toml"

def Format.ofToml? : Toml → Option Format :=
  Toml.choice? [(Format.json.name, .json), (Format.toml.name, .toml)]

-- Paths are dotted and lead from an entry, but for `records`, which leads from
-- the document to the array of its entries.
structure Config where
  kind : String
  format : Format
  records : String
  entity : String
  timestamp : String
  -- The pattern of timestamps; without one, ISO 8601 forms are read.
  timestampFormat : Option String
  -- The offset of timestamps that have none.
  timezone : Option String
  -- The paths of fields that are not found under their own names.
  fields : SortedMap String String
  -- The values of absent fields, which go before those of the schema.
  defaults : SortedMap String Value
  unknownFields : Codec.UnknownFields
  -- Longer documents are refused unread.
  maxDocument : Nat

namespace Config

-- Everything but the kind has a default.
def ofKind (kind : String) : Config :=
  { kind := kind
    format := .json
    records := "records"
    entity := "entity"
    timestamp := "timestamp"
    timestampFormat := none
    timezone := none
    fields := ∅
    defaults := ∅
    unknownFields := .preserve
    maxDocument := 16777216 }

-- The names of the fields in their order.
def fieldNames : List String :=
  ["kind", "format", "records", "entity", "timestamp", "timestamp_format", "timezone", "fields",
    "defaults", "unknown_fields", "max_document_bytes"]

def ofToml? (tree : Toml) : Option Config := do
  let fields ← Toml.Fields.ofToml? fieldNames tree
  let kind ← fields.required 0 "kind" Toml.string?
  let default := ofKind kind
  let paths ← fields.withDefault 7 "fields" (Toml.mapOf? Toml.string?) []
  let values ← fields.withDefault 8 "defaults" (Toml.mapOf? Value.ofToml?) []
  some {
    kind := kind
    format := ← fields.withDefault 1 "format" Format.ofToml? default.format
    records := ← fields.withDefault 2 "records" Toml.string? default.records
    entity := ← fields.withDefault 3 "entity" Toml.string? default.entity
    timestamp := ← fields.withDefault 4 "timestamp" Toml.string? default.timestamp
    timestampFormat := ← fields.optional 5 "timestamp_format" Toml.string?
    timezone := ← fields.optional 6 "timezone" Toml.string?
    fields := SortedMap.ofList paths
    defaults := SortedMap.ofList values
    unknownFields :=
      ← fields.withDefault 9 "unknown_fields" Codec.UnknownFields.ofToml? default.unknownFields
    maxDocument :=
      ← fields.withDefault 10 "max_document_bytes" (Toml.natural? 64) default.maxDocument }

def parse? (text : String) : Option Config := do ofToml? (.table (← Toml.parse? text))

end Config

end Import

end Chronicle
