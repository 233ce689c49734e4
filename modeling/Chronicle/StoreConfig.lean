import Chronicle.Import.Config
import Chronicle.Storage

-- Where a store is and how it reads.

namespace Chronicle

-- What a read does at an entry that is no record.
inductive DecodePolicy where
  -- Counts it and goes on.
  | skip
  -- Answers the error and ends.
  | strict
  deriving DecidableEq

def DecodePolicy.name : DecodePolicy → String
  | .skip => "skip"
  | .strict => "strict"

def DecodePolicy.ofToml? : Toml → Option DecodePolicy :=
  Toml.choice? [(DecodePolicy.skip.name, .skip), (DecodePolicy.strict.name, .strict)]

structure StoreConfig where
  path : String
  decode : DecodePolicy
  unknownFields : Codec.UnknownFields
  storage : StorageOptions

namespace StoreConfig

def storageOptions? (fields : Toml.Fields) : Option StorageOptions := do
  let default := StorageOptions.default
  let number (name : String) (value : Nat) : Option Nat :=
    fields.withDefault 0 name (Toml.natural? 64) value
  some {
    busyTimeout := ← number "busy_timeout_ms" default.busyTimeout
    pageSize := ← number "page_size" default.pageSize
    maxIdleReaders := ← number "max_idle_readers" default.maxIdleReaders }

-- The options of the storage stand among the other fields, so they have no
-- order and must be named. What could be an option has no integer of more than
-- 64 bits.
def ofToml? (tree : Toml) : Option StoreConfig := do
  let fields ←
    Toml.Fields.ofEntries? ["path", "decode", "unknown_fields"]
      (Toml.fits (-twoTo 63) (twoTo 64)) (← tree.entries?)
  some {
    path := ← fields.required 0 "path" Toml.string?
    decode := ← fields.withDefault 0 "decode" DecodePolicy.ofToml? .skip
    unknownFields :=
      ← fields.withDefault 0 "unknown_fields" Codec.UnknownFields.ofToml? .preserve
    storage := ← storageOptions? fields }

def parse? (text : String) : Option StoreConfig := do ofToml? (.table (← Toml.parse? text))

end StoreConfig

end Chronicle
