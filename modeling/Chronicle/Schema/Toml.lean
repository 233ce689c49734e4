import Chronicle.Schema
import Chronicle.Value.Toml

-- Schemas in TOML texts.

namespace Chronicle

def FieldType.ofToml? : Toml → Option FieldType :=
  Toml.choice? (FieldType.all.map fun type => (type.name, type))

def word? (tree : Toml) : Option UInt32 := (tree.natural? 32).map UInt32.ofNat

def Slot.ofToml? (tree : Toml) : Option Slot := do
  let fields ← Toml.Fields.ofToml? ["tag", "name", "type", "required", "default"] tree
  some {
    tag := ← fields.required 0 "tag" word?
    name := ← fields.required 1 "name" Toml.string?
    type := ← fields.required 2 "type" FieldType.ofToml?
    required := ← fields.withDefault 3 "required" Toml.boolean? false
    default := ← fields.optional 4 "default" Value.ofToml? }

-- As it is written, not yet normalized.
def Schema.ofToml? (tree : Toml) : Option Schema := do
  let fields ← Toml.Fields.ofToml? ["kind", "version", "fields"] tree
  some {
    kind := ← fields.required 0 "kind" Toml.string?
    version := ← fields.required 1 "version" word?
    slots := ← fields.withDefault 2 "fields" (Toml.listOf? Slot.ofToml?) [] }

end Chronicle
