import Chronicle.Toml

-- Reading typed values out of TOML trees. A group of fields is a table, whose
-- other entries need only be legible, or an array that lists the fields in order
-- and may go on with anything.

namespace Chronicle.Toml

mutual

-- Whether all numbers have values and the integers among them lie in a range
-- without its upper end.
def fits (lower upper : Int) : Toml → Bool
  | .integer n => lower ≤ n && n < upper
  | .illegible => false
  | .array items => itemsFit lower upper items
  | .table entries => entriesFit lower upper entries
  | _ => true

def itemsFit (lower upper : Int) : List Toml → Bool
  | [] => true
  | item :: rest => fits lower upper item && itemsFit lower upper rest

def entriesFit (lower upper : Int) : List (String × Toml) → Bool
  | [] => true
  | (_, item) :: rest => fits lower upper item && entriesFit lower upper rest

end

-- Integers of up to 128 bits, signed or not, are legible.
def isLegible (tree : Toml) : Bool := tree.fits (-twoTo 127) (twoTo 128)

def string? : Toml → Option String
  | .string s => some s
  | _ => none

def boolean? : Toml → Option Bool
  | .boolean b => some b
  | _ => none

-- An unsigned integer of so many bits.
def natural? (bits : Nat) : Toml → Option Nat
  | .integer n => if 0 ≤ n ∧ n < twoTo bits then some n.toNat else none
  | _ => none

def listOf? {α : Type} (decode : Toml → Option α) : Toml → Option (List α)
  | .array items => items.mapM decode
  | _ => none

-- The one entry of a date or time, which is seen as a table where one is wanted.
def momentEntry : String := "$__toml_private_datetime"

def entries? : Toml → Option (List (String × Toml))
  | .table entries => some entries
  | .moment m => some [(momentEntry, .string m.render)]
  | _ => none

def mapOf? {α : Type} (decode : Toml → Option α) (tree : Toml) : Option (List (String × α)) := do
  (← tree.entries?).mapM fun entry => do some (entry.1, ← decode entry.2)

-- One of several names, by itself or as the only entry of a table with nothing
-- below it.
def choice? {α : Type} (choices : List (String × α)) (tree : Toml) : Option α := do
  let name ←
    match tree with
    | .string s => some s
    | .table [(name, .table [])] => some name
    | .table [(name, .array [])] => some name
    | _ => none
  (choices.find? fun choice => choice.1 = name).map (·.2)

inductive Fields where
  | named (entries : List (String × Toml))
  | listed (items : List Toml)

namespace Fields

-- The entries of a table, where `admits` holds of those that are not fields of
-- these names.
def ofEntries? (names : List String) (admits : Toml → Bool) (entries : List (String × Toml)) :
    Option Fields :=
  if entries.all fun entry => names.contains entry.1 || admits entry.2 then some (.named entries)
  else none

def ofToml? (names : List String) : Toml → Option Fields
  | .array items => some (.listed items)
  | tree => do ofEntries? names isLegible (← tree.entries?)

-- The field of this name, or at this place.
def find? (fields : Fields) (place : Nat) (name : String) : Option Toml :=
  match fields with
  | .named entries => (entries.find? fun entry => entry.1 = name).map (·.2)
  | .listed items => items[place]?

def required {α : Type} (fields : Fields) (place : Nat) (name : String)
    (decode : Toml → Option α) : Option α := do
  decode (← fields.find? place name)

-- A missing field has its default value.
def withDefault {α : Type} (fields : Fields) (place : Nat) (name : String)
    (decode : Toml → Option α) (default : α) : Option α :=
  match fields.find? place name with
  | some tree => decode tree
  | none => some default

-- A field that may be missing.
def optional {α : Type} (fields : Fields) (place : Nat) (name : String)
    (decode : Toml → Option α) : Option (Option α) :=
  fields.withDefault place name (fun tree => (decode tree).map some) none

end Fields

end Chronicle.Toml
