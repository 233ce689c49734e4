import Chronicle.Decimal.Binary64
import Chronicle.Wire.Element

-- The body of a stored record: a message of numbered fields. All numbers but
-- booleans have a fixed width; absent elements stand for zero, empty or none.

namespace Chronicle

namespace Body

structure Instant where
  micros : Int64
  offset : Option Int32
  deriving DecidableEq, Inhabited

inductive Value where
  | bool (b : Bool)
  | int (n : Int64)
  | uint (n : UInt64)
  | float (x : Binary64)
  | text (s : String)
  | bytes (bs : Bytes)
  | timestamp (t : Instant)
  deriving DecidableEq

structure Field where
  tag : UInt32
  name : String
  value : Option Value
  deriving DecidableEq

end Body

structure Body where
  kind : String
  version : UInt32
  entity : String
  timestamp : Option Body.Instant
  fields : List Body.Field
  deriving DecidableEq

namespace Body

open Wire

def ofBits64 (n : Nat) : Int64 := (UInt64.ofNat n).toInt64

def ofBits32 (n : Nat) : Int32 := (UInt32.ofNat n).toInt32

-- Writing. Elements stand in the order of their numbers.

def textElement (number : Nat) (text : String) : Bytes :=
  if text.isEmpty then [] else Element.ofDelimited number (Bytes.ofText text)

def wordElement (number : Nat) (word : UInt32) : Bytes :=
  if word = 0 then [] else Element.ofFixed32 number word.toNat

def Instant.encode (instant : Instant) : Bytes :=
  (if instant.micros = 0 then [] else Element.ofFixed64 1 instant.micros.toUInt64.toNat) ++
    match instant.offset with
    | none => []
    | some seconds => Element.ofFixed32 2 seconds.toUInt32.toNat

def Value.encode : Value → Bytes
  | .bool b => Element.ofVarint 3 (if b then 1 else 0)
  | .int n => Element.ofFixed64 4 n.toUInt64.toNat
  | .uint n => Element.ofFixed64 5 n.toNat
  | .float x => Element.ofFixed64 6 x.bits.toNat
  | .text s => Element.ofDelimited 7 (Bytes.ofText s)
  | .bytes bs => Element.ofDelimited 8 bs
  | .timestamp t => Element.ofDelimited 9 t.encode

def Field.encode (field : Field) : Bytes :=
  wordElement 1 field.tag ++ textElement 2 field.name ++
    match field.value with
    | none => []
    | some value => value.encode

def encode (body : Body) : Bytes :=
  textElement 1 body.kind ++ wordElement 2 body.version ++ textElement 3 body.entity ++
    (match body.timestamp with
      | none => []
      | some instant => Element.ofDelimited 4 instant.encode) ++
    body.fields.flatMap fun field => Element.ofDelimited 5 field.encode

-- Reading. A known number must come with its wire type; of several elements
-- with one number the last counts, but parts of one instant are put together.
-- Unknown numbers are passed over.

def Instant.addElement (instant : Instant) (element : Element) : Option Instant :=
  match element.number, element.content with
  | 1, .fixed64 n => some { instant with micros := ofBits64 n }
  | 1, _ => none
  | 2, .fixed32 n => some { instant with offset := some (ofBits32 n) }
  | 2, _ => none
  | _, _ => some instant

-- Reads into an instant that may hold something already.
def Instant.merge? (depth : Nat) (instant : Instant) (bytes : Bytes) : Option Instant := do
  (← elements? depth bytes).foldlM addElement instant

def Value.instantOr : Option Value → Instant
  | some (.timestamp instant) => instant
  | _ => ⟨0, none⟩

def Field.addElement (depth : Nat) (field : Field) (element : Element) : Option Field :=
  let set (value : Value) := some { field with value := some value }
  match element.number, element.content with
  | 1, .fixed32 n => some { field with tag := UInt32.ofNat n }
  | 2, .delimited bytes => do some { field with name := ← Bytes.toText? bytes }
  | 3, .varint n => set (.bool (n ≠ 0))
  | 4, .fixed64 n => set (.int (ofBits64 n))
  | 5, .fixed64 n => set (.uint (UInt64.ofNat n))
  | 6, .fixed64 n => set (.float (Binary64.ofNatBits n))
  | 7, .delimited bytes => do set (.text (← Bytes.toText? bytes))
  | 8, .delimited bytes => set (.bytes bytes)
  | 9, .delimited bytes => do
      set (.timestamp (← (Value.instantOr field.value).merge? (depth - 1) bytes))
  | number, _ => if 1 ≤ number ∧ number ≤ 9 then none else some field

def Field.decode? (depth : Nat) (bytes : Bytes) : Option Field := do
  (← elements? depth bytes).foldlM (addElement depth) ⟨0, "", none⟩

def addElement (depth : Nat) (body : Body) (element : Element) : Option Body :=
  match element.number, element.content with
  | 1, .delimited bytes => do some { body with kind := ← Bytes.toText? bytes }
  | 2, .fixed32 n => some { body with version := UInt32.ofNat n }
  | 3, .delimited bytes => do some { body with entity := ← Bytes.toText? bytes }
  | 4, .delimited bytes => do
      let instant := body.timestamp.getD ⟨0, none⟩
      some { body with timestamp := some (← instant.merge? (depth - 1) bytes) }
  -- Fields are gathered in reverse.
  | 5, .delimited bytes => do
      some { body with fields := (← Field.decode? (depth - 1) bytes) :: body.fields }
  | number, _ => if 1 ≤ number ∧ number ≤ 5 then none else some body

-- Messages and groups may be nested this deep.
def maxDepth : Nat := 100

def decode? (bytes : Bytes) : Option Body := do
  let body ← (← elements? maxDepth bytes).foldlM (addElement maxDepth) ⟨"", 0, "", none, []⟩
  some { body with fields := body.fields.reverse }

end Body

end Chronicle
