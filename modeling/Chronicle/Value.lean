import Chronicle.Bytes
import Chronicle.Decimal.Notation
import Chronicle.Text.Quoted
import Chronicle.Timestamp.Display
import Chronicle.Timestamp.Rfc3339

-- Typed field values and the conversions between their types that lose nothing.

namespace Chronicle

inductive FieldType where
  | bool | int | uint | float | text | bytes | timestamp
  deriving DecidableEq

def FieldType.name : FieldType → String
  | .bool => "bool"
  | .int => "int"
  | .uint => "uint"
  | .float => "float"
  | .text => "text"
  | .bytes => "bytes"
  | .timestamp => "timestamp"

def FieldType.all : List FieldType := [.bool, .int, .uint, .float, .text, .bytes, .timestamp]

def FieldType.ofName? (name : String) : Option FieldType :=
  FieldType.all.find? fun type => type.name = name

-- Floats are equal when their bits are, so a value equals what is read back
-- after it was written.
inductive Value where
  | bool (b : Bool)
  | int (n : Int64)
  | uint (n : UInt64)
  | float (x : Binary64)
  | text (s : String)
  | bytes (bs : Bytes)
  | timestamp (t : Timestamp)
  deriving DecidableEq

namespace Value

def type : Value → FieldType
  | .bool _ => .bool
  | .int _ => .int
  | .uint _ => .uint
  | .float _ => .float
  | .text _ => .text
  | .bytes _ => .bytes
  | .timestamp _ => .timestamp

def ofInt? (n : Int) : Option Value :=
  if -twoTo 63 ≤ n ∧ n < twoTo 63 then some (.int (Int64.ofInt n)) else none

def ofNat? (n : Int) : Option Value :=
  if 0 ≤ n ∧ n < twoTo 64 then some (.uint (UInt64.ofNat n.toNat)) else none

-- Integers up to this magnitude are exact as floats.
def exactBound : Nat := twoTo 53

def floatOfInt? (n : Int) : Option Value :=
  if n.natAbs ≤ exactBound then some (.float (Binary64.ofInt n)) else none

-- The integer that a float stands for exactly.
def exactInt? (x : Binary64) : Option Int := do
  let n ← x.toInt?
  if n.natAbs ≤ exactBound then some n else none

-- The value as one of another type, when nothing is lost: integers among
-- signed, unsigned and float while in range, text to its bytes, and text that
-- is RFC 3339 to a timestamp.
def coerce? (value : Value) (type : FieldType) : Option Value :=
  if value.type = type then some value
  else
    match value, type with
    | .int n, .uint => ofNat? n.toInt
    | .uint n, .int => ofInt? n.toNat
    | .int n, .float => floatOfInt? n.toInt
    | .uint n, .float => floatOfInt? n.toNat
    | .float x, .int => (exactInt? x).bind ofInt?
    | .float x, .uint => (exactInt? x).bind ofNat?
    | .text s, .bytes => some (.bytes (Bytes.ofText s))
    | .text s, .timestamp => (Timestamp.ofRfc3339? s).map .timestamp
    | _, _ => none

def text? : Value → Option String
  | .text s => some s
  | _ => none

def int? : Value → Option Int64
  | .int n => some n
  | _ => none

-- The value as messages show it.
def display : Value → String
  | .bool b => if b then "true" else "false"
  | .int n => toString n.toInt
  | .uint n => toString n.toNat
  | .float x => Decimal.plain.render x
  | .text s => Text.quote s
  | .bytes bs => "<" ++ toString bs.length ++ " bytes>"
  | .timestamp t => t.display

end Value

end Chronicle
