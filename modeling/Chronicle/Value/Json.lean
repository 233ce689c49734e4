import Chronicle.Json.Reader
import Chronicle.Value

-- Values as JSON: a number, text or truth value stands for itself, bytes are a
-- list of numbers and a timestamp is its display.

namespace Chronicle

namespace Value

def toJson : Value → Json
  | .bool b => .bool b
  | .int n => .number (.int n.toInt)
  | .uint n => .number (.int n.toNat)
  | .float x => if x.isFinite then .number (.float x) else .null
  | .text s => .string s
  | .bytes bs => .array (bs.map fun byte => .number (.int byte.toNat))
  | .timestamp t => .string t.display

-- An integer is signed if it can be.
def ofNumber : JsonNumber → Value
  | .int n => if n < twoTo 63 then .int (Int64.ofInt n) else .uint (UInt64.ofNat n.toNat)
  | .float x => .float x

-- Null, arrays and objects are no values.
def ofJson? : Json → Option Value
  | .bool b => some (.bool b)
  | .number n => some (ofNumber n)
  | .string s => some (.text s)
  | .null => none
  | .array _ => none
  | .object _ => none

-- A value as text: a scalar by itself, anything else by its JSON.
def ofJson (tree : Json) : Value :=
  match ofJson? tree with
  | some value => value
  | none => .text tree.render

end Value

end Chronicle
