import Chronicle.Decimal.Notation
import Chronicle.SortedMap
import Chronicle.Text.Quoted

-- JSON trees and their compact text. Members of an object are kept in the order
-- of their names, one for each name.

namespace Chronicle

inductive JsonNumber where
  -- Integers of 64 bits, signed or unsigned.
  | int (n : Int)
  -- A finite number.
  | float (x : Binary64)
  deriving DecidableEq

inductive Json where
  | null
  | bool (b : Bool)
  | number (n : JsonNumber)
  | string (s : String)
  | array (items : List Json)
  | object (members : List (String × Json))

namespace Json

def isNull : Json → Bool
  | .null => true
  | _ => false

-- What a tree is called in messages.
def typeName : Json → String
  | .null => "null"
  | .bool _ => "bool"
  | .number _ => "number"
  | .string _ => "string"
  | .array _ => "array"
  | .object _ => "object"

-- An object of these members; of several with one name the last is kept.
def ofMembers (members : List (String × Json)) : Json :=
  .object (members.foldl (fun sorted member => Entries.insert member.1 member.2 sorted) [])

def padLeft (width : Nat) (text : String) : String :=
  String.ofList (List.replicate (width - text.length) '0') ++ text

-- Control characters are escaped, the common ones by a letter.
def escape (c : Char) : String :=
  match c with
  | '"' => "\\\""
  | '\\' => "\\\\"
  | '\n' => "\\n"
  | '\r' => "\\r"
  | '\t' => "\\t"
  | '\x08' => "\\b"
  | '\x0c' => "\\f"
  | _ => if c.toNat < 0x20 then "\\u" ++ padLeft 4 (Text.hexDigits c.toNat) else c.toString

def quote (text : String) : String :=
  "\"" ++ String.join (text.toList.map escape) ++ "\""

end Json

-- The number as a signed integer of 64 bits.
def JsonNumber.int64? : JsonNumber → Option Int64
  | .int n => if n < twoTo 63 then some (Int64.ofInt n) else none
  | .float _ => none

def JsonNumber.render : JsonNumber → String
  | .int n => toString n
  | .float x => Decimal.json.render x

namespace Json

mutual

-- The text without any blanks.
def render : Json → String
  | .null => "null"
  | .bool b => if b then "true" else "false"
  | .number n => n.render
  | .string s => quote s
  | .array items => "[" ++ renderItems items ++ "]"
  | .object members => "\x7b" ++ renderMembers members ++ "\x7d"

def renderItems : List Json → String
  | [] => ""
  | [item] => render item
  | item :: rest => render item ++ "," ++ renderItems rest

def renderMembers : List (String × Json) → String
  | [] => ""
  | [(name, value)] => quote name ++ ":" ++ render value
  | (name, value) :: rest => quote name ++ ":" ++ render value ++ "," ++ renderMembers rest

end

end Json

end Chronicle
