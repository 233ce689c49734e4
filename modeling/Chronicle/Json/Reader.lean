import Chronicle.Json.Number

-- Reading JSON texts. Each reader answers with what it read and the rest.

namespace Chronicle.Json

def isBlank (c : Char) : Bool := c = ' ' || c = '\n' || c = '\t' || c = '\r'

def dropBlanks (text : List Char) : List Char := text.dropWhile isBlank

def hexValue? (c : Char) : Option Nat :=
  if '0' ≤ c ∧ c ≤ '9' then some (c.toNat - '0'.toNat)
  else if 'a' ≤ c ∧ c ≤ 'f' then some (c.toNat - 'a'.toNat + 10)
  else if 'A' ≤ c ∧ c ≤ 'F' then some (c.toNat - 'A'.toNat + 10)
  else none

-- Four hexadecimal digits.
def codeUnit? : List Char → Option (Nat × List Char)
  | a :: b :: c :: d :: rest => do
      let (a, b, c, d) := (← hexValue? a, ← hexValue? b, ← hexValue? c, ← hexValue? d)
      some (((a * 16 + b) * 16 + c) * 16 + d, rest)
  | _ => none

-- A character beyond 16 bits is written as two surrogates, the high one first.
def escapedUnicode? (text : List Char) : Option (Char × List Char) := do
  let (unit, rest) ← codeUnit? text
  if 0xD800 ≤ unit ∧ unit < 0xDC00 then
    match rest with
    | '\\' :: 'u' :: rest => do
        let (low, rest) ← codeUnit? rest
        if 0xDC00 ≤ low ∧ low < 0xE000 then
          some (Char.ofNat (0x10000 + (unit - 0xD800) * 0x400 + (low - 0xDC00)), rest)
        else none
    | _ => none
  else if 0xDC00 ≤ unit ∧ unit < 0xE000 then none
  else some (Char.ofNat unit, rest)

def simpleEscape? : Char → Option Char
  | '"' => some '"'
  | '\\' => some '\\'
  | '/' => some '/'
  | 'b' => some '\x08'
  | 'f' => some '\x0c'
  | 'n' => some '\n'
  | 'r' => some '\r'
  | 't' => some '\t'
  | _ => none

-- The characters up to the closing quote, put before `read` in reverse.
def stringTail? : (fuel : Nat) → (read : List Char) → List Char → Option (String × List Char)
  | 0, _, _ => none
  | _, _, [] => none
  | fuel + 1, read, c :: rest =>
      match c with
      | '"' => some (String.ofList read.reverse, rest)
      | '\\' =>
          match rest with
          | 'u' :: rest => do
              let (c, rest) ← escapedUnicode? rest
              stringTail? fuel (c :: read) rest
          | e :: rest => do
              let c ← simpleEscape? e
              stringTail? fuel (c :: read) rest
          | [] => none
      | _ => if c.toNat < 0x20 then none else stringTail? fuel (c :: read) rest

def string? (fuel : Nat) (text : List Char) : Option (String × List Char) :=
  match text with
  | '"' :: rest => stringTail? fuel [] rest
  | _ => none

def digits (text : List Char) : List Char × List Char :=
  (text.takeWhile Char.isDigit, text.dropWhile Char.isDigit)

def natOfDigits (digits : List Char) : Nat := digits.foldl (fun n c => 10 * n + digit c) 0

-- No zero leads a longer number.
def whole? (text : List Char) : Option (List Char × List Char) :=
  match digits text with
  | ([], _) => none
  | ('0' :: _ :: _, _) => none
  | found => some found

def fraction? (text : List Char) : Option (Option (List Char) × List Char) :=
  match text with
  | '.' :: rest =>
      let (found, rest) := digits rest
      if found = [] then none else some (some found, rest)
  | _ => some (none, text)

def exponentTail? (negative : Bool) (text : List Char) : Option (Option Int × List Char) :=
  let (found, rest) := digits text
  if found = [] then none
  else
    let n : Int := natOfDigits found
    some (some (if negative then -n else n), rest)

def exponent? (text : List Char) : Option (Option Int × List Char) :=
  match text with
  | c :: rest =>
      if c = 'e' ∨ c = 'E' then
        match rest with
        | '-' :: rest => exponentTail? true rest
        | '+' :: rest => exponentTail? false rest
        | _ => exponentTail? false rest
      else some (none, text)
  | [] => some (none, [])

def numeral? (negative : Bool) (text : List Char) : Option (JsonNumber × List Char) := do
  let (whole, text) ← whole? text
  let (fraction, text) ← fraction? text
  let (exponent, text) ← exponent? text
  let found ← Numeral.number? ⟨negative, whole, fraction, exponent⟩
  some (found, text)

def number? (text : List Char) : Option (Json × List Char) := do
  let (found, rest) ←
    match text with
    | '-' :: rest => numeral? true rest
    | _ => numeral? false text
  some (.number found, rest)

def word? (word : List Char) (value : Json) (text : List Char) : Option (Json × List Char) :=
  if word.isPrefixOf text then some (value, text.drop word.length) else none

mutual

-- A value, blanks before it included. `depth` bounds how far arrays and objects
-- may nest.
def value? : (fuel depth : Nat) → List Char → Option (Json × List Char)
  | 0, _, _ => none
  | fuel + 1, depth, text =>
      match dropBlanks text with
      | [] => none
      | 'n' :: rest => word? ['u', 'l', 'l'] .null rest
      | 't' :: rest => word? ['r', 'u', 'e'] (.bool true) rest
      | 'f' :: rest => word? ['a', 'l', 's', 'e'] (.bool false) rest
      | '"' :: rest => do
          let (s, rest) ← stringTail? fuel [] rest
          some (.string s, rest)
      | '[' :: rest =>
          match depth with
          | 0 => none
          | depth + 1 =>
              match dropBlanks rest with
              | ']' :: rest => some (.array [], rest)
              | rest => items? fuel depth [] rest
      | '\x7b' :: rest =>
          match depth with
          | 0 => none
          | depth + 1 =>
              match dropBlanks rest with
              | '\x7d' :: rest => some (.object [], rest)
              | rest => members? fuel depth [] rest
      | text => number? text

-- The items of an array up to its end, put before `read` in reverse.
def items? : (fuel depth : Nat) → (read : List Json) → List Char → Option (Json × List Char)
  | 0, _, _, _ => none
  | fuel + 1, depth, read, text => do
      let (item, rest) ← value? fuel depth text
      match dropBlanks rest with
      | ',' :: rest => items? fuel depth (item :: read) rest
      | ']' :: rest => some (.array (item :: read).reverse, rest)
      | _ => none

def members? : (fuel depth : Nat) → (read : List (String × Json)) → List Char →
    Option (Json × List Char)
  | 0, _, _, _ => none
  | fuel + 1, depth, read, text => do
      let (name, rest) ← string? fuel (dropBlanks text)
      match dropBlanks rest with
      | ':' :: rest => do
          let (value, rest) ← value? fuel depth rest
          match dropBlanks rest with
          | ',' :: rest => members? fuel depth ((name, value) :: read) rest
          | '\x7d' :: rest => some (ofMembers ((name, value) :: read).reverse, rest)
          | _ => none
      | _ => none

end

-- Arrays and objects may nest this deep.
def maxDepth : Nat := 127

-- A value takes no more steps than it has characters.
def parse? (text : String) : Option Json := do
  let chars := text.toList
  let (value, rest) ← value? (chars.length + 1) maxDepth chars
  if dropBlanks rest = [] then some value else none

end Chronicle.Json
