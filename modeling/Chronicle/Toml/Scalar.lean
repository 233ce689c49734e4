import Chronicle.Json.Number
import Chronicle.Json.Reader
import Chronicle.Text.Pieces
import Chronicle.Toml

-- Numbers, truth values and dates of TOML texts. Single underscores may stand
-- between the digits of a number.

namespace Chronicle.Toml.Reader

def sign : List Char → Bool × List Char
  | '+' :: rest => (false, rest)
  | '-' :: rest => (true, rest)
  | text => (false, text)

def digitValue (c : Char) : Nat := (Json.hexValue? c).getD 0

def natOf (base : Nat) (digits : List Char) : Nat :=
  digits.foldl (fun n c => base * n + digitValue c) 0

def isOctal (c : Char) : Bool := '0' ≤ c && c ≤ '7'

def isBinary (c : Char) : Bool := c = '0' || c = '1'

def isHexadecimal (c : Char) : Bool := (Json.hexValue? c).isSome

-- Digits are divided from digits. The first digit may also be divided from a sign.
def meets (isDigit : Char → Bool) (before after : List Char) : Bool :=
  let ends :=
    match before.reverse with
    | [] => false
    | [_] => true
    | c :: _ => isDigit c
  ends && (after.head?.map isDigit).getD false

def allMeet (isDigit : Char → Bool) : List (List Char) → Bool
  | before :: after :: rest => meets isDigit before after && allMeet isDigit (after :: rest)
  | _ => true

-- The text without its underscores.
def ungrouped? (isDigit : Char → Bool) (text : List Char) : Option (List Char) :=
  let parts := Text.pieces '_' text
  if allMeet isDigit parts then some parts.flatten else none

-- No integer that has a value has more than 128 digits, in whatever base.
def integer (negative : Bool) (base : Nat) (digits : List Char) : Toml :=
  let digits := digits.dropWhile (· = '0')
  if (digits.drop 128).isEmpty then
    let n : Int := natOf base digits
    .integer (if negative then -n else n)
  else .illegible

def based? (base : Nat) (isDigit : Char → Bool) (text : List Char) : Option Toml := do
  let digits ← ungrouped? isDigit text
  if digits.all isDigit then
    some (if digits = [] then .illegible else integer false base digits)
  else none

-- Zero leads no other digit of a number, unless an underscore goes before it.
def isLed (number : List Char) : Bool :=
  match number with
  | '0' :: rest => (rest.head?.map fun c => !c.isDigit && c ≠ '_').getD true
  | c :: _ => c.isDigit || c = '_'
  | [] => false

-- After an underscore any hexadecimal digit may stand, but such digits make no
-- decimal number.
def decimal? (text : List Char) : Option Toml := do
  let (negative, number) := sign text
  let afterDigits := number.dropWhile Char.isDigit
  let (_, digits) := sign (← ungrouped? isHexadecimal text)
  if isLed number ∧ (afterDigits = [] ∨ afterDigits.head? = some '_') then
    some (if digits.all Char.isDigit then integer negative 10 digits else .illegible)
  else none

def digits? (text : List Char) : Option (List Char × List Char) :=
  match text.span Char.isDigit with
  | ([], _) => none
  | found => some found

def fraction? (text : List Char) : Option (List Char × List Char) :=
  match text with
  | '.' :: rest => digits? rest
  | _ => some ([], text)

-- An exponent is read up to the digit that takes it beyond every use.
def exponentOf (digits : List Char) : Nat :=
  digits.foldl (fun n c => if n < 65536 then 10 * n + digitValue c else n) 0

def exponent? (text : List Char) : Option (Int × List Char) :=
  match text with
  | [] => some (0, [])
  | c :: rest =>
      if c = 'e' ∨ c = 'E' then do
        let (negative, rest) := sign rest
        let (digits, rest) ← digits? rest
        let n : Int := exponentOf digits
        some (if negative then -n else n, rest)
      else some (0, text)

-- The number nearest to what is written.
def magnitude? (text : List Char) : Option Binary64 := do
  let (whole, text) ← digits? text
  let (fraction, text) ← fraction? text
  let (exponent, text) ← exponent? text
  if text = [] then
    some (Binary64.ofDecimal (natOf 10 (whole ++ fraction)) (exponent - fraction.length))
  else none

def signed (negative : Bool) (x : Binary64) : Binary64 := if negative then x.neg else x

-- Too large a number has no value.
def float? (text : List Char) : Option Toml := do
  let (negative, number) := sign text
  let x ← magnitude? (sign (← ungrouped? Char.isDigit text)).2
  if isLed number then
    some (if x.isFinite then .float (signed negative x) else .illegible)
  else none

-- What is neither finite nor written in digits.
def word? (text : List Char) : Option Binary64 :=
  let (negative, name) := sign text
  match name with
  | ['i', 'n', 'f'] => some (signed negative Binary64.infinity)
  | ['n', 'a', 'n'] => some (signed negative Binary64.nan)
  | _ => none

def number? (text : List Char) : Option Toml :=
  match text with
  | '0' :: 'x' :: rest => based? 16 isHexadecimal rest
  | '0' :: 'o' :: rest => based? 8 isOctal rest
  | '0' :: 'b' :: rest => based? 2 isBinary rest
  | _ =>
      if text.any fun c => c = '.' || c = 'e' || c = 'E' then float? text
      else decimal? text

def boolean? (text : List Char) : Option Bool :=
  match text with
  | ['t', 'r', 'u', 'e'] => some true
  | ['f', 'a', 'l', 's', 'e'] => some false
  | _ => none

-- Whole numbers are integers.
def scalar? (text : List Char) : Option Toml :=
  (boolean? text).map .boolean <|> (word? text).map .float <|> (moment? text).map .moment <|>
    number? text

end Chronicle.Toml.Reader
