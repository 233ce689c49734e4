import Chronicle.Power
import Chronicle.Text.Blank

-- The pieces of timestamp texts: numbers, fractions of a second and offsets.
-- Each reader answers with what it read and the rest of the text.

namespace Chronicle.Timestamp.Lexeme

abbrev Text := List Char

def digitValue (c : Char) : Nat := c.toNat - '0'.toNat

def decimalValue (digits : List Char) : Nat :=
  digits.foldl (fun n c => 10 * n + digitValue c) 0

-- Between `least` and `most` digits, as many as there are, for a number of at
-- most 63 bits.
def number? (least most : Nat) (text : Text) : Option (Nat × Text) :=
  let digits := (text.takeWhile Char.isDigit).take most
  let value := decimalValue digits
  if digits.length < least ∨ twoTo 63 ≤ value then none
  else some (value, text.drop digits.length)

-- A number of any length.
def longNumber? (text : Text) : Option (Nat × Text) := number? 1 text.length text

def char? (expected : Char) : Text → Option Text
  | [] => none
  | c :: rest => if c = expected then some rest else none

-- At least one digit after the point. Nanoseconds; finer digits are passed over.
def fraction? (text : Text) : Option (Nat × Text) := do
  let (value, rest) ← number? 1 9 text
  let count := text.length - rest.length
  some (value * tenTo (9 - count), rest.dropWhile Char.isDigit)

-- Exactly `count` digits after the point, in nanoseconds.
def fixedFraction? (count : Nat) (text : Text) : Option (Nat × Text) := do
  let (value, rest) ← number? count count text
  some (value * tenTo (9 - count), rest)

-- How an offset may be written.
structure OffsetForm where
  -- Any run of colons and blanks, or none, stands between hours and minutes;
  -- otherwise exactly one colon.
  loose : Bool
  -- `Z` stands for UTC.
  zulu : Bool
  -- The minutes may be missing at the end of the text.
  hoursOnly : Bool

-- One colon, as RFC 3339 has it.
def OffsetForm.rfc3339 : OffsetForm := ⟨false, true, false⟩

-- The form of a configured zone and of a pattern's offset.
def OffsetForm.plain : OffsetForm := ⟨true, false, false⟩

def isNegativeSign? : Char → Option Bool
  | '+' => some false
  | '-' => some true
  | '\u2212' => some true
  | _ => none

-- Hours up to 99 and minutes up to 59, in seconds.
def signedOffset? (form : OffsetForm) (text : Text) : Option (Int × Text) := do
  let sign :: afterSign := text | none
  let negative ← isNegativeSign? sign
  let (hours, afterHours) ← number? 2 2 afterSign
  let atMinutes ←
    if form.loose then some (afterHours.dropWhile fun c => c = ':' || Text.isBlank c)
    else char? ':' afterHours
  let (minutes, rest) ←
    if form.hoursOnly ∧ atMinutes = [] then some (0, [])
    else number? 2 2 atMinutes
  if 60 ≤ minutes then none
  let seconds : Int := hours * 3600 + minutes * 60
  some (if negative then -seconds else seconds, rest)

def offset? (form : OffsetForm) (text : Text) : Option (Int × Text) :=
  match text with
  | 'Z' :: rest => if form.zulu then some (0, rest) else none
  | 'z' :: rest => if form.zulu then some (0, rest) else none
  | _ => signedOffset? form text

end Chronicle.Timestamp.Lexeme
