import Chronicle.Timestamp.Pattern

-- Reading a text by a pattern.

namespace Chronicle.Timestamp

open Lexeme

-- Drops `name` from the front of a text, letters in any case.
def dropName? (name : List Char) (text : List Char) : Option (List Char) :=
  let front := text.take name.length
  if front.map Char.toLower = name then some (text.drop name.length) else none

-- The index of the name that a text begins with by its first three letters. A
-- long name may follow in full; otherwise the rest of it is left unread.
def name? (long : Bool) (names : List String) (text : List Char) : Option (Nat × List Char) := do
  let index ← names.findIdx? fun name => (dropName? (name.toList.take 3) text).isSome
  let suffix := (names.getD index "").toList.drop 3
  let rest := text.drop 3
  some (index, if long then (dropName? suffix rest).getD rest else rest)

def dropBlanks (text : List Char) : List Char := text.dropWhile Text.isBlank

def Numeral.set? (parts : Parts) (value : Int) : Numeral → Option Parts
  | .part which => parts.set? which value
  | .hour => if value < 24 then parts.setHour? value else none
  | .hour12 =>
      if 1 ≤ value ∧ value ≤ 12 then parts.set? .hourOfHalf (value % 12) else none
  | .fromSunday => if value ≤ 6 then parts.set? .weekday ((value + 6) % 7) else none
  | .fromMonday => if 1 ≤ value ∧ value ≤ 7 then parts.set? .weekday (value - 1) else none

-- Blanks may precede a number.
def numberAt? (width : Option Nat) (signed : Bool) (text : List Char) :
    Option (Int × List Char) := do
  let text := dropBlanks text
  match signed, text with
  | true, '-' :: rest => do
      let (value, rest) ← longNumber? rest
      some (-value, rest)
  | true, '+' :: rest => do
      let (value, rest) ← longNumber? rest
      some (value, rest)
  | _, _ => do
      let (value, rest) ← number? 1 (width.getD text.length) text
      some (value, rest)

def fractionAt? (read : List Char → Option (Nat × List Char)) (parts : Parts)
    (text : List Char) : Option (Parts × List Char) := do
  let (value, rest) ← read text
  some (← parts.set? .nanosecond value, rest)

-- A date, a separator and a time, with blanks around their numbers and signs,
-- up to the offset.
def looseDate : List Item :=
  [Pattern.year, .blanks, Pattern.char '-', Pattern.month, .blanks, Pattern.char '-', Pattern.day]

def looseTime : List Item :=
  [Pattern.hour, .blanks, Pattern.char ':', Pattern.minute, .blanks, Pattern.char ':',
    Pattern.second, .fraction, .blanks]

-- Every item but a whole date and time.
def readItem? (item : Item) (parts : Parts) (text : List Char) : Option (Parts × List Char) :=
  match item with
  | .literal expected => if expected.isPrefixOf text then some (parts, text.drop expected.length)
      else none
  | .blanks => some (parts, dropBlanks text)
  | .number numeral width signed => do
      let (value, rest) ← numberAt? width signed text
      some (← numeral.set? parts value, rest)
  | .month long => do
      let (index, rest) ← name? long monthNames text
      some (← parts.set? .month (index + 1), rest)
  | .weekday long => do
      let (index, rest) ← name? long weekdayNames text
      some (← parts.set? .weekday index, rest)
  | .half =>
      match dropName? ['a', 'm'] text, dropName? ['p', 'm'] text with
      | some rest, _ => do some (← parts.set? .half 0, rest)
      | none, some rest => do some (← parts.set? .half 1, rest)
      | none, none => none
  | .fraction =>
      match text with
      | '.' :: rest => fractionAt? fraction? parts rest
      | _ => some (parts, text)
  | .fractionOf digits true =>
      match text with
      | '.' :: rest => fractionAt? (fixedFraction? digits) parts rest
      | _ => some (parts, text)
  | .fractionOf digits false => fractionAt? (fixedFraction? digits) parts text
  | .zone => some (parts, text.dropWhile fun c => !Text.isBlank c)
  | .offset form => do
      let (seconds, rest) ← offset? form (dropBlanks text)
      some (← parts.set? .offset seconds, rest)
  | .dateTime => none
  | .invalid => none

def readItems? : List Item → Parts → List Char → Option (Parts × List Char)
  | [], parts, text => some (parts, text)
  | item :: rest, parts, text => do
      let (parts, text) ← readItem? item parts text
      readItems? rest parts text

-- A date and time with an offset, which may also be the letters UTC.
def readDateTime? (parts : Parts) (text : List Char) : Option (Parts × List Char) := do
  let (parts, text) ← readItems? looseDate parts text
  let separator :: text := text | none
  if !isDateTimeSeparator separator then none
  let (parts, text) ← readItems? looseTime parts text
  let text := dropBlanks text
  match dropName? ['u', 't', 'c'] text with
  | some rest => some (← parts.set? .offset 0, rest)
  | none => do
      let (seconds, rest) ← offset? ⟨true, true, false⟩ text
      some (← parts.set? .offset seconds, rest)

def readAll? : List Item → Parts → List Char → Option (Parts × List Char)
  | [], parts, text => some (parts, text)
  | .dateTime :: rest, parts, text => do
      let (parts, text) ← readDateTime? parts text
      readAll? rest parts text
  | item :: rest, parts, text => do
      let (parts, text) ← readItem? item parts text
      readAll? rest parts text

-- The parts of a text that a pattern describes to its end.
def parts? (pattern text : List Char) : Option Parts := do
  let (parts, rest) ← readAll? (Pattern.items pattern) [] text
  if rest = [] then some parts else none

end Chronicle.Timestamp
