import Chronicle.Timestamp.Parts

-- Patterns that describe how a timestamp is written: literal characters,
-- blanks, and specifiers such as `%Y` or `%:z`.

namespace Chronicle.Timestamp

-- Names in lower case; the first three letters are the short form.
def monthNames : List String :=
  ["january", "february", "march", "april", "may", "june", "july", "august", "september",
    "october", "november", "december"]

def weekdayNames : List String :=
  ["monday", "tuesday", "wednesday", "thursday", "friday", "saturday", "sunday"]

-- What a number counts.
inductive Numeral where
  | part (part : Part)
  | hour
  -- 12 counts as 0.
  | hour12
  -- Sunday is 0.
  | fromSunday
  -- Monday is 1.
  | fromMonday

inductive Item where
  | literal (text : List Char)
  -- Any blanks, or none.
  | blanks
  -- `width` digits at most; a sign lifts the limit if the number may have one.
  | number (numeral : Numeral) (width : Option Nat) (signed : Bool)
  | month (long : Bool)
  | weekday (long : Bool)
  | half
  -- A point and digits, or nothing.
  | fraction
  | fractionOf (digits : Nat) (point : Bool)
  -- A zone name is passed over.
  | zone
  | offset (form : Lexeme.OffsetForm)
  | dateTime
  -- A pattern with this item reads nothing.
  | invalid

namespace Pattern

def numeral (part : Part) (width : Nat) : Item := .number (.part part) (some width) false

def year : Item := .number (.part .year) (some 4) true

def isoYear : Item := .number (.part .isoYear) (some 4) true

def yearOfCentury : Item := numeral .yearOfCentury 2

def month : Item := numeral .month 2

def day : Item := numeral .day 2

def hour : Item := .number .hour (some 2) false

def hour12 : Item := .number .hour12 (some 2) false

def minute : Item := numeral .minute 2

def second : Item := numeral .second 2

def char (c : Char) : Item := .literal [c]

def americanDate : List Item := [month, char '/', day, char '/', yearOfCentury]

def clock : List Item := [hour, char ':', minute, char ':', second]

-- What one specifier stands for.
def specifier : Char → List Item
  | 'A' => [.weekday true]
  | 'B' => [.month true]
  | 'C' => [numeral .century 2]
  | 'D' => americanDate
  | 'F' => [year, char '-', month, char '-', day]
  | 'G' => [isoYear]
  | 'H' => [hour]
  | 'I' => [hour12]
  | 'M' => [minute]
  | 'P' => [.half]
  | 'R' => [hour, char ':', minute]
  | 'S' => [second]
  | 'T' => clock
  | 'U' => [numeral .weekFromSunday 2]
  | 'V' => [numeral .isoWeek 2]
  | 'W' => [numeral .weekFromMonday 2]
  | 'X' => clock
  | 'Y' => [year]
  | 'Z' => [.zone]
  | 'a' => [.weekday false]
  | 'b' => [.month false]
  | 'c' => [.weekday false, .blanks, .month false, .blanks, day, .blanks] ++ clock ++
      [.blanks, year]
  | 'd' => [day]
  | 'e' => [day]
  | 'f' => [numeral .nanosecond 9]
  | 'g' => [numeral .isoYearOfCentury 2]
  | 'h' => [.month false]
  | 'j' => [numeral .ordinal 3]
  | 'k' => [hour]
  | 'l' => [hour12]
  | 'm' => [month]
  | 'n' => [.blanks]
  | 'p' => [.half]
  | 'q' => [numeral .quarter 1]
  | 'r' => [hour12, char ':', minute, char ':', second, .blanks, .half]
  | 's' => [.number (.part .epochSecond) none false]
  | 't' => [.blanks]
  | 'u' => [.number .fromMonday (some 1) false]
  | 'v' => [day, char '-', .month false, char '-', year]
  | 'w' => [.number .fromSunday (some 1) false]
  | 'x' => americanDate
  | 'y' => [yearOfCentury]
  | 'z' => [.offset .plain]
  | '+' => [.dateTime]
  | '%' => [char '%']
  | _ => [.invalid]

def isSingleNumber : List Item → Bool
  | [.number _ _ _] => true
  | _ => false

-- The items of a specifier after its `%`, and the rest of the pattern. Padding
-- marks are for single numbers only and change nothing in reading.
def specifierAt : List Char → List Item × List Char
  | [] => ([.invalid], [])
  | '.' :: 'f' :: rest => ([.fraction], rest)
  | '.' :: '3' :: 'f' :: rest => ([.fractionOf 3 true], rest)
  | '.' :: '6' :: 'f' :: rest => ([.fractionOf 6 true], rest)
  | '.' :: '9' :: 'f' :: rest => ([.fractionOf 9 true], rest)
  | '3' :: 'f' :: rest => ([.fractionOf 3 false], rest)
  | '6' :: 'f' :: rest => ([.fractionOf 6 false], rest)
  | '9' :: 'f' :: rest => ([.fractionOf 9 false], rest)
  | ':' :: 'z' :: rest => ([.offset .plain], rest)
  | ':' :: ':' :: 'z' :: rest => ([.offset .plain], rest)
  | ':' :: ':' :: ':' :: 'z' :: rest => ([.offset .plain], rest)
  | '#' :: 'z' :: rest => ([.offset ⟨true, true, true⟩], rest)
  | c :: rest =>
      if c = '-' ∨ c = '0' ∨ c = '_' then
        match rest with
        | [] => ([.invalid], [])
        | spec :: rest =>
            let items := specifier spec
            (if isSingleNumber items then items else [.invalid], rest)
      else (specifier c, rest)

theorem length_specifierAt_le (text : List Char) :
    (specifierAt text).2.length ≤ text.length := by
  unfold specifierAt
  repeat' split
  all_goals simp only [List.length_cons, List.length_nil]
  all_goals omega

-- The items of a pattern.
def items (pattern : List Char) : List Item :=
  match pattern with
  | [] => []
  | '%' :: rest =>
      have : (specifierAt rest).2.length < rest.length + 1 :=
        Nat.lt_succ_of_le (length_specifierAt_le rest)
      (specifierAt rest).1 ++ items (specifierAt rest).2
  | c :: rest => (if Text.isBlank c then .blanks else .literal [c]) :: items rest
termination_by pattern.length

end Pattern

end Chronicle.Timestamp
