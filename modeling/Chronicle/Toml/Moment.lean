import Chronicle.Timestamp.Display
import Chronicle.Timestamp.Lexeme

-- Dates and times as TOML texts write them: a date, a time, or a date with a
-- time that may have an offset.

namespace Chronicle.Toml

structure ClockTime where
  hour : Nat
  minute : Nat
  second : Nat
  nanosecond : Nat
  deriving DecidableEq

inductive MomentOffset where
  | zulu
  | minutes (n : Int)
  deriving DecidableEq

inductive Moment where
  | date (date : Calendar.Date)
  | time (time : ClockTime)
  | dateTime (date : Calendar.Date) (time : ClockTime) (offset : Option MomentOffset)
  deriving DecidableEq

open Timestamp (padded)
open Timestamp.Lexeme (number? fraction? char?)

def dateText (date : Calendar.Date) : String :=
  padded 4 date.year.toNat ++ "-" ++ padded 2 date.month ++ "-" ++ padded 2 date.day

def trimZeros (digits : List Char) : List Char := (digits.reverse.dropWhile (· = '0')).reverse

-- The fraction has as many digits as are needed.
def ClockTime.render (time : ClockTime) : String :=
  let fraction :=
    if time.nanosecond = 0 then ""
    else "." ++ String.ofList (trimZeros (padded 9 time.nanosecond).toList)
  padded 2 time.hour ++ ":" ++ padded 2 time.minute ++ ":" ++ padded 2 time.second ++ fraction

def MomentOffset.render : MomentOffset → String
  | .zulu => "Z"
  | .minutes n =>
      (if n < 0 then "-" else "+") ++ padded 2 (n.natAbs / 60) ++ ":" ++ padded 2 (n.natAbs % 60)

def Moment.render : Moment → String
  | .date d => dateText d
  | .time t => t.render
  | .dateTime d t offset =>
      dateText d ++ "T" ++ t.render ++ (offset.map MomentOffset.render).getD ""

-- A date of the years 0 to 9999.
def date? (text : List Char) : Option (Calendar.Date × List Char) := do
  let (year, text) ← number? 4 4 text
  let text ← char? '-' text
  let (month, text) ← number? 2 2 text
  let text ← char? '-' text
  let (day, text) ← number? 2 2 text
  some (← Calendar.date? year month day, text)

def second? (text : List Char) : Option (Nat × Nat × List Char) :=
  match text with
  | ':' :: rest => do
      let (second, rest) ← number? 2 2 rest
      match rest with
      | '.' :: rest => do
          let (nanosecond, rest) ← fraction? rest
          some (second, nanosecond, rest)
      | _ => some (second, 0, rest)
  | _ => some (0, 0, text)

-- The seconds may be missing.
def clockTime? (text : List Char) : Option (ClockTime × List Char) := do
  let (hour, text) ← number? 2 2 text
  let text ← char? ':' text
  let (minute, text) ← number? 2 2 text
  let (second, nanosecond, text) ← second? text
  if hour < 24 ∧ minute < 60 ∧ second ≤ 60 then some (⟨hour, minute, second, nanosecond⟩, text)
  else none

def signedMinutes? (negative : Bool) (text : List Char) : Option MomentOffset := do
  let (hours, text) ← number? 2 2 text
  let text ← char? ':' text
  let (minutes, text) ← number? 2 2 text
  if text = [] ∧ hours < 24 ∧ minutes < 60 then
    let n : Int := hours * 60 + minutes
    some (.minutes (if negative then -n else n))
  else none

def momentOffset? : List Char → Option (Option MomentOffset)
  | [] => some none
  | '+' :: rest => (signedMinutes? false rest).map some
  | '-' :: rest => (signedMinutes? true rest).map some
  | [c] => if c = 'Z' ∨ c = 'z' then some (some .zulu) else none
  | _ => none

def isTimeMark (c : Char) : Bool := c = 'T' || c = 't' || c = ' '

def moment? (text : List Char) : Option Moment :=
  match date? text with
  | some (date, []) => some (.date date)
  | some (date, mark :: rest) =>
      if isTimeMark mark then do
        let (time, rest) ← clockTime? rest
        some (.dateTime date time (← momentOffset? rest))
      else none
  | none =>
      match clockTime? text with
      | some (time, []) => some (.time time)
      | _ => none

end Chronicle.Toml
