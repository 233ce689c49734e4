-- The proleptic Gregorian calendar. Days are counted from 1970-01-01.

namespace Chronicle.Calendar

-- The years a calendar date may have.
def minYear : Int := -262143

def maxYear : Int := 262142

def isLeap (year : Int) : Bool :=
  year % 4 == 0 && (year % 100 != 0 || year % 400 == 0)

def daysInYear (year : Int) : Nat := if isLeap year then 366 else 365

def daysInMonth (year : Int) (month : Nat) : Nat :=
  if month = 2 then (if isLeap year then 29 else 28)
  else if month = 4 ∨ month = 6 ∨ month = 9 ∨ month = 11 then 30
  else 31

structure Date where
  year : Int
  month : Nat
  day : Nat
  deriving DecidableEq

-- Days before a month, in a year that begins in March.
def daysBeforeMonth (month : Nat) : Nat := (153 * ((month + 9) % 12) + 2) / 5

-- Years begin in March here, so that a leap day ends its year.
def Date.toDays (date : Date) : Int :=
  let year := if date.month ≤ 2 then date.year - 1 else date.year
  let era := year / 400
  let yearOfEra := year % 400
  let dayOfYear : Int := (daysBeforeMonth date.month : Int) + date.day - 1
  let dayOfEra := yearOfEra * 365 + yearOfEra / 4 - yearOfEra / 100 + dayOfYear
  era * 146097 + dayOfEra - 719468

def Date.ofDays (days : Int) : Date :=
  let shifted := days + 719468
  let era := shifted / 146097
  let dayOfEra := shifted % 146097
  let yearOfEra := (dayOfEra - dayOfEra / 1460 + dayOfEra / 36524 - dayOfEra / 146096) / 365
  let dayOfYear := dayOfEra - (365 * yearOfEra + yearOfEra / 4 - yearOfEra / 100)
  let shiftedMonth := ((5 * dayOfYear + 2) / 153).toNat
  let day := (dayOfYear - (153 * shiftedMonth + 2) / 5 + 1).toNat
  let month := if shiftedMonth < 10 then shiftedMonth + 3 else shiftedMonth - 9
  let year := yearOfEra + era * 400
  ⟨if month ≤ 2 then year + 1 else year, month, day⟩

-- The date, if it exists and its year is in range.
def date? (year : Int) (month day : Nat) : Option Date :=
  if minYear ≤ year ∧ year ≤ maxYear ∧ 1 ≤ month ∧ month ≤ 12 ∧ 1 ≤ day ∧
      day ≤ daysInMonth year month then
    some ⟨year, month, day⟩
  else none

-- The date of a day of the year, the first being 1.
def ordinalDate? (year : Int) (ordinal : Nat) : Option Date :=
  if minYear ≤ year ∧ year ≤ maxYear ∧ 1 ≤ ordinal ∧ ordinal ≤ daysInYear year then
    some (Date.ofDays ((Date.mk year 1 1).toDays + ordinal - 1))
  else none

def Date.ordinal (date : Date) : Nat :=
  (date.toDays - (Date.mk date.year 1 1).toDays + 1).toNat

-- Days since Monday.
def Date.weekday (date : Date) : Nat := ((date.toDays + 3) % 7).toNat

def Date.quarter (date : Date) : Nat := (date.month - 1) / 3 + 1

-- Weeks of the year that begin on `first` (days since Monday), counted by the
-- days on which they begin; days before the first of them are in week 0.
def Date.weekFrom (date : Date) (first : Nat) : Nat :=
  (date.ordinal + 6 - (date.weekday + 7 - first) % 7) / 7

-- The Monday of the week that holds January 4th begins a year of weeks.
def firstMonday (year : Int) : Int :=
  let fourth := Date.mk year 1 4
  fourth.toDays - fourth.weekday

-- The year of weeks that a date belongs to, and its week there.
def Date.isoWeek (date : Date) : Int × Nat :=
  let days := date.toDays
  let year :=
    if days < firstMonday date.year then date.year - 1
    else if firstMonday (date.year + 1) ≤ days then date.year + 1
    else date.year
  (year, ((days - firstMonday year) / 7).toNat + 1)

def weeksInYear (year : Int) : Nat := ((firstMonday (year + 1) - firstMonday year) / 7).toNat

-- The date of a week day (days since Monday) in a year of weeks.
def isoDate? (year : Int) (week weekday : Nat) : Option Date :=
  if 1 ≤ week ∧ week ≤ weeksInYear year then
    let date := Date.ofDays (firstMonday year + 7 * (week - 1 : Nat) + weekday)
    if minYear ≤ date.year ∧ date.year ≤ maxYear then some date else none
  else none

-- The date of a week day (days since Monday) in week `week` of a year, weeks
-- beginning on `first`.
def weekDate? (year : Int) (week weekday first : Nat) : Option Date :=
  let start := Date.mk year 1 1
  let firstWeek := 1 + (first + 7 - start.weekday) % 7
  let ordinal : Int :=
    (firstWeek : Int) + ((week : Int) - 1) * 7 + ((weekday + 7 - first) % 7 : Nat)
  if ordinal ≤ 0 then none else ordinalDate? year ordinal.toNat

-- The days within the calendar.
def minDay : Int := (Date.mk minYear 1 1).toDays

def maxDay : Int := (Date.mk maxYear 12 31).toDays

end Chronicle.Calendar
