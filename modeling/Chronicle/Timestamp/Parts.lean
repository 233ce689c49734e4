import Chronicle.Timestamp.Rfc3339

-- What a text says about an instant, part by part, and the date, time and
-- instant that the parts determine. Parts may be given twice, and in several
-- ways, as long as they agree.

namespace Chronicle.Timestamp

inductive Part where
  | year | century | yearOfCentury
  | isoYear | isoYearOfCentury
  | quarter | month | weekFromSunday | weekFromMonday | isoWeek
  -- Days since Monday.
  | weekday
  | ordinal | day
  -- The half of the day, the hour within it, and the rest of the clock.
  | half | hourOfHalf | minute | second | nanosecond
  -- Seconds since 1970-01-01T00:00:00Z.
  | epochSecond
  | offset
  deriving DecidableEq

-- The least and greatest value of a part.
def Part.bounds : Part → Int × Int
  | .year | .isoYear | .offset => (-2147483648, 2147483647)
  | .century => (0, 2147483647)
  | .yearOfCentury | .isoYearOfCentury => (0, 99)
  | .quarter => (1, 4)
  | .month => (1, 12)
  | .weekFromSunday | .weekFromMonday => (0, 53)
  | .isoWeek => (1, 53)
  | .weekday => (0, 6)
  | .ordinal => (1, 366)
  | .day => (1, 31)
  | .half => (0, 1)
  | .hourOfHalf => (0, 11)
  | .minute => (0, 59)
  | .second => (0, 60)
  | .nanosecond => (0, 999999999)
  | .epochSecond => (-9223372036854775808, 9223372036854775807)

abbrev Parts := List (Part × Int)

-- Why parts give no answer: too few of them, or they contradict each other or
-- the calendar.
inductive Defect where
  | incomplete
  | impossible
  deriving DecidableEq

namespace Parts

def get? (parts : Parts) (part : Part) : Option Int :=
  (parts.find? fun entry => entry.1 = part).map (·.2)

-- Adds a part that is in bounds and agrees with what is there.
def set? (parts : Parts) (part : Part) (value : Int) : Option Parts :=
  if part.bounds.1 ≤ value ∧ value ≤ part.bounds.2 then
    match parts.get? part with
    | none => some ((part, value) :: parts)
    | some old => if old = value then some parts else none
  else none

def setHour? (parts : Parts) (hour : Int) : Option Parts := do
  (← parts.set? .half (hour / 12)).set? .hourOfHalf (hour % 12)

-- Whether a part, if given, has this value.
def agrees (parts : Parts) (part : Part) (value : Int) : Bool :=
  match parts.get? part with
  | none => true
  | some given => given = value

-- A part that years before 0 do not have.
def agreesIf (parts : Parts) (defined : Bool) (part : Part) (value : Int) : Bool :=
  match parts.get? part with
  | none => true
  | some given => defined && given = value

-- A year from the year, the century and the year of the century. Years of a
-- century alone stand for 1970 to 2069.
def resolveYear (year century ofCentury : Option Int) : Except Defect (Option Int) :=
  match year, century, ofCentury with
  | year, none, none => .ok year
  | some y, q, r =>
      if 0 ≤ y ∧ q.getD (y / 100) = y / 100 ∧ r.getD (y % 100) = y % 100 then .ok (some y)
      else .error .impossible
  | none, some q, some r =>
      if q * 100 + r < twoTo 31 then .ok (some (q * 100 + r)) else .error .impossible
  | none, none, some r => .ok (some (if r < 70 then r + 2000 else r + 1900))
  | none, some _, none => .error .incomplete

def agreesYmd (parts : Parts) (date : Calendar.Date) : Bool :=
  parts.agrees .year date.year &&
    parts.agreesIf (0 ≤ date.year) .century (date.year / 100) &&
    parts.agreesIf (0 ≤ date.year) .yearOfCentury (date.year % 100) &&
    parts.agrees .month date.month && parts.agrees .day date.day

def agreesIsoWeek (parts : Parts) (date : Calendar.Date) : Bool :=
  let (year, week) := date.isoWeek
  parts.agrees .isoYear year && parts.agreesIf (0 ≤ year) .isoYearOfCentury (year % 100) &&
    parts.agrees .isoWeek week && parts.agrees .weekday date.weekday

def agreesOrdinal (parts : Parts) (date : Calendar.Date) : Bool :=
  parts.agrees .ordinal date.ordinal && parts.agrees .weekFromSunday (date.weekFrom 6) &&
    parts.agrees .weekFromMonday (date.weekFrom 0)

def orImpossible {α : Type} : Option α → Except Defect α
  | some a => .ok a
  | none => .error .impossible

-- The date of the first complete description among: year, month and day; year
-- and day of the year; year, week and week day; year, week and day of ISO 8601.
def candidate (parts : Parts) (year isoYear : Option Int) : Except Defect Calendar.Date :=
  let get (part : Part) := parts.get? part
  match year, get .month, get .day, get .ordinal, get .weekday, get .weekFromSunday,
      get .weekFromMonday, isoYear, get .isoWeek with
  | some y, some m, some d, _, _, _, _, _, _ =>
      orImpossible (Calendar.date? y m.toNat d.toNat)
  | some y, _, _, some o, _, _, _, _, _ => orImpossible (Calendar.ordinalDate? y o.toNat)
  | some y, _, _, _, some w, some n, _, _, _ =>
      orImpossible (Calendar.weekDate? y n.toNat w.toNat 6)
  | some y, _, _, _, some w, _, some n, _, _ =>
      orImpossible (Calendar.weekDate? y n.toNat w.toNat 0)
  | _, _, _, _, some w, _, _, some y, some n =>
      orImpossible (Calendar.isoDate? y n.toNat w.toNat)
  | _, _, _, _, _, _, _, _, _ => .error .incomplete

-- The date that the parts describe; every part must agree with it.
def date (parts : Parts) : Except Defect Calendar.Date := do
  let year ← resolveYear (parts.get? .year) (parts.get? .century) (parts.get? .yearOfCentury)
  let isoYear ← resolveYear (parts.get? .isoYear) none (parts.get? .isoYearOfCentury)
  let date ← parts.candidate year isoYear
  if parts.agreesYmd date && parts.agreesIsoWeek date && parts.agreesOrdinal date &&
      parts.agrees .quarter date.quarter then
    .ok date
  else .error .impossible

-- Hour, minute, second (0 if not given) and nanosecond.
def clock (parts : Parts) : Except Defect (Nat × Nat × Nat × Nat) :=
  match parts.get? .half, parts.get? .hourOfHalf, parts.get? .minute with
  | some half, some hour, some minute =>
      let clock (second nanosecond : Int) :=
        ((half * 12 + hour).toNat, minute.toNat, second.toNat, nanosecond.toNat)
      match parts.get? .second, parts.get? .nanosecond with
      | none, some _ => .error .incomplete
      | second, nanosecond => .ok (clock (second.getD 0) (nanosecond.getD 0))
  | _, _, _ => .error .incomplete

def dateAndClock (parts : Parts) : Except Defect LocalTime := do
  let date ← parts.date
  let (hour, minute, second, nanosecond) ← parts.clock
  orImpossible (LocalTime.ofClock? date hour minute second nanosecond)

def isLeapSecond (parts : Parts) : Bool := parts.get? .second = some 60

-- The date and time of a count of seconds, read at an offset. A second 60 may
-- stand for the second counted after it.
def ofEpochSecond? (parts : Parts) (epoch offset : Int) : Option LocalTime := do
  let seconds := epoch + offset
  if seconds < -twoTo 63 ∨ twoTo 63 ≤ seconds then none
  let day := seconds / 86400
  if day < Calendar.minDay ∨ Calendar.maxDay < day then none
  let seconds ←
    if parts.isLeapSecond then
      if seconds % 60 = 59 then some seconds
      else if seconds % 60 = 0 then some (seconds - 1)
      else none
    else some seconds
  let parts ← if parts.isLeapSecond then some parts else parts.set? .second (seconds % 60)
  let date := Calendar.Date.ofDays (seconds / 86400)
  let parts ← parts.set? .year date.year
  let parts ← parts.set? .ordinal date.ordinal
  let parts ← parts.setHour? (seconds % 86400 / 3600)
  let parts ← parts.set? .minute (seconds / 60 % 60)
  parts.dateAndClock.toOption

-- The date and time, given that the clock is `offset` seconds ahead of UTC. A
-- count of seconds must agree with the other parts or completes them.
def localTime? (parts : Parts) (offset : Int) : Option LocalTime :=
  match parts.date, parts.clock, parts.get? .epochSecond with
  | .ok _, .ok _, epoch => do
      let time ← parts.dateAndClock.toOption
      let seconds := time.epochSeconds - offset
      match epoch with
      | none => some time
      | some given =>
          if parts.isLeapSecond then
            if given = seconds ∨ given = seconds - 1 then some time else none
          else if given = seconds then some time else none
  | .error .impossible, _, _ => none
  | _, .error .impossible, _ => none
  | _, _, some epoch => parts.ofEpochSecond? epoch offset
  | _, _, none => none

-- The instant of parts with an offset. A count of seconds alone is in UTC.
def instant? (parts : Parts) : Option Timestamp := do
  let seconds ←
    match parts.get? .offset, parts.get? .epochSecond with
    | some seconds, _ => some seconds
    | none, some _ => some 0
    | none, none => none
  let time ← parts.localTime? seconds
  let offset ← Offset.ofSeconds? seconds
  time.at? offset parts.isLeapSecond

end Parts

end Chronicle.Timestamp
