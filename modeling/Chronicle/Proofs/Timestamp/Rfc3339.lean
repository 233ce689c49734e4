import Chronicle.Proofs.Calendar
import Chronicle.Proofs.Timestamp.Lexeme
import Chronicle.Timestamp.Rfc3339

-- The texts of a date and a time of day, and that a text of RFC 3339 is read as
-- the instant that its local date and time have at its offset.

namespace Chronicle

open Timestamp Timestamp.Lexeme

namespace Timestamp

variable {rest : List Char}

theorem bind_of_eq_some {α β : Type} {x : Option α} {a : α} {f : α → Option β} (h : x = some a) :
    (x >>= f) = f a := by
  rw [h]
  rfl

theorem Lexeme.char?_cons (c : Char) (rest : List Char) : char? c (c :: rest) = some rest := by
  simp [char?]

theorem Lexeme.char?_eq_some {c : Char} {text rest : List Char} (h : char? c text = some rest) :
    text = c :: rest := by
  cases text with
  | nil => cases h
  | cons d tail =>
    obtain ⟨rfl, rfl⟩ : d = c ∧ tail = rest := by simpa [char?] using h
    rfl

-- What a text of RFC 3339 comes to by its numbers and the offset at its end.
def atOffset? (year month day hour minute second nanosecond : Nat) (text : List Char) :
    Option Timestamp := do
  let (seconds, text) ← offset? .rfc3339 text
  if text ≠ [] then none
  let offset ← Offset.ofSeconds? seconds
  let date ← Calendar.date? year month day
  let time ← LocalTime.ofClock? date hour minute second nanosecond
  time.at? offset (second = 60)

-- What it comes to by its date, its hour and its minute, and the rest of it.
def afterMinute? (year month day hour minute : Nat) (text : List Char) : Option Timestamp := do
  let text ← char? ':' text
  let (second, text) ← number? 2 2 text
  let (nanosecond, text) ←
    match text with
    | '.' :: rest => fraction? rest
    | _ => some (0, text)
  atOffset? year month day hour minute second nanosecond text

-- What it comes to by its date and the rest of it.
def afterDate? (year month day : Nat) (text : List Char) : Option Timestamp := do
  let separator :: text := text | none
  if !isDateTimeSeparator separator then none
  let (hour, text) ← number? 2 2 text
  let text ← char? ':' text
  let (minute, text) ← number? 2 2 text
  afterMinute? year month day hour minute text

theorem ofRfc3339Chars?_eq (text : List Char) :
    ofRfc3339Chars? text = (do
      let (year, text) ← number? 4 4 text
      let text ← char? '-' text
      let (month, text) ← number? 2 2 text
      let text ← char? '-' text
      let (day, text) ← number? 2 2 text
      afterDate? year month day text) := rfl

end Timestamp

-- A date and a time of day by their numbers, and the digits after the point.
structure CivilTime where
  date : Calendar.Date
  hour : Nat
  minute : Nat
  second : Nat
  fraction : List Char

namespace CivilTime

variable {time : CivilTime} {offset : Offset} {separator : Char} {written rest : List Char}
  {seconds : Int}

-- An existing date with a year of four digits, and a time on its clock. Second
-- 60 is a leap second.
structure Valid (time : CivilTime) : Prop where
  date : time.date.Exists
  year_nonneg : 0 ≤ time.date.year
  year_le : time.date.year ≤ 9999
  hour_lt : time.hour < 24
  minute_lt : time.minute < 60
  second_le : time.second ≤ 60
  fraction : AllDigits time.fraction

def dateText (time : CivilTime) : List Char :=
  (padded 4 time.date.year.toNat).toList ++ '-' :: ((padded 2 time.date.month).toList ++
    '-' :: (padded 2 time.date.day).toList)

def minuteText (time : CivilTime) : List Char :=
  (padded 2 time.hour).toList ++ ':' :: (padded 2 time.minute).toList

-- A point is followed by at least one digit.
def pointed (digits : List Char) : List Char := if digits = [] then [] else '.' :: digits

def secondText (time : CivilTime) : List Char :=
  ':' :: ((padded 2 time.second).toList ++ pointed time.fraction)

-- With an offset as it is written.
def rfc3339 (time : CivilTime) (separator : Char) (written : List Char) : List Char :=
  time.dateText ++ separator :: (time.minuteText ++ (time.secondText ++ written))

def toLocalTime (time : CivilTime) : LocalTime :=
  ⟨time.date, time.hour * 3600 + time.minute * 60 + time.second, nanoseconds time.fraction⟩

-- Microseconds since 1970-01-01T00:00:00 on the same clock.
def micros (time : CivilTime) : Int :=
  time.toLocalTime.epochSeconds * 1000000 + nanoseconds time.fraction / 1000

-- The instant on a clock that runs `offset` ahead of UTC.
def instant (time : CivilTime) (offset : Offset) : Timestamp :=
  ⟨Int64.ofInt (time.micros - offset.seconds * 1000000), some offset⟩

theorem epochSeconds_bounds (h : time.Valid) :
    -62167219200 ≤ time.toLocalTime.epochSeconds ∧
      time.toLocalTime.epochSeconds ≤ 253402300800 := by
  have hdays := Calendar.toDays_bounds h.date h.year_nonneg h.year_le
  have hhour := h.hour_lt
  have hminute := h.minute_lt
  have hsecond := h.second_le
  simp only [toLocalTime, LocalTime.epochSeconds]
  omega

theorem at?_toLocalTime (h : time.Valid) (offset : Offset) (leap : Bool) :
    time.toLocalTime.at? offset leap = some (time.instant offset) := by
  have hbounds := epochSeconds_bounds h
  have hfraction := nanoseconds_lt h.fraction
  have hbelow := offset.below
  have habove := offset.above
  have hmin : Calendar.minDay = -96465292 := by decide
  have hmax : Calendar.maxDay = 95026236 := by decide
  have hbits : (twoTo 63 : Int) = 9223372036854775808 := by decide
  have hmicros : (time.toLocalTime.epochSeconds - offset.seconds) * 1000000 +
      time.toLocalTime.nanosecond / 1000 = time.micros - offset.seconds * 1000000 := by
    simp only [micros, toLocalTime]
    omega
  simp only [LocalTime.at?, ofMicros?, hmicros]
  rw [if_pos (by split_ifs <;> omega), if_pos (by rw [hbits, micros]; omega), instant]

theorem ofClock?_eq (h : time.Valid) :
    LocalTime.ofClock? time.date time.hour time.minute time.second (nanoseconds time.fraction) =
      some time.toLocalTime := by
  rw [LocalTime.ofClock?, if_pos ⟨h.hour_lt, h.minute_lt, h.second_le, nanoseconds_lt h.fraction⟩,
    toLocalTime]

theorem date?_eq (h : time.Valid) :
    Calendar.date? time.date.year time.date.month time.date.day = some time.date :=
  Calendar.date?_of_exists h.date (Int.le_trans (by decide) h.year_nonneg)
    (Int.le_trans h.year_le (by decide))

-- The numbers as they are written.
structure Counted (time : CivilTime) : Prop where
  year : Counts 4 time.date.year.toNat (padded 4 time.date.year.toNat).toList
  month : Counts 2 time.date.month (padded 2 time.date.month).toList
  day : Counts 2 time.date.day (padded 2 time.date.day).toList
  hour : Counts 2 time.hour (padded 2 time.hour).toList
  minute : Counts 2 time.minute (padded 2 time.minute).toList
  second : Counts 2 time.second (padded 2 time.second).toList

theorem Valid.counted (h : time.Valid) : time.Counted := by
  have hyearLow := h.year_nonneg
  have hyearHigh := h.year_le
  have hmonth := h.date.month_le
  have hday := Nat.le_trans h.date.day_le (Calendar.daysInMonth_le ..)
  have hhour := h.hour_lt
  have hminute := h.minute_lt
  have hsecond := h.second_le
  have htwo {n : Nat} (hn : n < 100) : Counts 2 n (padded 2 n).toList :=
    counts_padded (by decide) hn
  exact ⟨counts_padded (by decide) (by omega), htwo (by omega), htwo (by omega), htwo (by omega),
    htwo (by omega), htwo (by omega)⟩

theorem ofRfc3339Chars?_dateText (h : time.Valid) :
    ofRfc3339Chars? (time.dateText ++ rest) =
      afterDate? time.date.year.toNat time.date.month time.date.day rest := by
  simp only [ofRfc3339Chars?_eq, dateText, List.append_assoc, List.cons_append,
    bind_of_eq_some (number?_exact h.counted.year (by decide)),
    bind_of_eq_some (number?_exact h.counted.month (by decide)),
    bind_of_eq_some (number?_exact h.counted.day (by decide)), bind_of_eq_some (char?_cons _ _)]

theorem afterDate?_minuteText {year month day : Nat} (h : time.Valid)
    (hseparator : isDateTimeSeparator separator = true) :
    afterDate? year month day (separator :: (time.minuteText ++ rest)) =
      afterMinute? year month day time.hour time.minute rest := by
  simp only [afterDate?, minuteText, List.append_assoc, List.cons_append, hseparator,
    Bool.not_true, Bool.false_eq_true, if_false,
    bind_of_eq_some (number?_exact h.counted.hour (by decide)),
    bind_of_eq_some (number?_exact h.counted.minute (by decide)), bind_of_eq_some (char?_cons _ _)]

-- The fraction ends where no digit follows, and there is one if a point is.
theorem afterMinute?_secondText {year month day hour minute : Nat} (h : time.Valid)
    (hdigit : NoDigit rest) (hpoint : rest.head? ≠ some '.') :
    afterMinute? year month day hour minute (time.secondText ++ rest) =
      atOffset? year month day hour minute time.second (nanoseconds time.fraction) rest := by
  simp only [afterMinute?, secondText, List.append_assoc, List.cons_append,
    bind_of_eq_some (number?_exact h.counted.second (by decide)), bind_of_eq_some (char?_cons _ _)]
  by_cases hnone : time.fraction = []
  · cases rest with
    | nil => simp [pointed, hnone]
    | cons c rest =>
      have hc : c ≠ '.' := by simpa using hpoint
      simp [pointed, hnone, hc]
  · simp only [pointed, if_neg hnone, List.cons_append,
      bind_of_eq_some (fraction?_append h.fraction hnone hdigit)]

theorem ofRfc3339Chars?_rfc3339 (h : time.Valid) (hseparator : isDateTimeSeparator separator = true)
    (hwritten : offset? .rfc3339 written = some (seconds, [])) :
    ofRfc3339Chars? (time.rfc3339 separator written) =
      (Offset.ofSeconds? seconds).map time.instant := by
  obtain ⟨⟨c, tail, rfl, hmark⟩, -⟩ := offset?_eq_some hwritten
  have hpoint : c ≠ '.' := by
    rintro rfl
    simp [IsMark] at hmark
  rw [rfc3339, ofRfc3339Chars?_dateText h, afterDate?_minuteText h hseparator,
    afterMinute?_secondText h (noDigit_cons (isDigit_of_isMark hmark)) (by simpa using hpoint)]
  have hyear : (time.date.year.toNat : Int) = time.date.year := Int.toNat_of_nonneg h.year_nonneg
  simp only [atOffset?, bind_of_eq_some hwritten, hyear, bind_of_eq_some (date?_eq h),
    bind_of_eq_some (ofClock?_eq h), at?_toLocalTime h]
  cases Offset.ofSeconds? seconds <;> rfl

end CivilTime

end Chronicle
