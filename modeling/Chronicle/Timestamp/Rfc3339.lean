import Chronicle.Timestamp
import Chronicle.Timestamp.Lexeme

-- Reading RFC 3339 texts such as `2024-03-01T20:15:00+01:00`. A blank may stand
-- for the `T`, second 60 counts as the next second, and digits beyond
-- microseconds are dropped.

namespace Chronicle

-- A date with a time of day, without an offset.
structure LocalTime where
  date : Calendar.Date
  second : Nat
  nanosecond : Nat := 0

namespace LocalTime

-- A leap second is the second 60 of its minute.
def ofClock? (date : Calendar.Date) (hour minute second nanosecond : Nat) : Option LocalTime :=
  if hour < 24 ∧ minute < 60 ∧ second ≤ 60 ∧ nanosecond < 1000000000 then
    some ⟨date, hour * 3600 + minute * 60 + second, nanosecond⟩
  else none

def midnight (date : Calendar.Date) : LocalTime := ⟨date, 0, 0⟩

-- Seconds since 1970-01-01T00:00:00 on the same clock.
def epochSeconds (time : LocalTime) : Int := time.date.toDays * 86400 + time.second

-- The instant, when the clock runs `offset` ahead of UTC. Its UTC date must be
-- within the calendar; a leap second counts there as the second before it.
def at? (time : LocalTime) (offset : Offset) (leap : Bool) : Option Timestamp :=
  let seconds := time.epochSeconds - offset.seconds
  let day := (if leap then seconds - 1 else seconds) / 86400
  if Calendar.minDay ≤ day ∧ day ≤ Calendar.maxDay then
    Timestamp.ofMicros? (seconds * 1000000 + time.nanosecond / 1000) (some offset)
  else none

end LocalTime

namespace Timestamp

open Lexeme

def isDateTimeSeparator (c : Char) : Bool := c = 'T' || c = 't' || c = ' '

-- Every field has its full width.
def ofRfc3339Chars? (text : List Char) : Option Timestamp := do
  let (year, text) ← number? 4 4 text
  let text ← char? '-' text
  let (month, text) ← number? 2 2 text
  let text ← char? '-' text
  let (day, text) ← number? 2 2 text
  let separator :: text := text | none
  if !isDateTimeSeparator separator then none
  let (hour, text) ← number? 2 2 text
  let text ← char? ':' text
  let (minute, text) ← number? 2 2 text
  let text ← char? ':' text
  let (second, text) ← number? 2 2 text
  let (nanosecond, text) ←
    match text with
    | '.' :: rest => fraction? rest
    | _ => some (0, text)
  let (seconds, text) ← offset? .rfc3339 text
  if text ≠ [] then none
  let offset ← Offset.ofSeconds? seconds
  let date ← Calendar.date? year month day
  let time ← LocalTime.ofClock? date hour minute second nanosecond
  time.at? offset (second = 60)

def ofRfc3339? (text : String) : Option Timestamp := ofRfc3339Chars? text.toList

end Timestamp

end Chronicle
