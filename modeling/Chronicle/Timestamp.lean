import Chronicle.Calendar
import Chronicle.Power

-- Instants in microseconds since 1970-01-01T00:00:00Z, with the offset they
-- were written in. The offset is kept for display and takes no part in which
-- instant is meant.

namespace Chronicle

-- A distance from UTC of less than a day.
structure Offset where
  seconds : Int
  below : seconds < 86400
  above : -86400 < seconds
  deriving DecidableEq

namespace Offset

def utc : Offset := ⟨0, by decide, by decide⟩

def ofSeconds? (seconds : Int) : Option Offset :=
  if h : seconds < 86400 ∧ -86400 < seconds then some ⟨seconds, h.1, h.2⟩ else none

theorem ofSeconds?_seconds (offset : Offset) : ofSeconds? offset.seconds = some offset := by
  simp [ofSeconds?, offset.below, offset.above]

end Offset

structure Timestamp where
  micros : Int64
  offset : Option Offset := none
  deriving DecidableEq

namespace Timestamp

def min : Timestamp := { micros := Int64.minValue }

def max : Timestamp := { micros := Int64.maxValue }

-- The instant of an exact number of microseconds, if it is within 64 bits.
def ofMicros? (micros : Int) (offset : Option Offset) : Option Timestamp :=
  if -twoTo 63 ≤ micros ∧ micros < twoTo 63 then some ⟨Int64.ofInt micros, offset⟩ else none

def offsetKey (timestamp : Timestamp) : Option Int := timestamp.offset.map (·.seconds)

-- No offset comes before any offset.
def compareOffset : Option Int → Option Int → Ordering
  | none, none => .eq
  | none, some _ => .lt
  | some _, none => .gt
  | some a, some b => compare a b

-- By instant; at one instant, by the offset.
def cmp (first second : Timestamp) : Ordering :=
  (compare first.micros second.micros).then (compareOffset first.offsetKey second.offsetKey)

-- Whether the instant has a calendar date.
def inCalendar (timestamp : Timestamp) : Bool :=
  let day := timestamp.micros.toInt / 86400000000
  Calendar.minDay ≤ day && day ≤ Calendar.maxDay

end Timestamp

end Chronicle
