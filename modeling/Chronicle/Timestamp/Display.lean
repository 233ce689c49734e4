import Chronicle.Timestamp

-- The RFC 3339 text of an instant in its display offset.

namespace Chronicle.Timestamp

-- At least `width` digits.
def padded (width n : Nat) : String :=
  let digits := toString n
  String.ofList (List.replicate (width - digits.length) '0') ++ digits

-- Years outside 0 to 9999 carry a sign.
def yearText (year : Int) : String :=
  if 0 ≤ year ∧ year ≤ 9999 then padded 4 year.toNat
  else (if year < 0 then "-" else "+") ++ padded 4 year.natAbs

-- A fraction has no, three or six digits, the fewest that are exact.
def fractionText (micros : Nat) : String :=
  if micros = 0 then ""
  else if micros % 1000 = 0 then "." ++ padded 3 (micros / 1000)
  else "." ++ padded 6 micros

-- The offset to the nearest minute, halves away from zero. UTC is `Z`.
def offsetText (offset : Offset) : String :=
  if offset.seconds = 0 then "Z"
  else
    let minutes := (offset.seconds.natAbs + 30) / 60
    (if offset.seconds < 0 then "-" else "+") ++ padded 2 (minutes / 60) ++ ":" ++
      padded 2 (minutes % 60)

-- The text of `micros` microseconds of local time.
def localText (micros : Int) : String :=
  let date := Calendar.Date.ofDays (micros / 86400000000)
  let ofDay := (micros % 86400000000).toNat
  let second := ofDay / 1000000
  yearText date.year ++ "-" ++ padded 2 date.month ++ "-" ++ padded 2 date.day ++ "T" ++
    padded 2 (second / 3600) ++ ":" ++ padded 2 (second / 60 % 60) ++ ":" ++
    padded 2 (second % 60) ++ fractionText (ofDay % 1000000)

-- An instant outside the calendar shows its bare count.
def display (timestamp : Timestamp) : String :=
  if timestamp.inCalendar then
    let offset := timestamp.offset.getD Offset.utc
    localText (timestamp.micros.toInt + offset.seconds * 1000000) ++ offsetText offset
  else "@" ++ toString timestamp.micros.toInt ++ "us"

end Chronicle.Timestamp
