import Chronicle.Import.Recognizer
import Chronicle.Proofs.Timestamp.Reading

-- A date and a time without an offset, in the ways to spell them: each is read by
-- a pattern of its own and by no other, and means the configured zone.

namespace Chronicle

open Timestamp Timestamp.Lexeme

namespace Import

-- The ways to write a date and a time without an offset: to a fraction of a
-- second or to the minute, behind a blank or a `T`, or just the date.
inductive Spelling where
  | seconds (blank : Bool)
  | minutes (blank : Bool)
  | date
  deriving DecidableEq

namespace Spelling

variable {time : CivilTime} {found : Parts} {spelling other : Spelling} {blank : Bool}
  {tail : List Char} {more : List Item}

def separator (blank : Bool) : Char := if blank then ' ' else 'T'

def text (time : CivilTime) : Spelling → List Char
  | seconds blank => time.dateText ++ separator blank :: (time.minuteText ++ time.secondText)
  | minutes blank => time.dateText ++ separator blank :: time.minuteText
  | date => time.dateText

-- What is left of a date and a time in a spelling. A date is its midnight.
def spelled (time : CivilTime) : Spelling → CivilTime
  | seconds _ => time
  | minutes _ => { time with second := 0, fraction := [] }
  | date => { time with hour := 0, minute := 0, second := 0, fraction := [] }

def pattern : Spelling → String
  | seconds false => "%Y-%m-%dT%H:%M:%S%.f"
  | seconds true => "%Y-%m-%d %H:%M:%S%.f"
  | minutes false => "%Y-%m-%dT%H:%M"
  | minutes true => "%Y-%m-%d %H:%M"
  | date => "%Y-%m-%d"

def separatorItem (blank : Bool) : Item := if blank then .blanks else Pattern.char 'T'

-- The items behind the date.
def items : Spelling → List Item
  | seconds blank => separatorItem blank :: (CivilTime.minuteItems ++ CivilTime.secondItems)
  | minutes blank => separatorItem blank :: (CivilTime.minuteItems ++ [])
  | date => []

def parts (time : CivilTime) : Spelling → Parts
  | seconds _ => time.secondParts
  | minutes _ => time.minuteParts
  | date => time.dateParts

theorem items_specifier {text rest : List Char} {found : List Item}
    (h : Pattern.specifierAt text = (found, rest)) :
    Pattern.items ('%' :: text) = found ++ Pattern.items rest := by
  rw [Pattern.items, h]

theorem items_literal {c : Char} {rest : List Char} (h : c ≠ '%') :
    Pattern.items (c :: rest) =
      (if Text.isBlank c then .blanks else Pattern.char c) :: Pattern.items rest := by
  rw [Pattern.items]
  · rfl
  · exact h

-- The items of the pieces of patterns.
theorem items_date (rest : List Char) :
    Pattern.items ("%Y-%m-%d".toList ++ rest) = CivilTime.dateItems ++ Pattern.items rest := by
  have hyear (rest : List Char) : Pattern.specifierAt ('Y' :: rest) = ([Pattern.year], rest) := rfl
  have hmonth (rest : List Char) :
      Pattern.specifierAt ('m' :: rest) = ([Pattern.month], rest) := rfl
  have hday (rest : List Char) : Pattern.specifierAt ('d' :: rest) = ([Pattern.day], rest) := rfl
  have hdash (rest : List Char) :
      Pattern.items ('-' :: rest) = Pattern.char '-' :: Pattern.items rest :=
    items_literal (by decide)
  change Pattern.items ('%' :: 'Y' :: '-' :: '%' :: 'm' :: '-' :: '%' :: 'd' :: rest) = _
  rw [items_specifier (hyear _), hdash, items_specifier (hmonth _), hdash, items_specifier (hday _)]
  rfl

theorem items_minute (rest : List Char) :
    Pattern.items ("%H:%M".toList ++ rest) = CivilTime.minuteItems ++ Pattern.items rest := by
  have hhour (rest : List Char) : Pattern.specifierAt ('H' :: rest) = ([Pattern.hour], rest) := rfl
  have hminute (rest : List Char) :
      Pattern.specifierAt ('M' :: rest) = ([Pattern.minute], rest) := rfl
  have hcolon (rest : List Char) :
      Pattern.items (':' :: rest) = Pattern.char ':' :: Pattern.items rest :=
    items_literal (by decide)
  change Pattern.items ('%' :: 'H' :: ':' :: '%' :: 'M' :: rest) = _
  rw [items_specifier (hhour _), hcolon, items_specifier (hminute _)]
  rfl

theorem items_second : Pattern.items ":%S%.f".toList = CivilTime.secondItems := by
  have hcolon (rest : List Char) :
      Pattern.items (':' :: rest) = Pattern.char ':' :: Pattern.items rest :=
    items_literal (by decide)
  have hsecond (rest : List Char) :
      Pattern.specifierAt ('S' :: rest) = ([Pattern.second], rest) := rfl
  have hfraction (rest : List Char) :
      Pattern.specifierAt ('.' :: 'f' :: rest) = ([.fraction], rest) := rfl
  change Pattern.items (':' :: '%' :: 'S' :: '%' :: '.' :: 'f' :: []) = _
  rw [hcolon, items_specifier (hsecond _), items_specifier (hfraction _), Pattern.items]
  rfl

theorem items_separator (blank : Bool) (rest : List Char) :
    Pattern.items (separator blank :: rest) = separatorItem blank :: Pattern.items rest := by
  cases blank
  · exact items_literal (by decide)
  · exact items_literal (by decide)

theorem items_pattern (spelling : Spelling) :
    Pattern.items spelling.pattern.toList = CivilTime.dateItems ++ spelling.items := by
  cases spelling with
  | seconds blank =>
    have htext : (pattern (seconds blank)).toList = "%Y-%m-%d".toList ++
        separator blank :: ("%H:%M".toList ++ ":%S%.f".toList) := by
      cases blank <;> rfl
    rw [htext, items_date, items_separator, items_minute, items_second, items]
  | minutes blank =>
    have htext : (pattern (minutes blank)).toList = "%Y-%m-%d".toList ++
        separator blank :: ("%H:%M".toList ++ []) := by
      cases blank <;> rfl
    rw [htext, items_date, items_separator, items_minute, Pattern.items, items]
  | date =>
    have htext : (pattern date).toList = "%Y-%m-%d".toList ++ [] := rfl
    rw [htext, items_date, Pattern.items, items]

theorem localPatterns_eq :
    Recognizer.localPatterns =
      [seconds false, seconds true, minutes false, minutes true].map pattern := rfl

-- Behind the date the pattern's separator is read, and the hour and the minute.
theorem readAll?_separator (h : time.Valid) (blank written : Bool) (more : List Item)
    (tail : List Char) :
    readAll? (separatorItem blank :: (CivilTime.minuteItems ++ more)) time.dateParts
        (separator written :: (time.minuteText ++ tail)) =
      if blank = written then readAll? more time.minuteParts tail else none := by
  have hminute : readAll? (CivilTime.minuteItems ++ more) time.dateParts (time.minuteText ++ tail) =
      readAll? more time.minuteParts tail := by
    rw [readAll?_append, CivilTime.readAll?_minuteText h, Option.bind_some]
  cases blank with
  | false =>
    cases written with
    | false =>
      rw [if_pos rfl, ← hminute]
      exact readAll?_next readItem?_char trivial
    | true =>
      rw [if_neg (by decide)]
      exact readAll?_stop (readItem?_char_eq_none (by simp [separator])) trivial
  | true =>
    cases written with
    | false => rfl
    | true =>
      obtain ⟨c, digits, htext, hdigit⟩ := h.counted.hour.head
      have hblanks : readItem? .blanks time.dateParts (' ' :: (time.minuteText ++ tail)) =
          some (time.dateParts, time.minuteText ++ tail) := by
        have hdark := not_blank_of_isDigit hdigit
        have hspace : Text.isBlank ' ' = true := by decide
        simp [readItem?, dropBlanks, CivilTime.minuteText, htext, hspace, hdark]
      rw [if_pos rfl, ← hminute]
      exact readAll?_next hblanks trivial

theorem readAll?_separator_nil (blank : Bool) (more : List Item) :
    readAll? (separatorItem blank :: (CivilTime.minuteItems ++ more)) found [] = none := by
  cases blank
  · rfl
  · rfl

theorem parts?_dateText (h : time.Valid) (spelling : Spelling) (rest : List Char) :
    parts? spelling.pattern.toList (time.dateText ++ rest) =
      (readAll? spelling.items time.dateParts rest).bind fun found =>
        if found.2 = [] then some found.1 else none := by
  rw [parts?, items_pattern, readAll?_append, CivilTime.readAll?_dateText h, Option.bind_some]
  rfl

-- A spelling is read by its own pattern and by no other.
theorem parts?_pattern (h : time.Valid) (spelling other : Spelling) :
    parts? other.pattern.toList (spelling.text time) =
      if other = spelling then some (spelling.parts time) else none := by
  cases spelling with
  | seconds blank =>
    rw [text, parts?_dateText h]
    cases other with
    | seconds tried =>
      rw [items, readAll?_separator h, CivilTime.readAll?_secondText h]
      cases tried <;> cases blank <;> rfl
    | minutes tried =>
      rw [items, readAll?_separator h]
      cases tried <;> cases blank <;> rfl
    | date => rfl
  | minutes blank =>
    have htext : text time (minutes blank) =
        time.dateText ++ separator blank :: (time.minuteText ++ []) := by
      rw [text, List.append_nil]
    rw [htext, parts?_dateText h]
    cases other with
    | seconds tried =>
      rw [items, readAll?_separator h]
      cases tried <;> cases blank <;> rfl
    | minutes tried =>
      rw [items, readAll?_separator h]
      cases tried <;> cases blank <;> rfl
    | date => rfl
  | date =>
    have htext : text time date = time.dateText ++ [] := by rw [text, List.append_nil]
    rw [htext, parts?_dateText h]
    cases other with
    | seconds tried => rw [items, readAll?_separator_nil, Option.bind_none, if_neg (by simp)]
    | minutes tried => rw [items, readAll?_separator_nil, Option.bind_none, if_neg (by simp)]
    | date => rfl

theorem valid_spelled (h : time.Valid) (spelling : Spelling) : (spelling.spelled time).Valid := by
  have hnone : AllDigits [] := by simp [AllDigits]
  cases spelling with
  | seconds => exact h
  | minutes =>
    exact ⟨h.date, h.year_nonneg, h.year_le, h.hour_lt, h.minute_lt, Nat.zero_le _, hnone⟩
  | date =>
    exact ⟨h.date, h.year_nonneg, h.year_le, Nat.zero_lt_succ _, Nat.zero_lt_succ _, Nat.zero_le _,
      hnone⟩

theorem epochSecond_secondParts (time : CivilTime) :
    time.secondParts.get? .epochSecond = none := by
  unfold CivilTime.secondParts
  split <;> rfl

-- The parts of a spelling with a time determine what it spells.
theorem localTime?_parts (h : time.Valid) (hspelling : spelling ≠ date) :
    (spelling.parts time).localTime? 0 = some (spelling.spelled time).toLocalTime := by
  cases spelling with
  | seconds =>
    rw [parts, CivilTime.localTime?_eq (CivilTime.date_secondParts h)
      (CivilTime.clock_secondParts time) (epochSecond_secondParts time), spelled,
      CivilTime.ofClock?_eq h]
  | minutes blank =>
    rw [parts, CivilTime.localTime?_eq (CivilTime.date_minuteParts h)
      (CivilTime.clock_minuteParts time) rfl]
    have hclock := CivilTime.ofClock?_eq (valid_spelled h (minutes blank))
    rwa [spelled, nanoseconds_nil] at hclock
  | date => exact absurd rfl hspelling

theorem localTime?_text (h : time.Valid) (spelling : Spelling) (hother : other ≠ date) :
    Recognizer.localTime? (spelling.text time) other.pattern =
      if other = spelling then
        some (spelling.parts time, (spelling.spelled time).toLocalTime)
      else none := by
  rw [Recognizer.localTime?, parts?_pattern h]
  split
  case isTrue hsame =>
    subst hsame
    simp [localTime?_parts h hother]
  case isFalse => rfl

theorem ofRfc3339Chars?_text (h : time.Valid) (spelling : Spelling) :
    ofRfc3339Chars? (spelling.text time) = none := by
  cases spelling with
  | seconds blank =>
    have hseparator : isDateTimeSeparator (separator blank) = true := by cases blank <;> rfl
    rw [text, CivilTime.ofRfc3339Chars?_dateText h, CivilTime.afterDate?_minuteText h hseparator,
      ← List.append_nil time.secondText,
      CivilTime.afterMinute?_secondText h noDigit_nil (by simp)]
    rfl
  | minutes blank =>
    have hseparator : isDateTimeSeparator (separator blank) = true := by cases blank <;> rfl
    rw [text, CivilTime.ofRfc3339Chars?_dateText h, ← List.append_nil time.minuteText,
      CivilTime.afterDate?_minuteText h hseparator]
    rfl
  | date =>
    rw [text, ← List.append_nil time.dateText, CivilTime.ofRfc3339Chars?_dateText h]
    rfl

theorem inZone?_parts (h : time.Valid) (spelling : Spelling) (zone : Offset) :
    Recognizer.inZone? zone (spelling.parts time, (spelling.spelled time).toLocalTime) =
      some ((spelling.spelled time).instant zone) :=
  CivilTime.at?_toLocalTime (valid_spelled h spelling) zone _

-- The patterns with a time are tried in turn, and only one of them fits.
theorem findSome?_localTime? (h : time.Valid) (spelling : Spelling) :
    Recognizer.localPatterns.findSome? (Recognizer.localTime? (spelling.text time)) =
      if spelling = date then none
      else some (spelling.parts time, (spelling.spelled time).toLocalTime) := by
  have htry (other : Spelling) (hother : other ≠ date) := localTime?_text h spelling hother
  simp only [localPatterns_eq, List.map, List.findSome?, htry (seconds _) (by simp),
    htry (minutes _) (by simp)]
  cases spelling with
  | seconds blank => cases blank <;> simp
  | minutes blank => cases blank <;> simp
  | date => simp

theorem dateInZone?_dateParts (h : time.Valid) (zone : Offset) :
    Recognizer.dateInZone? zone time.dateParts = some ((spelled time date).instant zone) := by
  have hdate : time.dateParts.date.toOption = some time.date := by
    rw [CivilTime.date_dateParts h]
    rfl
  have hmidnight : LocalTime.midnight time.date = (spelled time date).toLocalTime := by
    simp only [LocalTime.midnight, spelled, CivilTime.toLocalTime, nanoseconds_nil, Nat.zero_mul,
      Nat.add_zero]
  rw [Recognizer.dateInZone?, bind_of_eq_some hdate, hmidnight,
    CivilTime.at?_toLocalTime (valid_spelled h date)]

theorem standard?_text (h : time.Valid) (spelling : Spelling) (zone : Offset) :
    Recognizer.standard? zone (spelling.text time) =
      some ((spelling.spelled time).instant zone) := by
  simp only [Recognizer.standard?, ofRfc3339Chars?_text h, findSome?_localTime? h]
  cases spelling with
  | seconds blank => simp only [reduceCtorEq, if_false, inZone?_parts h]
  | minutes blank => simp only [reduceCtorEq, if_false, inZone?_parts h]
  | date =>
    have hparts : parts? Recognizer.datePattern.toList (text time date) = some time.dateParts :=
      (parts?_pattern h date date).trans (if_pos rfl)
    simp only [if_true]
    rw [bind_of_eq_some hparts, dateInZone?_dateParts h]

-- A date is its midnight.
example : Recognizer.standard? Offset.utc "1970-01-02".toList =
    some ⟨86400000000, some Offset.utc⟩ := by decide +kernel

end Spelling

end Import

end Chronicle
