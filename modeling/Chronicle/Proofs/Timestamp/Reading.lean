import Chronicle.Proofs.Timestamp.Rfc3339
import Chronicle.Timestamp.Reading

-- Reading by patterns of numbers, blanks and marks: what such items take from a
-- text, and the parts that they find in the texts of a date and a time of day.

namespace Chronicle

namespace Timestamp

open Lexeme

section Items

variable {item : Item} {items more : List Item} {parts found : Parts} {text rest digits : List Char}
  {numeral : Numeral} {limit : Option Nat} {width n most : Nat} {signed : Bool} {value : Int}
  {c : Char}

theorem readAll?_append (items more : List Item) (parts : Parts) (text : List Char) :
    readAll? (items ++ more) parts text =
      (readAll? items parts text).bind fun found => readAll? more found.1 found.2 := by
  induction items generalizing parts text with
  | nil => rfl
  | cons item items ih =>
    cases item
    all_goals simp only [List.cons_append, readAll?, ih, Option.bind_eq_bind, Option.bind_assoc]

-- The items that patterns of numbers consist of.
def Item.IsPlain : Item → Prop
  | .literal _ | .blanks | .number _ _ _ | .fraction => True
  | _ => False

-- The characters that such an item takes.
def Item.Takes : Item → Char → Prop
  | .literal expected, c => c ∈ expected
  | .blanks, c => Text.isBlank c = true
  | .number _ _ signed, c =>
      Text.isBlank c = true ∨ c.isDigit = true ∨ signed = true ∧ (c = '-' ∨ c = '+')
  | .fraction, c => c = '.' ∨ c.isDigit = true
  | _, _ => False

theorem readAll?_cons (h : item.IsPlain) :
    readAll? (item :: more) parts text =
      (readItem? item parts text).bind fun found => readAll? more found.1 found.2 := by
  cases item
  all_goals first | exact h.elim | rfl

theorem readAll?_next (h : readItem? item parts text = some (found, rest)) (hplain : item.IsPlain) :
    readAll? (item :: more) parts text = readAll? more found rest := by
  rw [readAll?_cons hplain, h, Option.bind_some]

theorem readAll?_stop (h : readItem? item parts text = none) (hplain : item.IsPlain) :
    readAll? (item :: more) parts text = none := by
  rw [readAll?_cons hplain, h, Option.bind_none]

theorem exists_blanks (text : List Char) :
    ∃ blanks, text = blanks ++ dropBlanks text ∧ ∀ c ∈ blanks, Text.isBlank c = true :=
  ⟨text.takeWhile Text.isBlank, (List.takeWhile_append_dropWhile ..).symm,
    fun _ hc => List.mem_takeWhile_imp hc⟩

theorem digits_of_bind {least : Nat} {toValue : Nat × List Char → Int}
    (h : (do
      let read ← number? least most text
      some (toValue read, read.2)) = some (value, rest)) :
    ∃ digits, text = digits ++ rest ∧ AllDigits digits := by
  obtain ⟨⟨n, left⟩, hnumber, hread⟩ := Option.bind_eq_some_iff.mp h
  obtain ⟨digits, htext, hcounts, -⟩ := number?_eq_some hnumber
  obtain ⟨-, rfl⟩ : toValue (n, left) = value ∧ left = rest := by simpa using hread
  exact ⟨digits, htext, hcounts.allDigits⟩

-- Behind the blanks stand a sign, if any, and digits.
theorem numberAt?_eq_some (h : numberAt? limit signed text = some (value, rest)) :
    ∃ sign digits, dropBlanks text = sign ++ digits ++ rest ∧ AllDigits digits ∧
      ∀ c ∈ sign, signed = true ∧ (c = '-' ∨ c = '+') := by
  simp only [numberAt?, longNumber?] at h
  split at h
  case h_1 behind hdash =>
    obtain ⟨digits, rfl, hdigits⟩ := digits_of_bind h
    exact ⟨['-'], digits, by simpa using hdash, hdigits, by simp⟩
  case h_2 behind hplus =>
    obtain ⟨digits, rfl, hdigits⟩ := digits_of_bind h
    exact ⟨['+'], digits, by simpa using hplus, hdigits, by simp⟩
  case h_3 =>
    obtain ⟨digits, htext, hdigits⟩ := digits_of_bind h
    exact ⟨[], digits, by simpa using htext, hdigits, by simp⟩

theorem taken_of_numberAt? (h : numberAt? limit signed text = some (value, rest)) :
    ∃ taken, text = taken ++ rest ∧ ∀ c ∈ taken, Item.Takes (.number numeral limit signed) c := by
  obtain ⟨blanks, htext, hblanks⟩ := exists_blanks text
  obtain ⟨sign, digits, hbehind, hdigits, hsign⟩ := numberAt?_eq_some h
  refine ⟨blanks ++ (sign ++ digits), ?_, fun c hc => ?_⟩
  · rw [htext, hbehind]
    simp only [List.append_assoc]
  · rcases List.mem_append.mp hc with hblank | hnumber
    · exact .inl (hblanks c hblank)
    rcases List.mem_append.mp hnumber with hin | hin
    · exact .inr (.inr (hsign c hin))
    · exact .inr (.inl (hdigits c hin))

theorem taken_of_readItem? (hplain : item.IsPlain)
    (h : readItem? item parts text = some (found, rest)) :
    ∃ taken, text = taken ++ rest ∧ ∀ c ∈ taken, item.Takes c := by
  cases item with
  | literal expected =>
    simp only [readItem?, Option.ite_none_right_eq_some, Option.some.injEq, Prod.mk.injEq] at h
    obtain ⟨hbegins, -, rfl⟩ := h
    obtain ⟨tail, rfl⟩ := List.isPrefixOf_iff_prefix.mp hbegins
    exact ⟨expected, by rw [List.drop_left], fun c hc => hc⟩
  | blanks =>
    simp only [readItem?, Option.some.injEq, Prod.mk.injEq] at h
    obtain ⟨-, rfl⟩ := h
    exact exists_blanks text
  | number numeral limit signed =>
    simp only [readItem?, Option.bind_eq_bind, Option.bind_eq_some_iff, Option.some.injEq,
      Prod.mk.injEq, Prod.exists] at h
    obtain ⟨value, left, hnumber, _, -, -, rfl⟩ := h
    exact taken_of_numberAt? hnumber
  | fraction =>
    simp only [readItem?] at h
    split at h
    case h_1 behind =>
      simp only [fractionAt?, Option.bind_eq_bind, Option.bind_eq_some_iff, Option.some.injEq,
        Prod.mk.injEq, Prod.exists] at h
      obtain ⟨n, left, hfraction, _, -, -, rfl⟩ := h
      obtain ⟨digits, rfl, hdigits⟩ := fraction?_eq_some hfraction
      refine ⟨'.' :: digits, rfl, fun c hc => ?_⟩
      rcases List.mem_cons.mp hc with rfl | hin
      · exact .inl rfl
      · exact .inr (hdigits c hin)
    case h_2 =>
      obtain ⟨-, rfl⟩ : parts = found ∧ text = rest := by simpa using h
      exact ⟨[], rfl, by simp⟩
  | month | weekday | half | fractionOf | zone | offset | dateTime | invalid => exact hplain.elim

theorem taken_of_readAll? (hplain : ∀ item ∈ items, item.IsPlain)
    (h : readAll? items parts text = some (found, rest)) :
    ∃ taken, text = taken ++ rest ∧ ∀ c ∈ taken, ∃ item ∈ items, item.Takes c := by
  induction items generalizing parts text with
  | nil =>
    obtain ⟨-, rfl⟩ : parts = found ∧ text = rest := by simpa [readAll?] using h
    exact ⟨[], rfl, by simp⟩
  | cons item items ih =>
    rw [readAll?_cons (hplain item (by simp)), Option.bind_eq_some_iff] at h
    obtain ⟨⟨before, left⟩, hitem, hitems⟩ := h
    obtain ⟨first, rfl, hfirst⟩ := taken_of_readItem? (hplain item (by simp)) hitem
    obtain ⟨later, rfl, hlater⟩ := ih (fun item hmem => hplain item (by simp [hmem])) hitems
    refine ⟨first ++ later, by rw [List.append_assoc], fun c hc => ?_⟩
    rcases List.mem_append.mp hc with hin | hin
    · exact ⟨item, by simp, hfirst c hin⟩
    · obtain ⟨other, hmem, htakes⟩ := hlater c hin
      exact ⟨other, by simp [hmem], htakes⟩

-- A number without blanks or a sign before it is read as it is.
theorem numberAt?_append (h : Counts (width + 1) n digits) (hwidth : width + 1 ≤ 18) :
    numberAt? (some (width + 1)) signed (digits ++ rest) = some ((n : Int), rest) := by
  have hread : number? 1 (width + 1) (digits ++ rest) = some (n, rest) :=
    number?_append h (by omega) (.inl rfl) hwidth
  have hfound : ((number? 1 (width + 1) (digits ++ rest)).bind fun read =>
      some ((read.1 : Int), read.2)) = some ((n : Int), rest) := by
    rw [hread]
    rfl
  obtain ⟨c, tail, rfl, hdigit⟩ := h.head
  have hblanks : dropBlanks (c :: tail ++ rest) = c :: tail ++ rest := by
    simp [dropBlanks, not_blank_of_isDigit hdigit]
  have hminus : c ≠ '-' := by
    rintro rfl
    revert hdigit
    decide
  have hplus : c ≠ '+' := by
    rintro rfl
    revert hdigit
    decide
  simp only [numberAt?, hblanks]
  cases signed <;> simpa [hminus, hplus] using hfound

theorem readItem?_number (h : Counts (width + 1) n digits) (hwidth : width + 1 ≤ 18) :
    readItem? (.number numeral (some (width + 1)) signed) parts (digits ++ rest) =
      (numeral.set? parts n).map fun found => (found, rest) := by
  simp only [readItem?, numberAt?_append h hwidth, Option.bind_eq_bind, Option.bind_some]
  cases numeral.set? parts n <;> rfl

theorem readItem?_char : readItem? (Pattern.char c) parts (c :: rest) = some (parts, rest) := by
  simp [readItem?, Pattern.char]

theorem readItem?_char_eq_some (h : readItem? (Pattern.char c) parts text = some (found, rest)) :
    text = c :: rest := by
  cases text with
  | nil => simp [readItem?, Pattern.char] at h
  | cons d tail =>
    obtain ⟨rfl, -, rfl⟩ : c = d ∧ parts = found ∧ tail = rest := by
      simpa [readItem?, Pattern.char] using h
    rfl

theorem readItem?_char_eq_none (h : text.head? ≠ some c) :
    readItem? (Pattern.char c) parts text = none := by
  cases text with
  | nil => simp [readItem?, Pattern.char]
  | cons d rest =>
    have hne : ¬ c = d := by
      rintro rfl
      simp at h
    simp [readItem?, Pattern.char, hne]

theorem readItem?_number_eq_none (h : NoDigit (dropBlanks text))
    (hsign : signed = false) : readItem? (.number numeral limit signed) parts text = none := by
  simp only [readItem?, numberAt?, hsign]
  rw [number?_eq_none h (by decide)]
  rfl

end Items

namespace Parts

variable {parts : Parts} {part : Part} {value low high : Int}

theorem get?_nil (part : Part) : get? [] part = none := rfl

theorem get?_cons (entry : Part) (value : Int) (parts : Parts) (part : Part) :
    get? ((entry, value) :: parts) part = if entry = part then some value else parts.get? part := by
  by_cases h : entry = part <;> simp [get?, h]

theorem set?_of_get?_none (hbounds : part.bounds = (low, high)) (hlow : low ≤ value)
    (hhigh : value ≤ high) (hnone : parts.get? part = none) :
    parts.set? part value = some ((part, value) :: parts) := by
  rw [set?, hbounds, if_pos ⟨hlow, hhigh⟩, hnone]

-- The parts of a time of day.
def isClock : Part → Bool
  | .half | .hourOfHalf | .minute | .second | .nanosecond => true
  | _ => false

theorem date_cons (h : isClock part = true) : date ((part, value) :: parts) = date parts := by
  cases part
  case half | hourOfHalf | minute | second | nanosecond => rfl
  all_goals simp [isClock] at h

end Parts

-- A number within the bounds of its part, which is not given yet.
theorem readItem?_part {part : Part} {parts : Parts} {width n : Nat} {signed : Bool}
    {digits rest : List Char} {low high : Int} (h : Counts (width + 1) n digits)
    (hwidth : width + 1 ≤ 18) (hbounds : part.bounds = (low, high)) (hlow : low ≤ n)
    (hhigh : n ≤ high) (hnone : parts.get? part = none) :
    readItem? (.number (.part part) (some (width + 1)) signed) parts (digits ++ rest) =
      some ((part, (n : Int)) :: parts, rest) := by
  rw [readItem?_number h hwidth, Numeral.set?, Parts.set?_of_get?_none hbounds hlow hhigh hnone]
  rfl

end Timestamp

namespace CivilTime

open Timestamp Timestamp.Lexeme

variable {time : CivilTime} {rest : List Char}

def dateItems : List Item :=
  [Pattern.year, Pattern.char '-', Pattern.month, Pattern.char '-', Pattern.day]

def minuteItems : List Item := [Pattern.hour, Pattern.char ':', Pattern.minute]

def secondItems : List Item := [Pattern.char ':', Pattern.second, .fraction]

-- The parts of the date, and the parts that a time to the minute or to a
-- fraction of a second adds to them.
def dateParts (time : CivilTime) : Parts :=
  [(.day, time.date.day), (.month, time.date.month), (.year, time.date.year)]

def minuteParts (time : CivilTime) : Parts :=
  (.minute, (time.minute : Int)) :: (.hourOfHalf, (time.hour : Int) % 12) ::
    (.half, (time.hour : Int) / 12) :: time.dateParts

def secondParts (time : CivilTime) : Parts :=
  (if time.fraction = [] then [] else [(.nanosecond, (nanoseconds time.fraction : Int))]) ++
    (.second, (time.second : Int)) :: time.minuteParts

theorem readAll?_dateText (h : time.Valid) :
    readAll? dateItems [] (time.dateText ++ rest) = some (time.dateParts, rest) := by
  have hyear : (time.date.year.toNat : Int) = time.date.year := Int.toNat_of_nonneg h.year_nonneg
  have hyearHigh := h.year_le
  have hmonthLow := h.date.month_pos
  have hmonthHigh := h.date.month_le
  have hdayLow := h.date.day_pos
  have hdayHigh := Nat.le_trans h.date.day_le (Calendar.daysInMonth_le ..)
  have hreadYear (rest : List Char) :
      readItem? Pattern.year [] ((padded 4 time.date.year.toNat).toList ++ rest) =
        some ([(.year, time.date.year)], rest) := by
    rw [← hyear]
    exact readItem?_part h.counted.year (by decide) rfl (by omega) (by omega) rfl
  have hreadMonth (rest : List Char) (parts : Parts) (hnone : parts.get? .month = none) :
      readItem? Pattern.month parts ((padded 2 time.date.month).toList ++ rest) =
        some ((.month, (time.date.month : Int)) :: parts, rest) :=
    readItem?_part h.counted.month (by decide) rfl (by omega) (by omega) hnone
  have hreadDay (rest : List Char) (parts : Parts) (hnone : parts.get? .day = none) :
      readItem? Pattern.day parts ((padded 2 time.date.day).toList ++ rest) =
        some ((.day, (time.date.day : Int)) :: parts, rest) :=
    readItem?_part h.counted.day (by decide) rfl (by omega) (by omega) hnone
  simp only [dateItems, dateText, List.append_assoc, List.cons_append]
  rw [readAll?_next (hreadYear _) trivial, readAll?_next readItem?_char trivial,
    readAll?_next (hreadMonth _ _ rfl) trivial, readAll?_next readItem?_char trivial,
    readAll?_next (hreadDay _ _ rfl) trivial]
  rfl

theorem date_dateParts (h : time.Valid) : time.dateParts.date = .ok time.date := by
  -- Only the year, the month and the day are given, so nothing else must agree.
  have hparts : time.dateParts.date = (do
      let date ← Parts.orImpossible (Calendar.date? time.date.year time.date.month time.date.day)
      if time.dateParts.agreesYmd date && true && true && true then .ok date
      else .error .impossible) := rfl
  have hagrees : time.dateParts.agreesYmd time.date = true := by
    simp [Parts.agreesYmd, Parts.agrees, Parts.agreesIf, dateParts, Parts.get?_cons, Parts.get?_nil]
  rw [hparts, date?_eq h]
  change (if (time.dateParts.agreesYmd time.date && true && true && true) = true then
    Except.ok time.date else .error Defect.impossible) = .ok time.date
  rw [hagrees]
  rfl

theorem date_minuteParts (h : time.Valid) : time.minuteParts.date = .ok time.date := by
  rw [minuteParts, Parts.date_cons rfl, Parts.date_cons rfl, Parts.date_cons rfl, date_dateParts h]

theorem date_secondParts (h : time.Valid) : time.secondParts.date = .ok time.date := by
  unfold secondParts
  split
  · rw [List.nil_append, Parts.date_cons rfl, date_minuteParts h]
  · rw [List.cons_append, List.nil_append, Parts.date_cons rfl, Parts.date_cons rfl,
      date_minuteParts h]

theorem readAll?_minuteText (h : time.Valid) :
    readAll? minuteItems time.dateParts (time.minuteText ++ rest) =
      some (time.minuteParts, rest) := by
  have hhour := h.hour_lt
  have hminute := h.minute_lt
  have hhalf : time.dateParts.set? .half ((time.hour : Int) / 12) =
      some ((.half, (time.hour : Int) / 12) :: time.dateParts) :=
    Parts.set?_of_get?_none rfl (by omega) (by omega) rfl
  have hhourOfHalf : Parts.set? ((.half, (time.hour : Int) / 12) :: time.dateParts) .hourOfHalf
      ((time.hour : Int) % 12) = some ((.hourOfHalf, (time.hour : Int) % 12) ::
        (.half, (time.hour : Int) / 12) :: time.dateParts) :=
    Parts.set?_of_get?_none rfl (by omega) (by omega) rfl
  have hreadHour (rest : List Char) : readItem? Pattern.hour time.dateParts
      ((padded 2 time.hour).toList ++ rest) = some ((.hourOfHalf, (time.hour : Int) % 12) ::
        (.half, (time.hour : Int) / 12) :: time.dateParts, rest) := by
    rw [Pattern.hour, readItem?_number h.counted.hour (by decide), Numeral.set?,
      if_pos (by omega), Parts.setHour?, bind_of_eq_some hhalf, hhourOfHalf]
    rfl
  have hreadMinute (rest : List Char) (parts : Parts) (hnone : parts.get? .minute = none) :
      readItem? Pattern.minute parts ((padded 2 time.minute).toList ++ rest) =
        some ((.minute, (time.minute : Int)) :: parts, rest) :=
    readItem?_part h.counted.minute (by decide) rfl (by omega) (by omega) hnone
  simp only [minuteItems, minuteText, List.append_assoc, List.cons_append]
  rw [readAll?_next (hreadHour _) trivial, readAll?_next readItem?_char trivial,
    readAll?_next (hreadMinute _ _ rfl) trivial]
  rfl

theorem readAll?_secondText (h : time.Valid) :
    readAll? secondItems time.minuteParts time.secondText = some (time.secondParts, []) := by
  have hsecond := h.second_le
  have hnanoseconds := nanoseconds_lt h.fraction
  have hreadSecond (rest : List Char) (parts : Parts) (hnone : parts.get? .second = none) :
      readItem? Pattern.second parts ((padded 2 time.second).toList ++ rest) =
        some ((.second, (time.second : Int)) :: parts, rest) :=
    readItem?_part h.counted.second (by decide) rfl (by omega) (by omega) hnone
  have hreadFraction : readItem? .fraction ((.second, (time.second : Int)) :: time.minuteParts)
      (pointed time.fraction) = some (time.secondParts, []) := by
    by_cases hnone : time.fraction = []
    · simp [pointed, secondParts, hnone, readItem?]
    · have hfraction : fraction? time.fraction = some (nanoseconds time.fraction, []) := by
        simpa using fraction?_append h.fraction hnone noDigit_nil
      have hset : Parts.set? ((.second, (time.second : Int)) :: time.minuteParts) .nanosecond
          (nanoseconds time.fraction) = some ((.nanosecond, (nanoseconds time.fraction : Int)) ::
            (.second, (time.second : Int)) :: time.minuteParts) :=
        Parts.set?_of_get?_none rfl (by omega) (by omega) rfl
      simp [pointed, secondParts, hnone, readItem?, fractionAt?, hfraction, hset]
  simp only [secondItems, secondText]
  rw [readAll?_next readItem?_char trivial, readAll?_next (hreadSecond _ _ rfl) trivial,
    readAll?_next hreadFraction trivial]
  rfl

theorem localTime?_eq {parts : Parts} {date : Calendar.Date} {hour minute second nanosecond : Nat}
    (hdate : parts.date = .ok date) (hclock : parts.clock = .ok (hour, minute, second, nanosecond))
    (hepoch : parts.get? .epochSecond = none) :
    parts.localTime? 0 = LocalTime.ofClock? date hour minute second nanosecond := by
  have hboth : parts.dateAndClock =
      Parts.orImpossible (LocalTime.ofClock? date hour minute second nanosecond) := by
    simp only [Parts.dateAndClock, hdate, hclock]
    rfl
  simp only [Parts.localTime?, hdate, hclock, hepoch, hboth]
  cases LocalTime.ofClock? date hour minute second nanosecond <;> rfl

theorem clock_minuteParts (time : CivilTime) :
    time.minuteParts.clock = .ok (time.hour, time.minute, 0, 0) := by
  have hhour : ((time.hour : Int) / 12 * 12 + (time.hour : Int) % 12).toNat = time.hour := by omega
  change Except.ok (((time.hour : Int) / 12 * 12 + (time.hour : Int) % 12).toNat, time.minute,
    0, 0) = _
  rw [hhour]

theorem clock_secondParts (time : CivilTime) :
    time.secondParts.clock =
      .ok (time.hour, time.minute, time.second, nanoseconds time.fraction) := by
  have hhour : ((time.hour : Int) / 12 * 12 + (time.hour : Int) % 12).toNat = time.hour := by omega
  unfold secondParts
  split
  case isTrue hnone =>
    rw [hnone, nanoseconds_nil]
    change Except.ok (((time.hour : Int) / 12 * 12 + (time.hour : Int) % 12).toNat, time.minute,
      time.second, 0) = _
    rw [hhour]
  case isFalse =>
    change Except.ok (((time.hour : Int) / 12 * 12 + (time.hour : Int) % 12).toNat, time.minute,
      time.second, nanoseconds time.fraction) = _
    rw [hhour]

end CivilTime

end Chronicle
