import Chronicle.Import.Importer
import Chronicle.Proofs.Import.Spelling

-- Timestamps without an offset mean the configured zone: a date and a time are
-- read, however they are spelled, as the instant that they have with the zone
-- written out. Texts with an offset of their own do not depend on the zone.

namespace Chronicle

namespace Text

variable {text : List Char}

-- A last character that is not blank.
def EndsDark (text : List Char) : Prop := ∃ front c, text = front ++ [c] ∧ isBlank c = false

theorem EndsDark.append (h : EndsDark text) (before : List Char) : EndsDark (before ++ text) := by
  obtain ⟨front, c, rfl, hdark⟩ := h
  exact ⟨before ++ front, c, by rw [List.append_assoc], hdark⟩

theorem EndsDark.cons (h : EndsDark text) (c : Char) : EndsDark (c :: text) := h.append [c]

theorem trim_eq_self {c : Char} {rest : List Char} (hfirst : text = c :: rest)
    (hc : isBlank c = false) (hlast : EndsDark text) : trim text = text := by
  have hstart : trimStart text = text := by simp [trimStart, hfirst, hc]
  obtain ⟨front, d, htext, hdark⟩ := hlast
  rw [trim, hstart, htext]
  simp [trimEnd, trimStart, hdark]

end Text

open Timestamp Timestamp.Lexeme

namespace Timestamp.Lexeme

variable {width n : Nat} {digits : List Char}

theorem AllDigits.endsDark (h : AllDigits digits) (hne : digits ≠ []) : Text.EndsDark digits :=
  ⟨digits.dropLast, digits.getLast hne, (List.dropLast_concat_getLast hne).symm,
    not_blank_of_isDigit (h _ (List.getLast_mem hne))⟩

theorem Counts.endsDark (h : Counts (width + 1) n digits) : Text.EndsDark digits := by
  refine h.allDigits.endsDark ?_
  rintro rfl
  cases h.length_eq

end Timestamp.Lexeme

namespace Import

-- A text that tells an offset at its end: the letter `Z`, or a sign with hours
-- and minutes.
inductive EndsInOffset (text : List Char) : Prop
  | zulu (front : List Char) (c : Char) (htext : text = front ++ [c]) (hc : c = 'Z' ∨ c = 'z')
  | signed (front hours colon minutes : List Char) (sign : Char) (hour minute : Nat)
      (htext : text = front ++ sign :: (hours ++ (colon ++ minutes)))
      (hsign : sign = '+' ∨ sign = '-' ∨ sign = '\u2212') (hhours : Counts 2 hour hours)
      (hcolon : colon = [] ∨ colon = [':']) (hminutes : Counts 2 minute minutes)

section Marks

variable {text front back front' back' : List Char} {mark mark' : Char}

-- The last mark of a text is in one place.
theorem back_eq_of_last_mark (h : front ++ mark :: back = front' ++ mark' :: back')
    (hmark : IsMark mark) (hmark' : IsMark mark') (hback : ∀ c ∈ back, ¬ IsMark c)
    (hback' : ∀ c ∈ back', ¬ IsMark c) : mark = mark' ∧ back = back' := by
  rcases List.append_eq_append_iff.mp h with ⟨between, -, hrest⟩ | ⟨between, -, hrest⟩
  · cases between with
    | nil => simpa using hrest
    | cons c between =>
      obtain ⟨-, rfl⟩ : mark = c ∧ back = between ++ mark' :: back' := by simpa using hrest
      exact absurd hmark' (hback mark' (by simp))
  · cases between with
    | nil => simpa [eq_comm] using hrest
    | cons c between =>
      obtain ⟨-, rfl⟩ : mark' = c ∧ back' = between ++ mark :: back := by simpa using hrest
      exact absurd hmark (hback' mark (by simp))

end Marks

-- An item that takes characters of a text, but no mark of an offset.
def TakesNoMark (item : Item) : Prop := item.IsPlain ∧ ∀ c, item.Takes c → ¬ IsMark c

section Items

variable {numeral : Numeral} {limit : Option Nat} {c : Char} {items : List Item}
  {parts found : Parts} {text : List Char}

theorem takesNoMark_number : TakesNoMark (.number numeral limit false) := by
  refine ⟨trivial, fun c htakes => ?_⟩
  rcases htakes with hblank | hdigit | ⟨hsigned, -⟩
  · exact not_isMark_of_isBlank hblank
  · exact not_isMark_of_isDigit hdigit
  · cases hsigned

theorem takesNoMark_blanks : TakesNoMark .blanks :=
  ⟨trivial, fun _ hblank => not_isMark_of_isBlank hblank⟩

theorem takesNoMark_fraction : TakesNoMark .fraction := by
  refine ⟨trivial, fun c htakes => ?_⟩
  rcases htakes with rfl | hdigit
  · simp [IsMark]
  · exact not_isMark_of_isDigit hdigit

theorem takesNoMark_char (h : ¬ IsMark c) : TakesNoMark (Pattern.char c) := by
  refine ⟨trivial, fun d htakes => ?_⟩
  obtain rfl : d = c := by simpa [Item.Takes, Pattern.char] using htakes
  exact h

-- What such items read to its end has no mark.
theorem not_isMark_of_readAll? (hitems : ∀ item ∈ items, TakesNoMark item)
    (h : readAll? items parts text = some (found, [])) : ∀ c ∈ text, ¬ IsMark c := by
  obtain ⟨taken, htext, htaken⟩ := taken_of_readAll? (fun item hmem => (hitems item hmem).1) h
  rw [htext, List.append_nil]
  intro c hc
  obtain ⟨item, hmem, htakes⟩ := htaken c hc
  exact (hitems item hmem).2 c htakes

end Items

namespace Spelling

variable {text : List Char} {spelling : Spelling}

theorem takesNoMark_items (spelling : Spelling) :
    ∀ item ∈ Pattern.day :: spelling.items, TakesNoMark item := by
  have hnumber (numeral : Numeral) (limit : Option Nat) :
      TakesNoMark (.number numeral limit false) := takesNoMark_number
  have hcolon : TakesNoMark (Pattern.char ':') := takesNoMark_char (by simp [IsMark])
  have hseparator (blank : Bool) : TakesNoMark (separatorItem blank) := by
    cases blank
    · exact takesNoMark_char (by simp [IsMark])
    · exact takesNoMark_blanks
  cases spelling <;>
    simp [items, CivilTime.minuteItems, CivilTime.secondItems, Pattern.day, Pattern.hour,
      Pattern.minute, Pattern.second, Pattern.numeral, hnumber, hcolon, hseparator,
      takesNoMark_fraction]

-- Reading comes past a second dash.
theorem exists_of_parts? {found : Parts}
    (h : parts? spelling.pattern.toList text = some found) :
    ∃ front left before, text = front ++ '-' :: left ∧
      readAll? (Pattern.day :: spelling.items) before left = some (found, []) := by
  have hitems : Pattern.items spelling.pattern.toList =
      [Pattern.year, Pattern.char '-', Pattern.month] ++
        (Pattern.char '-' :: (Pattern.day :: spelling.items)) := items_pattern spelling
  have hplain : ∀ item ∈ [Pattern.year, Pattern.char '-', Pattern.month], item.IsPlain := by
    simp [Pattern.year, Pattern.char, Pattern.month, Pattern.numeral, Item.IsPlain]
  simp only [parts?, hitems, readAll?_append, Option.bind_eq_bind, Option.bind_eq_some_iff,
    Option.ite_none_right_eq_some, Option.some.injEq, Prod.exists] at h
  obtain ⟨_, _, ⟨before, dashed, hfront, hdash⟩, rfl, rfl⟩ := h
  have hplainDash : (Pattern.char '-').IsPlain := trivial
  rw [readAll?_cons hplainDash, Option.bind_eq_some_iff] at hdash
  obtain ⟨⟨before, left⟩, hchar, hread⟩ := hdash
  obtain ⟨front, htext, -⟩ := taken_of_readAll? hplain hfront
  exact ⟨front, left, before, by rw [htext, readItem?_char_eq_some hchar], hread⟩

-- Minutes of an offset are no time of day, with or without the colon before them.
theorem readAll?_offset {minutes colon : List Char} {minute : Nat} {more : List Item}
    {parts : Parts} (hcolon : colon = [] ∨ colon = [':'])
    (hminutes : Counts 2 minute minutes) (blank : Bool) :
    readAll? (separatorItem blank :: (CivilTime.minuteItems ++ more)) parts (colon ++ minutes) =
      none := by
  obtain ⟨c, tail, htail, hdigit⟩ := hminutes.head
  have hletter : c ≠ 'T' := by
    rintro rfl
    revert hdigit
    decide
  cases blank with
  | false =>
    refine readAll?_stop (readItem?_char_eq_none ?_) trivial
    rcases hcolon with rfl | rfl <;> simp [htail, hletter]
  | true =>
    have hblanks : readItem? .blanks parts (colon ++ minutes) = some (parts, colon ++ minutes) := by
      have hdark := not_blank_of_isDigit hdigit
      have hcolonDark : Text.isBlank ':' = false := by decide
      rcases hcolon with rfl | rfl <;> simp [readItem?, dropBlanks, htail, hdark, hcolonDark]
    refine (readAll?_next hblanks trivial).trans ?_
    rcases hcolon with rfl | rfl
    · -- They would be the hour, with no minutes behind it.
      have hhour : readItem? Pattern.hour parts ([] ++ minutes) =
          (Numeral.set? parts minute .hour).map fun found => (found, []) := by
        rw [List.nil_append, ← List.append_nil minutes]
        exact readItem?_number hminutes (by decide)
      cases hset : Numeral.set? parts minute .hour with
      | none =>
        rw [hset, Option.map_none] at hhour
        exact readAll?_stop hhour trivial
      | some found =>
        rw [hset, Option.map_some] at hhour
        refine (readAll?_next hhour trivial).trans ?_
        exact readAll?_stop (readItem?_char_eq_none (by simp)) trivial
    · exact readAll?_stop (readItem?_number_eq_none (noDigit_cons (by decide)) rfl) trivial

theorem parts?_eq_none (h : EndsInOffset text) (spelling : Spelling) :
    parts? spelling.pattern.toList text = none := by
  by_contra hsome
  obtain ⟨found, hfound⟩ := Option.ne_none_iff_exists'.mp hsome
  obtain ⟨front, left, before, htext, hread⟩ := exists_of_parts? hfound
  have hleft := not_isMark_of_readAll? (takesNoMark_items spelling) hread
  have hdash : IsMark '-' := .inr (.inl rfl)
  cases h with
  | zulu front' c htext' hc =>
    have hmark : IsMark c := by
      rcases hc with rfl | rfl <;> simp [IsMark]
    obtain ⟨rfl, -⟩ := back_eq_of_last_mark (htext.symm.trans htext') hdash hmark hleft (by simp)
    revert hc
    decide
  | signed front' hours colon minutes sign hour minute htext' hsign hhours hcolon hminutes =>
    have hmark : IsMark sign := by
      rcases hsign with rfl | rfl | rfl <;> simp [IsMark]
    have hnumbers : ∀ c ∈ hours ++ (colon ++ minutes), ¬ IsMark c := by
      intro c hc
      simp only [List.mem_append] at hc
      rcases hc with hin | hin | hin
      · exact not_isMark_of_isDigit (hhours.allDigits c hin)
      · rcases hcolon with rfl | rfl
        · simp at hin
        · obtain rfl : c = ':' := by simpa using hin
          simp [IsMark]
      · exact not_isMark_of_isDigit (hminutes.allDigits c hin)
    -- What is read behind the dash are the hours and the minutes of the offset.
    obtain ⟨-, rfl⟩ :=
      back_eq_of_last_mark (htext.symm.trans htext') hdash hmark hleft hnumbers
    rw [readAll?_cons (show Pattern.day.IsPlain from trivial), Pattern.day, Pattern.numeral,
      readItem?_number hhours (by decide), Option.bind_eq_some_iff] at hread
    obtain ⟨⟨parts, rest⟩, hday, hread⟩ := hread
    obtain ⟨-, -, -, rfl⟩ : ∃ set, Numeral.set? before hour (.part .day) = some set ∧
        set = parts ∧ colon ++ minutes = rest := by
      simpa [Option.map_eq_some_iff] using hday
    cases spelling with
    | seconds blank => rw [items, readAll?_offset hcolon hminutes] at hread; cases hread
    | minutes blank => rw [items, readAll?_offset hcolon hminutes] at hread; cases hread
    | date =>
      have hnone : colon ++ minutes = [] := by
        simp only [items, readAll?, Option.some.injEq, Prod.mk.injEq] at hread
        exact hread.2
      have hlength := hminutes.length_eq
      rw [(List.append_eq_nil_iff.mp hnone).2] at hlength
      cases hlength

end Spelling

namespace EndsInOffset

variable {text written : List Char} {seconds : Int}

theorem append (h : EndsInOffset text) (before : List Char) : EndsInOffset (before ++ text) := by
  cases h with
  | zulu front c htext hc => exact .zulu (before ++ front) c (by rw [htext, List.append_assoc]) hc
  | signed front hours colon minutes sign hour minute htext hsign hhours hcolon hminutes =>
    exact .signed (before ++ front) hours colon minutes sign hour minute
      (by rw [htext, List.append_assoc]) hsign hhours hcolon hminutes

theorem cons (h : EndsInOffset text) (c : Char) : EndsInOffset (c :: text) := h.append [c]

theorem endsDark (h : EndsInOffset text) : Text.EndsDark text := by
  cases h with
  | zulu front c htext hc =>
    refine ⟨front, c, htext, ?_⟩
    rcases hc with rfl | rfl <;> decide
  | signed front hours colon minutes sign hour minute htext hsign hhours hcolon hminutes =>
    rw [htext]
    exact (((hminutes.endsDark.append colon).append hours).cons sign).append front

-- Every offset that RFC 3339 reads is one.
theorem of_offset? (h : offset? .rfc3339 written = some (seconds, [])) : EndsInOffset written := by
  unfold offset? at h
  split at h
  case h_1 rest =>
    obtain ⟨-, rfl⟩ : 0 = seconds ∧ rest = [] := by simpa [OffsetForm.rfc3339] using h
    exact .zulu [] 'Z' rfl (.inl rfl)
  case h_2 rest =>
    obtain ⟨-, rfl⟩ : 0 = seconds ∧ rest = [] := by simpa [OffsetForm.rfc3339] using h
    exact .zulu [] 'z' rfl (.inr rfl)
  case h_3 =>
    obtain ⟨⟨sign, negative, tail, rfl, hsign⟩, -⟩ := signedOffset?_eq_some h
    obtain ⟨hour, afterHours, hhours, atMinutes, hcolon, minute, hminutes, -⟩ :
        ∃ hour afterHours, number? 2 2 tail = some (hour, afterHours) ∧
          ∃ atMinutes, char? ':' afterHours = some atMinutes ∧
            ∃ minute, number? 2 2 atMinutes = some (minute, []) ∧ _ := by
      simpa [signedOffset?, hsign, OffsetForm.rfc3339, Option.bind_eq_some_iff] using h
    obtain ⟨hourDigits, rfl, hhour⟩ := number?_exact_eq_some hhours
    obtain ⟨minuteDigits, rfl, hminute⟩ := number?_exact_eq_some hminutes
    rw [char?_eq_some hcolon, List.append_nil]
    exact .signed [] hourDigits [':'] minuteDigits sign hour minute rfl
      (isNegativeSign?_eq_some hsign) hhour (.inr rfl) hminute

theorem standard?_eq (h : EndsInOffset text) (zone : Offset) :
    Recognizer.standard? zone text = ofRfc3339Chars? text := by
  have hpatterns : Recognizer.localPatterns.findSome? (Recognizer.localTime? text) = none := by
    simp [Spelling.localPatterns_eq, Recognizer.localTime?, Spelling.parts?_eq_none h]
  have hdate : parts? Recognizer.datePattern.toList text = none := Spelling.parts?_eq_none h .date
  cases hread : ofRfc3339Chars? text with
  | some timestamp => simp only [Recognizer.standard?, hread]
  | none =>
    simp only [Recognizer.standard?, hread, hpatterns, hdate]
    rfl

end EndsInOffset

namespace Recognizer

variable {time : CivilTime} {text written : List Char} {zone : Offset} {timezone : Option String}
  {separator : Char} {seconds : Int}

-- Zones are whole minutes, and every offset of whole minutes is one.
theorem whole_of_zone? (h : zone? timezone = some zone) : zone.seconds % 60 = 0 := by
  cases timezone with
  | none =>
    obtain rfl : Offset.utc = zone := by simpa [zone?] using h
    rfl
  | some name =>
    simp only [zone?, Option.bind_eq_bind] at h
    split at h
    case isTrue =>
      obtain rfl : Offset.utc = zone := by simpa using h
      rfl
    case isFalse =>
      simp only [Option.bind_eq_some_iff, Prod.exists] at h
      obtain ⟨seconds, rest, hread, hoffset⟩ := h
      have hseconds : zone.seconds = seconds := by
        unfold Offset.ofSeconds? at hoffset
        split at hoffset
        · cases hoffset
          rfl
        · cases hoffset
      rw [hseconds]
      exact (offset?_eq_some hread).2

theorem zone?_offsetText (h : zone.seconds % 60 = 0) :
    zone? (some (offsetText zone)) = some zone := by
  by_cases hzero : zone.seconds = 0
  · have hutc : zone = Offset.utc := by
      cases zone
      simpa [Offset.utc] using hzero
    subst hutc
    rfl
  · have hread : offset? .plain (offsetText zone).toList = some (zone.seconds, []) := by
      rw [offset?_offsetText_of_ne_zero hzero, nearestMinute_eq_iff.mpr h]
    obtain ⟨⟨c, tail, htext, hmark⟩, -⟩ := offset?_eq_some hread
    have htrim : Text.trim (offsetText zone).toList = (offsetText zone).toList :=
      Text.trim_eq_self htext (isBlank_of_isMark hmark)
        (EndsInOffset.of_offset? (offset?_offsetText zone)).endsDark
    -- None of the names of UTC is an offset with a sign.
    have hname : ¬ ((offsetText zone).toList = [] ∨ (offsetText zone).toList = ['U', 'T', 'C'] ∨
        (offsetText zone).toList = ['Z']) := by
      rintro (hname | hname | hname) <;> rw [hname] at hread <;> cases hread
    simp only [zone?, htrim, if_neg hname]
    rw [bind_of_eq_some hread, Offset.ofSeconds?_seconds]

-- A text without blanks around it is read as it is.
theorem read?_ofList (h : Text.trim text = text) :
    read? ⟨none, zone⟩ (.string (String.ofList text)) = standard? zone text := by
  simp only [read?, ofText?, String.toList_ofList, h]

theorem exists_dateText (h : time.Valid) :
    ∃ c rest, time.dateText = c :: rest ∧ Text.isBlank c = false := by
  obtain ⟨c, digits, hyear, hdigit⟩ := h.counted.year.head
  refine ⟨c, digits ++ '-' :: ((padded 2 time.date.month).toList ++
    '-' :: (padded 2 time.date.day).toList), ?_, not_blank_of_isDigit hdigit⟩
  rw [CivilTime.dateText, hyear, List.cons_append]

theorem trim_dateText (h : time.Valid) (hdark : Text.EndsDark (time.dateText ++ text)) :
    Text.trim (time.dateText ++ text) = time.dateText ++ text := by
  obtain ⟨c, rest, htext, hc⟩ := exists_dateText h
  exact Text.trim_eq_self (by rw [htext, List.cons_append]) hc hdark

theorem endsDark_secondText (h : time.Valid) : Text.EndsDark time.secondText := by
  unfold CivilTime.secondText CivilTime.pointed
  refine Text.EndsDark.cons ?_ ':'
  split
  case isTrue =>
    rw [List.append_nil]
    exact h.counted.second.endsDark
  case isFalse hdigits => exact ((h.fraction.endsDark hdigits).cons '.').append _

theorem endsDark_minuteText (h : time.Valid) : Text.EndsDark time.minuteText :=
  (h.counted.minute.endsDark.cons ':').append _

theorem endsDark_dateText (h : time.Valid) : Text.EndsDark time.dateText :=
  (((h.counted.day.endsDark.cons '-').append _).cons '-').append _

theorem trim_spelling (h : time.Valid) (spelling : Spelling) :
    Text.trim (spelling.text time) = spelling.text time := by
  cases spelling with
  | seconds blank =>
    exact trim_dateText h ((((endsDark_secondText h).append _).cons _).append _)
  | minutes blank => exact trim_dateText h (((endsDark_minuteText h).cons _).append _)
  | date =>
    have hdark := endsDark_dateText h
    rw [← List.append_nil time.dateText] at hdark
    have htrim := trim_dateText h hdark
    rwa [List.append_nil] at htrim

theorem endsInOffset_rfc3339 (hwritten : offset? .rfc3339 written = some (seconds, [])) :
    EndsInOffset (time.rfc3339 separator written) := by
  have hclock := ((EndsInOffset.of_offset? hwritten).append time.secondText).append time.minuteText
  rw [CivilTime.rfc3339]
  exact (hclock.cons separator).append time.dateText

theorem trim_rfc3339 (h : time.Valid) (hwritten : offset? .rfc3339 written = some (seconds, [])) :
    Text.trim (time.rfc3339 separator written) = time.rfc3339 separator written := by
  have hend : EndsInOffset (time.rfc3339 separator written) := endsInOffset_rfc3339 hwritten
  rw [CivilTime.rfc3339] at hend ⊢
  exact trim_dateText h hend.endsDark

-- How texts are read where no pattern is configured.
structure MeansZone (recognizer : Recognizer) : Prop where
  -- A date and a time are in the configured zone, however they are spelled.
  naive : ∀ {time : CivilTime}, time.Valid → ∀ spelling : Spelling,
    recognizer.read? (.string (String.ofList (spelling.text time))) =
      some ((spelling.spelled time).instant recognizer.zone)
  -- With an offset written out they are at that offset.
  zoned : ∀ {time : CivilTime}, time.Valid → ∀ {separator : Char} {written : List Char}
    {seconds : Int}, isDateTimeSeparator separator = true →
    offset? .rfc3339 written = some (seconds, []) →
    recognizer.read? (.string (String.ofList (time.rfc3339 separator written))) =
      (Offset.ofSeconds? seconds).map time.instant
  -- So it makes no difference if the zone is written out, which is possible.
  same : ∀ {time : CivilTime}, time.Valid → ∀ (spelling : Spelling) {separator : Char}
    {written : List Char}, isDateTimeSeparator separator = true →
    offset? .rfc3339 written = some (recognizer.zone.seconds, []) →
    recognizer.read? (.string (String.ofList (spelling.text time))) =
      recognizer.read? (.string (String.ofList ((spelling.spelled time).rfc3339 separator written)))
  written : offset? .rfc3339 (offsetText recognizer.zone).toList =
    some (recognizer.zone.seconds, [])
  -- Written out, the zone is also what configures it.
  configured : zone? (some (offsetText recognizer.zone)) = some recognizer.zone
  -- A text that tells its offset does not depend on the zone.
  independent : ∀ text : String, EndsInOffset (Text.trim text.toList) → ∀ zone : Offset,
    recognizer.read? (.string text) = read? ⟨none, zone⟩ (.string text)

theorem meansZone {config : Config} {importer : Importer}
    (hconfig : Importer.ofConfig config = .ok importer) (hpattern : config.timestampFormat = none) :
    importer.recognizer.MeansZone := by
  obtain ⟨zone, hzone, hrecognizer⟩ : ∃ zone, zone? config.timezone = some zone ∧
      importer.recognizer = ⟨none, zone⟩ := by
    unfold Importer.ofConfig at hconfig
    split at hconfig
    case h_1 zone hzone =>
      cases hconfig
      exact ⟨zone, hzone, by rw [hpattern]⟩
    case h_2 => cases hconfig
  have hnaive {time : CivilTime} (h : time.Valid) (spelling : Spelling) :
      read? ⟨none, zone⟩ (.string (String.ofList (spelling.text time))) =
        some ((spelling.spelled time).instant zone) := by
    rw [read?_ofList (trim_spelling h spelling), Spelling.standard?_text h]
  have hzoned {time : CivilTime} (h : time.Valid) {separator : Char} {written : List Char}
      {seconds : Int} (hseparator : isDateTimeSeparator separator = true)
      (hwritten : offset? .rfc3339 written = some (seconds, [])) :
      read? ⟨none, zone⟩ (.string (String.ofList (time.rfc3339 separator written))) =
        (Offset.ofSeconds? seconds).map time.instant := by
    rw [read?_ofList (trim_rfc3339 h hwritten), (endsInOffset_rfc3339 hwritten).standard?_eq,
      CivilTime.ofRfc3339Chars?_rfc3339 h hseparator hwritten]
  rw [hrecognizer]
  refine ⟨hnaive, hzoned, ?_, ?_, zone?_offsetText (whole_of_zone? hzone), ?_⟩
  · intro time h spelling separator written hseparator hwritten
    rw [hnaive h, hzoned (Spelling.valid_spelled h spelling) hseparator hwritten,
      Offset.ofSeconds?_seconds, Option.map_some]
  · rw [offset?_offsetText, nearestMinute_eq_iff.mpr (whole_of_zone? hzone)]
  · intro text hend other
    simp only [read?, ofText?, hend.standard?_eq]

-- An evening in a zone two hours ahead of UTC.
theorem meansZone_evening :
    let config := { Config.ofKind "reading" with timezone := some "+02:00" }
    ∃ importer, Importer.ofConfig config = .ok importer ∧ importer.recognizer.MeansZone ∧
      importer.recognizer.read? (.string "2024-03-01 20:00") =
        some ⟨1709316000000000, some ⟨7200, by decide, by decide⟩⟩ := by
  let config := { Config.ofKind "reading" with timezone := some "+02:00" }
  let importer : Importer := ⟨config, ⟨none, ⟨7200, by decide, by decide⟩⟩⟩
  have hconfig : Importer.ofConfig config = .ok importer := rfl
  have hmeans : importer.recognizer.MeansZone := meansZone hconfig rfl
  have hvalid : CivilTime.Valid ⟨⟨2024, 3, 1⟩, 20, 0, 0, []⟩ :=
    ⟨⟨by decide, by decide, by decide, by decide⟩, by decide, by decide, by decide, by decide,
      by decide, by simp [AllDigits]⟩
  exact ⟨importer, hconfig, hmeans, hmeans.naive hvalid (.minutes true)⟩

end Recognizer

end Import

end Chronicle
