import Chronicle.Timestamp.Display
import Chronicle.Timestamp.Lexeme
import Mathlib.Algebra.Ring.Nat
import Mathlib.Data.List.Induction
import Mathlib.Data.List.TakeWhile
import Mathlib.Tactic.SplitIfs

-- The pieces of timestamp texts as they are written, and that readers take them
-- back: numbers of a fixed width, the digits after a point, and offsets.

namespace Chronicle.Timestamp

namespace Lexeme

variable {width n least most : Nat} {digits rest text : Text} {c : Char}

def AllDigits (text : Text) : Prop := ∀ c ∈ text, c.isDigit = true

-- No digit comes first.
def NoDigit (text : Text) : Prop := ∀ c ∈ text.head?, c.isDigit = false

theorem noDigit_nil : NoDigit [] := by simp [NoDigit]

theorem noDigit_cons (h : c.isDigit = false) : NoDigit (c :: rest) := by simpa [NoDigit] using h

-- `width` digits that count `n`.
structure Counts (width n : Nat) (digits : Text) : Prop where
  length_eq : digits.length = width
  allDigits : AllDigits digits
  value_eq : decimalValue digits = n

theorem digitValue_lt (h : c.isDigit = true) : digitValue c < 10 := by
  have hbounds : 48 ≤ c.val ∧ c.val ≤ 57 := by simpa [Char.isDigit] using h
  have hhigh : c.toNat ≤ 57 := UInt32.le_iff_toNat_le.mp hbounds.2
  have hzero : '0'.toNat = 48 := rfl
  unfold digitValue
  omega

theorem decimalValue_concat (text : Text) (c : Char) :
    decimalValue (text ++ [c]) = 10 * decimalValue text + digitValue c := by
  simp [decimalValue]

theorem decimalValue_lt (h : AllDigits digits) : decimalValue digits < 10 ^ digits.length := by
  induction digits using List.reverseRecOn with
  | nil => simp [decimalValue]
  | append_singleton front c ih =>
    have hfront := ih fun d hd => h d (List.mem_append_left _ hd)
    have hlast := digitValue_lt (h c (by simp))
    rw [decimalValue_concat, List.length_append, List.length_singleton, Nat.pow_succ]
    omega

theorem counts_of_allDigits (h : AllDigits digits) :
    Counts digits.length (decimalValue digits) digits :=
  ⟨rfl, h, rfl⟩

-- The width bounds the number, and so many digits never pass 63 bits.
theorem Counts.lt (h : Counts width n digits) : n < 10 ^ width := by
  rw [← h.value_eq, ← h.length_eq]
  exact decimalValue_lt h.allDigits

theorem Counts.lt_twoTo (h : Counts width n digits) (hwidth : width ≤ 18) : n < twoTo 63 :=
  calc
    n < 10 ^ width := h.lt
    _ ≤ 10 ^ 18 := Nat.pow_le_pow_right (by decide) hwidth
    _ < twoTo 63 := by decide

theorem takeWhile_eq_nil (h : NoDigit rest) : rest.takeWhile Char.isDigit = [] := by
  cases rest with
  | nil => rfl
  | cons c rest => simp [h c (by simp)]

theorem dropWhile_append (hdigits : AllDigits digits) (hrest : NoDigit rest) :
    (digits ++ rest).dropWhile Char.isDigit = rest := by
  rw [List.dropWhile_append_of_pos hdigits]
  cases rest with
  | nil => rfl
  | cons c rest => simp [hrest c (by simp)]

-- A number is read back if as many digits are read at most, or no more follow.
theorem number?_append (h : Counts width n digits) (hleast : least ≤ width)
    (hend : width = most ∨ width ≤ most ∧ NoDigit rest) (hwidth : width ≤ 18) :
    number? least most (digits ++ rest) = some (n, rest) := by
  have hread : ((digits ++ rest).takeWhile Char.isDigit).take most = digits := by
    rw [List.takeWhile_append_of_pos h.allDigits]
    rcases hend with hmost | ⟨hmost, hrest⟩
    · rw [← hmost, ← h.length_eq, List.take_append_of_le_length (Nat.le_refl _), List.take_length]
    · rw [takeWhile_eq_nil hrest, List.append_nil, List.take_of_length_le]
      rwa [h.length_eq]
  have hsmall := h.lt_twoTo hwidth
  have hfits : ¬ (digits.length < least ∨ twoTo 63 ≤ n) := by
    rw [h.length_eq]
    omega
  simp only [number?, hread, h.value_eq, if_neg hfits, List.drop_left]

theorem number?_exact (h : Counts width n digits) (hwidth : width ≤ 18) :
    number? width width (digits ++ rest) = some (n, rest) :=
  number?_append h (Nat.le_refl _) (.inl rfl) hwidth

-- What is read are digits, and what is left comes after them.
theorem number?_eq_some (h : number? least most text = some (n, rest)) :
    ∃ digits, text = digits ++ rest ∧ Counts digits.length n digits ∧ least ≤ digits.length ∧
      digits.length ≤ most := by
  generalize hdigits : (text.takeWhile Char.isDigit).take most = digits
  have hbegins : digits <+: text := by
    rw [← hdigits]
    exact (List.take_prefix _ _).trans (List.takeWhile_prefix _)
  have hall : AllDigits digits := by
    intro c hc
    rw [← hdigits] at hc
    exact List.mem_takeWhile_imp (List.mem_of_mem_take hc)
  simp only [number?, hdigits, Option.ite_none_left_eq_some, Option.some.injEq, Prod.mk.injEq,
    not_or, Nat.not_lt] at h
  obtain ⟨⟨hleast, -⟩, rfl, rfl⟩ := h
  have hmost : digits.length ≤ most := by
    rw [← hdigits]
    exact List.length_take_le ..
  exact ⟨digits, (List.prefix_iff_eq_append.mp hbegins).symm, counts_of_allDigits hall, hleast,
    hmost⟩

theorem number?_exact_eq_some (h : number? width width text = some (n, rest)) :
    ∃ digits, text = digits ++ rest ∧ Counts width n digits := by
  obtain ⟨digits, htext, hcounts, hleast, hmost⟩ := number?_eq_some h
  rw [Nat.le_antisymm hmost hleast] at hcounts
  exact ⟨digits, htext, hcounts⟩

theorem number?_eq_none (h : NoDigit text) (hleast : 0 < least) :
    number? least most text = none := by
  simp [number?, takeWhile_eq_nil h, hleast]

-- The digits after a point, in nanoseconds. Those after the ninth do not count.
def nanoseconds (digits : Text) : Nat :=
  decimalValue (digits.take 9) * tenTo (9 - (digits.take 9).length)

@[simp]
theorem nanoseconds_nil : nanoseconds [] = 0 := by simp [nanoseconds, decimalValue]

theorem nanoseconds_lt (h : AllDigits digits) : nanoseconds digits < 1000000000 := by
  have hread : AllDigits (digits.take 9) := fun c hc => h c (List.mem_of_mem_take hc)
  have hlength : (digits.take 9).length ≤ 9 := List.length_take_le ..
  calc
    nanoseconds digits < 10 ^ (digits.take 9).length * 10 ^ (9 - (digits.take 9).length) :=
      Nat.mul_lt_mul_of_pos_right (decimalValue_lt hread) (Nat.pow_pos (by decide))
    _ = 10 ^ 9 := by rw [← Nat.pow_add, Nat.add_sub_cancel' hlength]

theorem nanoseconds_of_counts (h : Counts width n digits) (hwidth : width ≤ 9) :
    nanoseconds digits = n * tenTo (9 - width) := by
  have hread : digits.take 9 = digits := List.take_of_length_le (by rw [h.length_eq]; exact hwidth)
  rw [nanoseconds, hread, h.value_eq, h.length_eq]

theorem fraction?_append (hdigits : AllDigits digits) (hne : digits ≠ []) (hrest : NoDigit rest) :
    fraction? (digits ++ rest) = some (nanoseconds digits, rest) := by
  have hfirst : AllDigits (digits.take 9) := fun c hc => hdigits c (List.mem_of_mem_take hc)
  have hread := counts_of_allDigits hfirst
  have hlength : (digits.take 9).length ≤ 9 := List.length_take_le ..
  have hpos : 1 ≤ (digits.take 9).length := by
    have := List.length_pos_iff.mpr hne
    rw [List.length_take]
    omega
  have hleft : AllDigits (digits.drop 9) := fun c hc => hdigits c (List.mem_of_mem_drop hc)
  have hend : (digits.take 9).length = 9 ∨
      (digits.take 9).length ≤ 9 ∧ NoDigit (digits.drop 9 ++ rest) := by
    by_cases hlong : digits.length < 9
    · rw [List.drop_eq_nil_of_le (by omega)]
      exact .inr ⟨hlength, hrest⟩
    · exact .inl (by rw [List.length_take]; omega)
  have hnumber : number? 1 9 (digits ++ rest) =
      some (decimalValue (digits.take 9), digits.drop 9 ++ rest) := by
    have := number?_append hread hpos hend (by omega)
    rwa [← List.append_assoc, List.take_append_drop] at this
  have hcount : (digits ++ rest).length - (digits.drop 9 ++ rest).length =
      (digits.take 9).length := by
    simp only [List.length_append, List.length_drop, List.length_take]
    omega
  simp only [fraction?, hnumber, Option.bind_eq_bind, Option.bind_some, hcount, nanoseconds,
    dropWhile_append hleft hrest]

theorem fraction?_eq_some (h : fraction? text = some (n, rest)) :
    ∃ digits, text = digits ++ rest ∧ AllDigits digits := by
  simp only [fraction?, Option.bind_eq_bind, Option.bind_eq_some_iff, Option.some.injEq,
    Prod.mk.injEq, Prod.exists] at h
  obtain ⟨value, left, hnumber, -, rfl⟩ := h
  obtain ⟨digits, rfl, hcounts, -⟩ := number?_eq_some hnumber
  refine ⟨digits ++ left.takeWhile Char.isDigit, ?_, ?_⟩
  · rw [List.append_assoc, List.takeWhile_append_dropWhile]
  · intro c hc
    rcases List.mem_append.mp hc with hfirst | hlater
    · exact hcounts.allDigits c hfirst
    · exact List.mem_takeWhile_imp hlater

theorem Counts.head (h : Counts (width + 1) n digits) :
    ∃ c tail, digits = c :: tail ∧ c.isDigit = true := by
  obtain ⟨c, tail, rfl⟩ := List.exists_cons_of_length_eq_add_one h.length_eq
  exact ⟨c, tail, rfl, h.allDigits c (by simp)⟩

theorem not_blank_of_isDigit (h : c.isDigit = true) : Text.isBlank c = false := by
  have hbounds : 48 ≤ c.val ∧ c.val ≤ 57 := by simpa [Char.isDigit] using h
  have hlow : 48 ≤ c.toNat := UInt32.le_iff_toNat_le.mp hbounds.1
  have hhigh : c.toNat ≤ 57 := UInt32.le_iff_toNat_le.mp hbounds.2
  simp [Text.isBlank]
  omega

end Lexeme

open Lexeme

-- Zeros in front of a number do not change it.
theorem counts_padded {width n : Nat} (hpos : 0 < width) (h : n < 10 ^ width) :
    Counts width n (padded width n).toList := by
  have htext : (padded width n).toList =
      List.replicate (width - (Nat.toDigits 10 n).length) '0' ++ Nat.toDigits 10 n := by
    have hdigits : (toString n : String) = String.ofList (Nat.toDigits 10 n) := rfl
    rw [padded, hdigits]
    simp only [String.toList_append, String.toList_ofList, String.length_ofList]
  have hlength : (Nat.toDigits 10 n).length ≤ width :=
    (Nat.length_toDigits_le_iff (by decide) hpos).mpr h
  refine ⟨?_, ?_, ?_⟩
  · rw [htext, List.length_append, List.length_replicate]
    omega
  · intro c hc
    rw [htext, List.mem_append] at hc
    rcases hc with hzero | hdigit
    · rw [List.eq_of_mem_replicate hzero]
      decide
    · exact Nat.isDigit_of_mem_toDigits (by decide) (by decide) hdigit
  · have hvalue : decimalValue (padded width n).toList =
        Nat.ofDigitChars 10 (padded width n).toList 0 := rfl
    rw [hvalue, htext, Nat.ofDigitChars_append, Nat.ofDigitChars_replicate_zero, Nat.mul_zero,
      Nat.ofDigitChars_toDigits (by decide) (by decide)]

namespace Lexeme

-- The characters that an offset begins with.
def IsMark (c : Char) : Prop := c = '+' ∨ c = '-' ∨ c = '\u2212' ∨ c = 'Z' ∨ c = 'z'

theorem isDigit_of_isMark {c : Char} (h : IsMark c) : c.isDigit = false := by
  rcases h with rfl | rfl | rfl | rfl | rfl <;> decide

theorem isBlank_of_isMark {c : Char} (h : IsMark c) : Text.isBlank c = false := by
  rcases h with rfl | rfl | rfl | rfl | rfl <;> decide

theorem not_isMark_of_isDigit {c : Char} (h : c.isDigit = true) : ¬ IsMark c := fun hmark => by
  rw [isDigit_of_isMark hmark] at h
  cases h

theorem not_isMark_of_isBlank {c : Char} (h : Text.isBlank c = true) : ¬ IsMark c := fun hmark => by
  rw [isBlank_of_isMark hmark] at h
  cases h

section Offsets

variable {form : OffsetForm} {sign : Char} {negative : Bool} {hours minutes : Nat}
  {hourDigits minuteDigits rest text : Text} {seconds : Int}

-- A sign, hours, a colon and minutes.
theorem signedOffset?_append (hsign : isNegativeSign? sign = some negative)
    (hhours : Counts 2 hours hourDigits) (hminutes : Counts 2 minutes minuteDigits)
    (hlt : minutes < 60) :
    signedOffset? form (sign :: (hourDigits ++ ':' :: (minuteDigits ++ rest))) =
      some (if negative then -(hours * 3600 + minutes * 60 : Int) else hours * 3600 + minutes * 60,
        rest) := by
  obtain ⟨digit, tail, rfl, hdigit⟩ := hminutes.head
  have hcolon : digit ≠ ':' := by
    rintro rfl
    revert hdigit
    decide
  have hminute : number? 2 2 (digit :: tail ++ rest) = some (minutes, rest) :=
    number?_exact hminutes (by decide)
  rw [List.cons_append] at hminute
  simp [signedOffset?, hsign, number?_exact hhours, char?, hcolon, not_blank_of_isDigit hdigit,
    hminute, Nat.not_le.mpr hlt]

theorem isNegativeSign?_eq_some (h : isNegativeSign? sign = some negative) :
    sign = '+' ∨ sign = '-' ∨ sign = '\u2212' := by
  unfold isNegativeSign? at h
  split at h
  case h_4 => cases h
  all_goals simp

theorem signedOffset?_eq_some (h : signedOffset? form text = some (seconds, rest)) :
    (∃ sign negative tail, text = sign :: tail ∧ isNegativeSign? sign = some negative) ∧
      seconds % 60 = 0 := by
  cases text with
  | nil => simp [signedOffset?] at h
  | cons sign tail =>
    cases hsign : isNegativeSign? sign with
    | none => simp [signedOffset?, hsign] at h
    | some negative =>
      refine ⟨⟨sign, negative, tail, rfl, hsign⟩, ?_⟩
      obtain ⟨hours, afterHours, -, h⟩ : ∃ hours afterHours, _ := by
        simpa [signedOffset?, hsign, Option.bind_eq_some_iff] using h
      -- The minutes are read, or nothing is left for them.
      have hsum (minutes : Nat) : (if negative = true then -(hours * 3600 + minutes * 60 : Int)
          else hours * 3600 + minutes * 60) % 60 = 0 := by
        split_ifs <;> omega
      have hwhole : (if negative = true then -(hours * 3600 : Int) else hours * 3600) % 60 = 0 := by
        split_ifs <;> omega
      grind [Option.bind_eq_some_iff]

theorem offset?_of_sign (hsign : isNegativeSign? sign = some negative) :
    offset? form (sign :: rest) = signedOffset? form (sign :: rest) := by
  rcases isNegativeSign?_eq_some hsign with rfl | rfl | rfl <;> simp [offset?]

-- An offset begins with a letter or a sign, and is a number of minutes.
theorem offset?_eq_some (h : offset? form text = some (seconds, rest)) :
    (∃ c tail, text = c :: tail ∧ IsMark c) ∧ seconds % 60 = 0 := by
  unfold offset? at h
  split at h
  case h_1 tail =>
    obtain ⟨-, rfl, -⟩ : form.zulu = true ∧ 0 = seconds ∧ tail = rest := by simpa using h
    exact ⟨⟨'Z', tail, rfl, by simp [IsMark]⟩, by decide⟩
  case h_2 tail =>
    obtain ⟨-, rfl, -⟩ : form.zulu = true ∧ 0 = seconds ∧ tail = rest := by simpa using h
    exact ⟨⟨'z', tail, rfl, by simp [IsMark]⟩, by decide⟩
  case h_3 =>
    obtain ⟨⟨sign, negative, tail, rfl, hsign⟩, hwhole⟩ := signedOffset?_eq_some h
    refine ⟨⟨sign, tail, rfl, ?_⟩, hwhole⟩
    rcases isNegativeSign?_eq_some hsign with rfl | rfl | rfl <;> simp [IsMark]

end Offsets

end Lexeme

-- The whole minutes that an offset is printed in, in seconds.
def nearestMinute (offset : Offset) : Int :=
  let minutes := (offset.seconds.natAbs + 30) / 60
  if offset.seconds < 0 then -(minutes * 60) else minutes * 60

theorem nearestMinute_eq_iff {offset : Offset} :
    nearestMinute offset = offset.seconds ↔ offset.seconds % 60 = 0 := by
  simp only [nearestMinute]
  split_ifs <;> omega

section Printed

variable {form : OffsetForm} {offset : Offset}

theorem offset?_offsetText_of_ne_zero (h : offset.seconds ≠ 0) :
    offset? form (offsetText offset).toList = some (nearestMinute offset, []) := by
  have hbelow := offset.below
  have habove := offset.above
  generalize hminutes : (offset.seconds.natAbs + 30) / 60 = minutes
  have htext : (offsetText offset).toList = (if offset.seconds < 0 then '-' else '+') ::
      ((padded 2 (minutes / 60)).toList ++ ':' :: ((padded 2 (minutes % 60)).toList ++ [])) := by
    simp only [offsetText, if_neg h, hminutes, String.toList_append]
    split_ifs <;> simp
  have hsign : isNegativeSign? (if offset.seconds < 0 then '-' else '+') =
      some (decide (offset.seconds < 0)) := by
    split_ifs with hnegative <;> simp [isNegativeSign?, hnegative]
  rw [htext, offset?_of_sign hsign, signedOffset?_append hsign
    (counts_padded (by decide) (by omega)) (counts_padded (by decide) (by omega)) (by omega)]
  simp only [nearestMinute, hminutes, decide_eq_true_eq]
  congr 2
  split_ifs <;> omega

theorem offset?_offsetText (offset : Offset) :
    offset? .rfc3339 (offsetText offset).toList = some (nearestMinute offset, []) := by
  by_cases hzero : offset.seconds = 0
  · simp [offsetText, hzero, nearestMinute, offset?, OffsetForm.rfc3339]
  · exact offset?_offsetText_of_ne_zero hzero

end Printed

end Chronicle.Timestamp
