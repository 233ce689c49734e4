import Chronicle.Bytes

-- Byte strings: what is written as text or as a number is read back, and
-- big-endian numbers of one width are ordered as the numbers are.

namespace Chronicle.Bytes

theorem length_ofText (text : String) : (ofText text).length = text.utf8ByteSize := rfl

theorem ofText_toByteArray (text : String) : (ofText text).toArray = text.toByteArray.data := by
  simp [ofText]

theorem toText?_ofText (text : String) : toText? (ofText text) = some text := by
  have hbytes : (⟨(ofText text).toArray⟩ : ByteArray) = text.toByteArray := by
    rw [ofText_toByteArray]
  rw [toText?, hbytes, String.fromUTF8?, dif_pos text.isValidUTF8]
  rfl

-- Only the bytes of a text are read as that text.
theorem ofText_of_toText? {bytes : Bytes} {text : String} (h : toText? bytes = some text) :
    ofText text = bytes := by
  rw [toText?, String.fromUTF8?] at h
  split at h
  · rw [Option.some.injEq] at h
    subst h
    simp [ofText, String.fromUTF8]
  · contradiction

theorem ofText_injective {first second : String} (h : ofText first = ofText second) :
    first = second := by
  have hread : toText? (ofText first) = toText? (ofText second) := by rw [h]
  rw [toText?_ofText, toText?_ofText] at hread
  exact Option.some.inj hread

theorem ofText_eq_nil {text : String} : ofText text = [] ↔ text = "" := by
  constructor
  · intro h
    exact ofText_injective (h.trans rfl)
  · rintro rfl
    rfl

theorem split?_append {n : Nat} {front : Bytes} (rest : Bytes) (h : front.length = n) :
    split? n (front ++ rest) = some (front, rest) :=
  split?_eq_some.mpr ⟨rfl, h⟩

theorem ofLittleEndian_littleEndian_of_lt (width : Nat) {n : Nat} (h : n < Nat.pow 256 width) :
    ofLittleEndian (littleEndian width n) = n := by
  rw [ofLittleEndian_littleEndian, Nat.mod_eq_of_lt h]

theorem ofBigEndian_bigEndian_of_lt {width n : Nat} (h : n < Nat.pow 256 width) :
    ofBigEndian (bigEndian width n) = n := by
  rw [ofBigEndian_bigEndian, Nat.mod_eq_of_lt h]

theorem littleEndian_ofLittleEndian (bytes : Bytes) :
    littleEndian bytes.length (ofLittleEndian bytes) = bytes := by
  induction bytes with
  | nil => rfl
  | cons byte bytes ih =>
      have hmax := byte.toNat_lt
      have hlow : UInt8.ofNat (byte.toNat + 256 * ofLittleEndian bytes) = byte := by
        apply UInt8.toNat_inj.mp
        rw [UInt8.toNat_ofNat']
        omega
      have hhigh : (byte.toNat + 256 * ofLittleEndian bytes) / 256 = ofLittleEndian bytes := by
        omega
      rw [List.length_cons, littleEndian, ofLittleEndian, hlow, hhigh, ih]

theorem bigEndian_ofBigEndian (bytes : Bytes) :
    bigEndian bytes.length (ofBigEndian bytes) = bytes := by
  have hreverse := littleEndian_ofLittleEndian bytes.reverse
  rw [List.length_reverse] at hreverse
  rw [bigEndian, ofBigEndian, hreverse, List.reverse_reverse]

theorem ofLittleEndian_lt (bytes : Bytes) : ofLittleEndian bytes < Nat.pow 256 bytes.length := by
  induction bytes with
  | nil => exact Nat.one_pos
  | cons byte bytes ih =>
      have hmax := byte.toNat_lt
      have hpower : Nat.pow 256 (byte :: bytes).length = 256 * Nat.pow 256 bytes.length :=
        Nat.pow_succ'
      rw [hpower, ofLittleEndian]
      omega

theorem ofBigEndian_lt (bytes : Bytes) : ofBigEndian bytes < Nat.pow 256 bytes.length := by
  have hreverse := ofLittleEndian_lt bytes.reverse
  rwa [List.length_reverse] at hreverse

-- A wider number ends in one more byte.
theorem bigEndian_succ (width n : Nat) :
    bigEndian (width + 1) n = bigEndian width (n / 256) ++ [UInt8.ofNat n] := by
  simp [bigEndian, littleEndian]

section Order

theorem append_left_lt_iff (front : Bytes) {first second : Bytes} :
    front ++ first < front ++ second ↔ first < second := by
  induction front with
  | nil => rfl
  | cons byte front ih => simpa [List.cons_append, List.cons_lt_cons_self] using ih

-- Strings that begin with as many bytes are compared by these bytes first.
theorem append_lt_append_iff {first second : Bytes} (h : first.length = second.length)
    (rest rest' : Bytes) :
    first ++ rest < second ++ rest' ↔ first < second ∨ (first = second ∧ rest < rest') := by
  induction first generalizing second with
  | nil =>
      have hnil : second = [] := List.length_eq_zero_iff.mp h.symm
      subst hnil
      simp
  | cons byte first ih =>
      cases second with
      | nil => simp at h
      | cons other second =>
          have hlength : first.length = second.length := by simpa using h
          simp only [List.cons_append, List.cons_lt_cons_iff, ih hlength, List.cons.injEq]
          constructor
          · rintro (hlt | ⟨he, hlt | ⟨hs, hlt⟩⟩)
            · exact .inl (.inl hlt)
            · exact .inl (.inr ⟨he, hlt⟩)
            · exact .inr ⟨⟨he, hs⟩, hlt⟩
          · rintro ((hlt | ⟨he, hlt⟩) | ⟨⟨he, hs⟩, hlt⟩)
            · exact .inl hlt
            · exact .inr ⟨he, .inl hlt⟩
            · exact .inr ⟨he, .inr ⟨hs, hlt⟩⟩

theorem bigEndian_injective {width n m : Nat} (hn : n < Nat.pow 256 width)
    (hm : m < Nat.pow 256 width) (h : bigEndian width n = bigEndian width m) : n = m := by
  have hread : ofBigEndian (bigEndian width n) = ofBigEndian (bigEndian width m) := by rw [h]
  rwa [ofBigEndian_bigEndian_of_lt hn, ofBigEndian_bigEndian_of_lt hm] at hread

theorem ofNat_lt_ofNat_iff {n m : Nat} : UInt8.ofNat n < UInt8.ofNat m ↔ n % 256 < m % 256 := by
  rw [UInt8.lt_iff_toNat_lt]
  simp

theorem bigEndian_lt_bigEndian_iff {width n m : Nat} (hn : n < Nat.pow 256 width)
    (hm : m < Nat.pow 256 width) : bigEndian width n < bigEndian width m ↔ n < m := by
  induction width generalizing n m with
  | zero =>
      simp only [Nat.pow_eq, Nat.pow_zero, Nat.lt_one_iff] at hn hm
      simp [hn, hm, bigEndian, littleEndian]
  | succ width ih =>
      have hp : Nat.pow 256 (width + 1) = Nat.pow 256 width * 256 := Nat.pow_succ 256 width
      rw [hp] at hn hm
      have hn' : n / 256 < Nat.pow 256 width := Nat.div_lt_of_lt_mul (by omega)
      have hm' : m / 256 < Nat.pow 256 width := Nat.div_lt_of_lt_mul (by omega)
      have hhigh : bigEndian width (n / 256) = bigEndian width (m / 256) ↔ n / 256 = m / 256 :=
        ⟨bigEndian_injective hn' hm', fun h => by rw [h]⟩
      have hlow : ([UInt8.ofNat n] : Bytes) < [UInt8.ofNat m] ↔ n % 256 < m % 256 := by
        simp [List.cons_lt_cons_iff, ofNat_lt_ofNat_iff]
      rw [bigEndian_succ, bigEndian_succ,
        append_lt_append_iff (by simp [length_bigEndian]), ih hn' hm', hhigh, hlow]
      omega

end Order

section Texts

theorem ofNat_eq_ofNat_iff {n m : Nat} : UInt8.ofNat n = UInt8.ofNat m ↔ n % 256 = m % 256 := by
  rw [← UInt8.toNat_inj, UInt8.toNat_ofNat', UInt8.toNat_ofNat']

-- The bytes of the character of a number, digit by digit to the base 64.
def ofScalar (n : Nat) : Bytes :=
  if n ≤ 0x7f then [.ofNat n]
  else if n ≤ 0x7ff then [.ofNat (n / 64 % 32 + 192), .ofNat (n % 64 + 128)]
  else if n ≤ 0xffff then
    [.ofNat (n / 64 / 64 % 16 + 224), .ofNat (n / 64 % 64 + 128), .ofNat (n % 64 + 128)]
  else
    [.ofNat (n / 64 / 64 / 64 % 8 + 240), .ofNat (n / 64 / 64 % 64 + 128),
      .ofNat (n / 64 % 64 + 128), .ofNat (n % 64 + 128)]

theorem utf8EncodeChar_eq_ofScalar (c : Char) : String.utf8EncodeChar c = ofScalar c.toNat := by
  simp only [String.utf8EncodeChar, ofScalar, Nat.div_div_eq_div_mul]
  rfl

-- Of two characters the bytes differ within the shorter of the two, so what follows
-- them does not count.
theorem ofScalar_append_lt {n m : Nat} (h : n < m) (hm : m < 0x110000) (rest rest' : Bytes) :
    ofScalar n ++ rest < ofScalar m ++ rest' := by
  unfold ofScalar
  repeat' split
  all_goals
    simp only [List.cons_append, List.cons_lt_cons_iff, ofNat_lt_ofNat_iff, ofNat_eq_ofNat_iff]
    omega

theorem toNat_lt_of_char (c : Char) : c.toNat < 0x110000 := by
  rcases c.valid with h | h
  · exact Nat.lt_trans h (by decide)
  · exact h.2

theorem ofText_eq_flatMap (text : String) :
    ofText text = text.toList.flatMap String.utf8EncodeChar := by
  have hbytes : text.toByteArray = text.toList.utf8Encode := by
    rw [← String.toByteArray_ofList, String.ofList_toList]
  rw [ofText, String.toUTF8_eq_toByteArray, hbytes, List.utf8Encode]
  simp

theorem flatMap_lt_flatMap {first second : List Char} (h : first < second) :
    first.flatMap String.utf8EncodeChar < second.flatMap String.utf8EncodeChar := by
  induction first generalizing second with
  | nil =>
      cases second with
      | nil => exact absurd h (List.not_lt_nil _)
      | cons d second =>
          have hsome : String.utf8EncodeChar d ≠ [] := String.utf8EncodeChar_ne_nil
          obtain ⟨byte, rest, hbytes⟩ := List.exists_cons_of_ne_nil hsome
          rw [List.flatMap_cons, hbytes, List.flatMap_nil]
          exact List.nil_lt_cons _ _
  | cons c first ih =>
      cases second with
      | nil => exact absurd h (List.not_lt_nil _)
      | cons d second =>
          rw [List.flatMap_cons, List.flatMap_cons]
          rcases List.cons_lt_cons_iff.mp h with hlt | ⟨rfl, hlt⟩
          · rw [utf8EncodeChar_eq_ofScalar, utf8EncodeChar_eq_ofScalar]
            exact ofScalar_append_lt hlt (toNat_lt_of_char d) _ _
          · exact (append_left_lt_iff _).mpr (ih hlt)

-- Texts are in the order of their bytes.
theorem ofText_lt_ofText_iff {first second : String} :
    ofText first < ofText second ↔ first < second := by
  have hmono : ∀ {first second : String}, first < second → ofText first < ofText second := by
    intro first second h
    rw [ofText_eq_flatMap, ofText_eq_flatMap]
    exact flatMap_lt_flatMap (String.lt_iff.mp h)
  constructor
  · intro h
    rcases Std.lt_trichotomy first second with hlt | rfl | hgt
    · exact hlt
    · exact absurd h Std.lt_irrefl
    · exact absurd (Std.lt_trans h (hmono hgt)) Std.lt_irrefl
  · exact hmono

end Texts

end Chronicle.Bytes
