import Chronicle.Proofs.Decimal.Binary64
import Chronicle.Proofs.Schema
import Chronicle.Value

-- Conversions among the three types of numbers: they are made exactly where the
-- number is kept, they are undone by going back, and a detour through a third type
-- changes nothing. Only the sign of a zero is lost.

namespace Chronicle

def FieldType.IsNumeric : FieldType → Prop
  | .int | .uint | .float => True
  | _ => False

namespace Value

-- The number that a value stands for.
def number? : Value → Option ℚ
  | .int n => some n.toInt
  | .uint n => some n.toNat
  | .float x => x.rational?
  | _ => none

-- A value has its own type. Whole numbers have another one when they are within
-- its range; what is or becomes a float must not be beyond 2^53.
def Fits (value : Value) (type : FieldType) : Prop :=
  type = value.type ∨
    match value, type with
    | .int n, .uint => 0 ≤ n.toInt ∧ n.toInt < 2 ^ 64
    | .uint n, .int => -2 ^ 63 ≤ (n.toNat : Int) ∧ (n.toNat : Int) < 2 ^ 63
    | .int n, .float => |n.toInt| ≤ 2 ^ 53
    | .uint n, .float => |(n.toNat : Int)| ≤ 2 ^ 53
    | .float x, .int => ∃ n : Int, x.rational? = some (n : ℚ) ∧ |n| ≤ 2 ^ 53
    | .float x, .uint => ∃ n : Int, x.rational? = some (n : ℚ) ∧ |n| ≤ 2 ^ 53 ∧ 0 ≤ n
    | _, _ => False

-- The whole number that goes from one type to another.
def integer? : Value → Option Int
  | .int n => some n.toInt
  | .uint n => some n.toNat
  | .float x => exactInt? x
  | _ => none

def ofInteger? : FieldType → Int → Option Value
  | .int, n => ofInt? n
  | .uint, n => ofNat? n
  | .float, n => floatOfInt? n
  | _, _ => none

variable {value other : Value} {type : FieldType} {n : Int}

theorem coerce?_type (value : Value) : value.coerce? value.type = some value := by
  unfold coerce?
  rw [if_pos rfl]

-- Every conversion to another type goes through the whole number.
theorem coerce?_eq_bind (hvalue : value.type.IsNumeric) (hne : value.type ≠ type) :
    value.coerce? type = value.integer?.bind (ofInteger? type) := by
  cases value with
  | int n =>
      rw [integer?, Option.bind_some]
      cases type with
      | int => exact absurd rfl hne
      | _ => simp [coerce?, Value.type, ofInteger?]
  | uint n =>
      rw [integer?, Option.bind_some]
      cases type with
      | uint => exact absurd rfl hne
      | _ => simp [coerce?, Value.type, ofInteger?]
  | float x =>
      rw [integer?]
      cases type with
      | float => exact absurd rfl hne
      | int => rfl
      | uint => rfl
      | _ => cases h : exactInt? x <;> simp [coerce?, Value.type, ofInteger?]
  | _ => exact absurd hvalue id

theorem natAbs_le_iff : n.natAbs ≤ exactBound ↔ |n| ≤ 2 ^ 53 := by
  have hbound : exactBound = 2 ^ 53 := rfl
  rw [hbound, Int.abs_eq_natAbs]
  exact_mod_cast Iff.rfl

theorem exactInt?_eq_some_iff {x : Binary64} :
    exactInt? x = some n ↔ x.rational? = some (n : ℚ) ∧ |n| ≤ 2 ^ 53 := by
  rw [exactInt?, Option.bind_eq_bind, Option.bind_eq_some_iff, ← Binary64.toInt?_eq_some_iff,
    ← natAbs_le_iff]
  constructor
  · rintro ⟨m, hm, h⟩
    split_ifs at h with hbound
    cases h
    exact ⟨hm, hbound⟩
  · rintro ⟨hn, hbound⟩
    exact ⟨n, hn, if_pos hbound⟩

theorem number?_of_integer? (h : value.integer? = some n) : value.number? = some (n : ℚ) := by
  cases value with
  | int m => cases h; rfl
  | uint m => cases h; simp [number?]
  | float x => exact (exactInt?_eq_some_iff.mp h).1
  | _ => contradiction

theorem ofInt?_eq_some_iff :
    ofInt? n = some value ↔ (-2 ^ 63 ≤ n ∧ n < 2 ^ 63) ∧ value = .int (Int64.ofInt n) := by
  have hbound : ((twoTo 63 : Nat) : Int) = 2 ^ 63 := rfl
  rw [ofInt?, hbound]
  split_ifs with h
  · simp only [Option.some.injEq, eq_comm, h, and_self, true_and]
  · simp only [h, false_and]

theorem ofNat?_eq_some_iff :
    ofNat? n = some value ↔ (0 ≤ n ∧ n < 2 ^ 64) ∧ value = .uint (UInt64.ofNat n.toNat) := by
  have hbound : ((twoTo 64 : Nat) : Int) = 2 ^ 64 := rfl
  rw [ofNat?, hbound]
  split_ifs with h
  · simp only [Option.some.injEq, eq_comm, h, and_self, true_and]
  · simp only [h, false_and]

theorem floatOfInt?_eq_some_iff :
    floatOfInt? n = some value ↔ |n| ≤ 2 ^ 53 ∧ value = .float (Binary64.ofInt n) := by
  rw [floatOfInt?, ← natAbs_le_iff]
  split_ifs with h
  · simp [h, eq_comm]
  · simp [h]

-- What is made of a whole number is of the type asked for and stands for that number.
theorem of_ofInteger? (h : ofInteger? type n = some value) :
    value.type = type ∧ value.integer? = some n := by
  cases type with
  | int =>
      obtain ⟨⟨hlow, hhigh⟩, rfl⟩ := ofInt?_eq_some_iff.mp h
      refine ⟨rfl, congrArg some ?_⟩
      exact Int64.toInt_ofInt_of_le hlow hhigh
  | uint =>
      obtain ⟨⟨hlow, hhigh⟩, rfl⟩ := ofNat?_eq_some_iff.mp h
      refine ⟨rfl, congrArg some ?_⟩
      have hword : (UInt64.ofNat n.toNat).toNat = n.toNat := UInt64.toNat_ofNat_of_lt' (by
        have hsize : UInt64.size = 2 ^ 64 := rfl
        omega)
      rw [hword, Int.toNat_of_nonneg hlow]
  | float =>
      obtain ⟨hbound, rfl⟩ := floatOfInt?_eq_some_iff.mp h
      have hvalue := (Binary64.rational?_ofInt (natAbs_le_iff.mpr hbound)).2
      exact ⟨rfl, exactInt?_eq_some_iff.mpr ⟨hvalue, hbound⟩⟩
  | _ => contradiction

-- A value is what is made of its own number, but a zero loses its sign.
theorem ofInteger?_of_integer? (h : value.integer? = some n) :
    ofInteger? value.type n = some value ∨
      value = .float Binary64.negativeZero ∧
        ofInteger? .float n = some (.float Binary64.zero) := by
  cases value with
  | int m =>
      cases h
      left
      refine ofInt?_eq_some_iff.mpr ⟨⟨m.le_toInt, m.toInt_lt⟩, ?_⟩
      rw [Int64.ofInt_toInt]
  | uint m =>
      cases h
      left
      have hlt := m.toNat_lt
      refine ofNat?_eq_some_iff.mpr ⟨⟨by omega, by omega⟩, ?_⟩
      rw [Int.toNat_natCast, UInt64.ofNat_toNat]
  | float x =>
      obtain ⟨hvalue, hbound⟩ := exactInt?_eq_some_iff.mp h
      rcases Binary64.eq_ofInt_or (natAbs_le_iff.mpr hbound) hvalue with rfl | rfl
      · left
        exact floatOfInt?_eq_some_iff.mpr ⟨hbound, rfl⟩
      · right
        rw [Binary64.rational?_negativeZero, Option.some.injEq] at hvalue
        have hn : n = 0 := by exact_mod_cast hvalue.symm
        subst hn
        exact ⟨rfl, rfl⟩
  | _ => contradiction

theorem exists_ofInteger?_iff :
    (∃ w, ofInteger? type n = some w) ↔
      match type with
      | .int => -2 ^ 63 ≤ n ∧ n < 2 ^ 63
      | .uint => 0 ≤ n ∧ n < 2 ^ 64
      | .float => |n| ≤ 2 ^ 53
      | _ => False := by
  cases type with
  | int => simp only [ofInteger?, ofInt?_eq_some_iff, exists_and_left, exists_eq, and_true]
  | uint => simp only [ofInteger?, ofNat?_eq_some_iff, exists_and_left, exists_eq, and_true]
  | float => simp only [ofInteger?, floatOfInt?_eq_some_iff, exists_and_left, exists_eq, and_true]
  | _ => simp [ofInteger?]

theorem fits_iff (hvalue : value.type.IsNumeric) (hne : value.type ≠ type) :
    value.Fits type ↔ ∃ n, value.integer? = some n ∧ ∃ w, ofInteger? type n = some w := by
  simp only [Fits, hne.symm, false_or, exists_ofInteger?_iff]
  cases value with
  | int m =>
      cases type with
      | int => exact absurd rfl hne
      | _ => simp [integer?]
  | uint m =>
      cases type with
      | uint => exact absurd rfl hne
      | _ => simp [integer?]
  | float x =>
      simp only [integer?, exactInt?_eq_some_iff]
      cases type with
      | float => exact absurd rfl hne
      | int =>
          refine exists_congr fun n => (and_iff_left_of_imp ?_).symm
          rintro ⟨-, hbound⟩
          have := abs_le.mp hbound
          omega
      | uint =>
          refine exists_congr fun n => ?_
          rw [and_assoc]
          refine and_congr_right fun _ => and_congr_right fun hbound => ?_
          have := abs_le.mp hbound
          omega
      | _ => simp
  | _ => exact absurd hvalue id

-- Everything that holds of a conversion among numbers.
structure Converts (value : Value) (type : FieldType) : Prop where
  succeeds_iff : (∃ w, value.coerce? type = some w) ↔ value.Fits type
  own : type = value.type → value.coerce? type = some value
  exact : ∀ w, value.coerce? type = some w → w.type = type ∧ w.number? = value.number?
  returns : ∀ w, value.coerce? type = some w →
    w.coerce? value.type = some value ∨
      value = .float Binary64.negativeZero ∧ type ≠ .float ∧
        w.coerce? .float = some (.float Binary64.zero)
  direct : ∀ u, value.coerce? type = some u → ∀ other w, u.coerce? other = some w →
    value.coerce? other = some w ∨
      value = .float Binary64.negativeZero ∧ type ≠ .float ∧ other = .float ∧
        w = .float Binary64.zero ∧ value.coerce? other = some value

theorem isNumeric_of_integer? (h : value.integer? = some n) : value.type.IsNumeric := by
  cases value with
  | int m => trivial
  | uint m => trivial
  | float x => trivial
  | _ => contradiction

-- Where a value goes, its own number is what is made of there.
theorem coerce?_cases (hvalue : value.type.IsNumeric) (h : value.coerce? type = some other) :
    type = value.type ∧ other = value ∨
      value.type ≠ type ∧ ∃ n, value.integer? = some n ∧ ofInteger? type n = some other := by
  by_cases hne : value.type = type
  · subst hne
    rw [coerce?_type, Option.some.injEq] at h
    exact .inl ⟨rfl, h.symm⟩
  · rw [coerce?_eq_bind hvalue hne] at h
    exact .inr ⟨hne, Option.bind_eq_some_iff.mp h⟩

-- A number that is made a value of some type goes there from any other type.
theorem coerce?_of_integer? {wanted : FieldType} (h : value.integer? = some n)
    (hmade : ofInteger? wanted n = some other) (hne : value.type ≠ wanted) :
    value.coerce? wanted = some other := by
  rw [coerce?_eq_bind (isNumeric_of_integer? h) hne, h]
  exact hmade

theorem exists_coerce?_iff_fits (hvalue : value.type.IsNumeric) (type : FieldType) :
    (∃ w, value.coerce? type = some w) ↔ value.Fits type := by
  by_cases hne : value.type = type
  · subst hne
    simp [coerce?_type, Fits]
  · rw [fits_iff hvalue hne, coerce?_eq_bind hvalue hne]
    simp only [Option.bind_eq_some_iff]
    rw [exists_comm]
    simp only [exists_and_left]

theorem number?_of_coerce? (hvalue : value.type.IsNumeric)
    (h : value.coerce? type = some other) :
    other.type = type ∧ other.number? = value.number? := by
  rcases coerce?_cases hvalue h with ⟨rfl, rfl⟩ | ⟨-, n, hn, hmade⟩
  · exact ⟨rfl, rfl⟩
  · obtain ⟨htype, hinteger⟩ := of_ofInteger? hmade
    exact ⟨htype, by rw [number?_of_integer? hinteger, number?_of_integer? hn]⟩

theorem coerce?_back (hvalue : value.type.IsNumeric) (h : value.coerce? type = some other) :
    other.coerce? value.type = some value ∨
      value = .float Binary64.negativeZero ∧ type ≠ .float ∧
        other.coerce? .float = some (.float Binary64.zero) := by
  rcases coerce?_cases hvalue h with ⟨rfl, rfl⟩ | ⟨hne, n, hn, hmade⟩
  · exact .inl (coerce?_type _)
  · obtain ⟨rfl, hinteger⟩ := of_ofInteger? hmade
    rcases ofInteger?_of_integer? hn with hback | ⟨rfl, hzero⟩
    · exact .inl (coerce?_of_integer? hinteger hback hne.symm)
    · exact .inr ⟨rfl, hne.symm, coerce?_of_integer? hinteger hzero hne.symm⟩

-- A detour leads back to the value's own type or to a third one. Only on the way
-- back is there a sign to lose.
theorem coerce?_detour {wanted : FieldType} {final : Value} (hvalue : value.type.IsNumeric)
    (h : value.coerce? type = some other) (hfinal : other.coerce? wanted = some final) :
    value.coerce? wanted = some final ∨
      value = .float Binary64.negativeZero ∧ type ≠ .float ∧ wanted = .float ∧
        final = .float Binary64.zero ∧ value.coerce? wanted = some value := by
  by_cases hsame : value.type = wanted
  · subst hsame
    rcases coerce?_back hvalue h with hback | ⟨rfl, hne, hzero⟩
    · rw [hback, Option.some.injEq] at hfinal
      exact .inl (hfinal ▸ coerce?_type value)
    · have hlost : final = .float Binary64.zero := Option.some.inj (hfinal.symm.trans hzero)
      exact .inr ⟨rfl, hne, rfl, hlost, coerce?_type _⟩
  · left
    rcases coerce?_cases hvalue h with ⟨rfl, rfl⟩ | ⟨-, n, hn, hmade⟩
    · exact hfinal
    · obtain ⟨rfl, hinteger⟩ := of_ofInteger? hmade
      rcases coerce?_cases (isNumeric_of_integer? hinteger) hfinal with
        ⟨rfl, rfl⟩ | ⟨-, m, hm, hmade'⟩
      · exact h
      · obtain rfl : n = m := Option.some.inj (hinteger.symm.trans hm)
        exact coerce?_of_integer? hn hmade' hsame

theorem converts_coerce? (hvalue : value.type.IsNumeric) (type : FieldType) :
    value.Converts type where
  succeeds_iff := exists_coerce?_iff_fits hvalue type
  own := by
    rintro rfl
    exact coerce?_type value
  exact _ hw := number?_of_coerce? hvalue hw
  returns _ hw := coerce?_back hvalue hw
  direct _ hu _ _ hw := coerce?_detour hvalue hu hw

-- The zero with a sign comes back without it.
theorem converts_negativeZero :
    (Value.float Binary64.negativeZero).type.IsNumeric ∧
      (Value.float Binary64.negativeZero).coerce? .uint = some (.uint 0) ∧
      (Value.float Binary64.negativeZero).Converts .uint := by
  have hnumeric : (Value.float Binary64.negativeZero).type.IsNumeric := trivial
  have hinteger : (Value.float Binary64.negativeZero).integer? = some 0 :=
    exactInt?_eq_some_iff.mpr ⟨by rw [Binary64.rational?_negativeZero, Int.cast_zero], by norm_num⟩
  exact ⟨hnumeric, coerce?_of_integer? hinteger rfl (by decide), converts_coerce? hnumeric _⟩

end Value

end Chronicle
