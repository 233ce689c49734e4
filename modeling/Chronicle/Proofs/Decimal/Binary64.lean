import Chronicle.Decimal.Binary64
import Mathlib.Algebra.Order.Field.Power
import Mathlib.Algebra.Order.Ring.Rat
import Mathlib.Tactic.FieldSimp
import Mathlib.Tactic.Linarith
import Mathlib.Tactic.NormNum
import Mathlib.Tactic.Positivity
import Mathlib.Tactic.Ring

-- The exact numbers that floats stand for. Two floats that stand for the same
-- number are the same bits, but for the two zeros, and every whole number up to
-- 2^53 is the number of a float.

namespace Chronicle

theorem twoTo_eq (bits : Nat) : twoTo bits = 2 ^ bits := rfl

namespace Binary64

variable {x y : Binary64}

def magnitude (x : Binary64) : ℚ := x.significand * (2 : ℚ) ^ x.exponent

-- Infinities and what is no number stand for no number.
def rational? (x : Binary64) : Option ℚ :=
  if x.isFinite then some (if x.isNegative then -x.magnitude else x.magnitude) else none

def negativeZero : Binary64 := zero.neg

section Fields

theorem fractionField_lt (x : Binary64) : x.fractionField < 2 ^ 52 :=
  Nat.mod_lt _ (by decide)

-- The bits are the sign, the exponent and the fraction, one after the other.
theorem toNat_bits (x : Binary64) :
    x.bits.toNat =
      (if x.isNegative then 2 ^ 63 else 0) + (x.exponentField * 2 ^ 52 + x.fractionField) := by
  have hlt := x.bits.toNat_lt
  by_cases hsign : 2 ^ 63 ≤ x.bits.toNat
  · have hnegative : x.isNegative = true := decide_eq_true hsign
    simp only [hnegative, if_true, exponentField, fractionField, twoTo_eq]
    omega
  · have hpositive : x.isNegative = false := decide_eq_false hsign
    simp only [hpositive, Bool.false_eq_true, if_false, exponentField, fractionField, twoTo_eq]
    omega

theorem ext_fields (hsign : x.isNegative = y.isNegative)
    (hexponent : x.exponentField = y.exponentField)
    (hfraction : x.fractionField = y.fractionField) : x = y := by
  have hbits : x.bits.toNat = y.bits.toNat := by
    rw [toNat_bits, toNat_bits, hsign, hexponent, hfraction]
  cases x
  cases y
  exact congrArg mk (UInt64.toNat_inj.mp hbits)

theorem significand_lt (x : Binary64) : x.significand < 2 ^ 53 := by
  have hfraction := x.fractionField_lt
  simp only [significand, twoTo_eq]
  split_ifs <;> omega

theorem le_exponent (x : Binary64) : -1074 ≤ x.exponent := by
  simp only [exponent]
  split_ifs <;> omega

-- Only numbers of the least exponent have short significands.
theorem le_significand_or (x : Binary64) : 2 ^ 52 ≤ x.significand ∨ x.exponent = -1074 := by
  simp only [significand, exponent, twoTo_eq]
  split_ifs <;> omega

theorem ext_significand (hsign : x.isNegative = y.isNegative)
    (hsignificand : x.significand = y.significand) (hexponent : x.exponent = y.exponent) :
    x = y := by
  have hx := x.fractionField_lt
  have hy := y.fractionField_lt
  simp only [significand, exponent, twoTo_eq] at hsignificand hexponent
  have hexponents : x.exponentField = y.exponentField := by
    split_ifs at hsignificand hexponent <;> omega
  refine ext_fields hsign hexponents ?_
  rw [hexponents] at hsignificand
  split_ifs at hsignificand <;> omega

end Fields

section Magnitudes

theorem magnitude_nonneg (x : Binary64) : 0 ≤ x.magnitude := by
  unfold magnitude
  positivity

-- A significand that fills its places cannot stand for what a shorter one with a
-- lower exponent stands for.
theorem exponent_le_of_eq {m m' : Nat} {e e' : Int}
    (h : (m : ℚ) * 2 ^ e = m' * 2 ^ e') (hm : m < 2 ^ 53) (he : -1074 ≤ e)
    (hm' : 2 ^ 52 ≤ m' ∨ e' = -1074) : e' ≤ e := by
  by_contra hlt
  have hlong : 2 ^ 52 ≤ m' := hm'.resolve_right (by omega)
  have hsplit : (2 : ℚ) ^ e' = 2 ^ (e' - e) * 2 ^ e := by
    rw [← zpow_add₀ (by norm_num), sub_add_cancel]
  have hpos : (0 : ℚ) < 2 ^ e := by positivity
  have hm_eq : (m : ℚ) = m' * 2 ^ (e' - e) := by
    rw [hsplit, ← mul_assoc] at h
    exact mul_right_cancel₀ hpos.ne' h
  have htwo : (2 : ℚ) ≤ 2 ^ (e' - e) := by
    have hpow := zpow_le_zpow_right₀ (by norm_num : (1 : ℚ) ≤ 2) (by omega : 1 ≤ e' - e)
    rwa [zpow_one] at hpow
  have hbound : (2 ^ 52 : ℚ) ≤ m' := by exact_mod_cast hlong
  have hlarge : (2 ^ 52 : ℚ) * 2 ≤ m := by
    rw [hm_eq]
    exact mul_le_mul hbound htwo (by norm_num) (by positivity)
  have hsmall : (m : ℚ) < 2 ^ 52 * 2 := by exact_mod_cast hm
  exact absurd hlarge (not_le.mpr hsmall)

theorem eq_of_magnitude_eq (hsign : x.isNegative = y.isNegative)
    (h : x.magnitude = y.magnitude) : x = y := by
  have hexponent : x.exponent = y.exponent := le_antisymm
    (exponent_le_of_eq h.symm y.significand_lt y.le_exponent x.le_significand_or)
    (exponent_le_of_eq h x.significand_lt x.le_exponent y.le_significand_or)
  refine ext_significand hsign ?_ hexponent
  rw [magnitude, magnitude, hexponent] at h
  have hpos : (0 : ℚ) < 2 ^ y.exponent := by positivity
  exact_mod_cast mul_right_cancel₀ hpos.ne' h

theorem rational?_eq_some_iff {r : ℚ} :
    x.rational? = some r ↔
      x.isFinite = true ∧ (if x.isNegative then -x.magnitude else x.magnitude) = r := by
  simp [rational?]

-- The sign of a number other than zero is that of the float.
theorem isNegative_iff {r : ℚ} (h : x.rational? = some r) (hr : r ≠ 0) :
    x.isNegative = true ↔ r < 0 := by
  obtain ⟨-, rfl⟩ := rational?_eq_some_iff.mp h
  have hnonneg := x.magnitude_nonneg
  split_ifs at hr ⊢ with hsign
  · have hpos := lt_of_le_of_ne hnonneg (fun h => hr (by rw [← h, neg_zero]))
    simp [hsign, hpos]
  · simp [hsign, hnonneg]

theorem eq_of_rational?_eq {r : ℚ} (hx : x.rational? = some r) (hy : y.rational? = some r)
    (hsign : r = 0 → x.isNegative = y.isNegative) : x = y := by
  have hsame : x.isNegative = y.isNegative := by
    by_cases hr : r = 0
    · exact hsign hr
    · rw [Bool.eq_iff_iff, isNegative_iff hx hr, isNegative_iff hy hr]
  obtain ⟨-, hx⟩ := rational?_eq_some_iff.mp hx
  obtain ⟨-, hy⟩ := rational?_eq_some_iff.mp hy
  refine eq_of_magnitude_eq hsame ?_
  rw [hsame, ← hy] at hx
  split_ifs at hx
  · exact neg_injective hx
  · exact hx

end Magnitudes

section WholeNumbers

theorem magnitude_eq_div (x : Binary64) : x.magnitude = x.numerator / x.denominator := by
  simp only [magnitude, numerator, denominator, twoTo_eq, Nat.cast_mul, Nat.cast_pow,
    Nat.cast_ofNat]
  rcases Int.le_total 0 x.exponent with h | h
  · have hzero : (-x.exponent).toNat = 0 := by omega
    have hpow : (2 : ℚ) ^ x.exponent = 2 ^ x.exponent.toNat := by
      rw [← zpow_natCast, Int.toNat_of_nonneg h]
    rw [hzero, hpow, pow_zero, div_one]
  · have hzero : x.exponent.toNat = 0 := by omega
    have hpow : (2 : ℚ) ^ x.exponent = (2 ^ (-x.exponent).toNat)⁻¹ := by
      rw [← zpow_natCast, Int.toNat_of_nonneg (by omega), zpow_neg, inv_inv]
    rw [hzero, hpow, pow_zero, mul_one, div_eq_mul_inv]

theorem denominator_pos (x : Binary64) : 0 < x.denominator := Nat.two_pow_pos _

theorem magnitude_eq_natCast_iff {n : Nat} :
    x.magnitude = n ↔ x.numerator % x.denominator = 0 ∧ x.numerator / x.denominator = n := by
  have hpos := x.denominator_pos
  have hne : (x.denominator : ℚ) ≠ 0 := by exact_mod_cast hpos.ne'
  have hscaled : x.magnitude = n ↔ x.numerator = n * x.denominator := by
    rw [magnitude_eq_div, div_eq_iff hne]
    exact_mod_cast Iff.rfl
  rw [hscaled]
  constructor
  · intro h
    exact ⟨by rw [h, Nat.mul_mod_left], by rw [h, Nat.mul_div_cancel _ hpos]⟩
  · rintro ⟨hmod, hdiv⟩
    rw [← hdiv, Nat.div_mul_cancel (Nat.dvd_of_mod_eq_zero hmod)]

theorem toInt?_of_natCast {n : Nat} (hfinite : x.isFinite = true) (h : x.magnitude = n) :
    x.toInt? = some (if x.isNegative then -(n : Int) else n) := by
  obtain ⟨hmod, hdiv⟩ := magnitude_eq_natCast_iff.mp h
  simp only [toInt?, hfinite, hmod, and_self, if_true, ← Int.natCast_ediv, hdiv]

theorem toInt?_eq_some_iff {n : Int} : x.toInt? = some n ↔ x.rational? = some (n : ℚ) := by
  have hcast : ∀ k : Nat, ((if x.isNegative then -(k : Int) else k : Int) : ℚ) =
      if x.isNegative then -(k : ℚ) else k := by
    intro k
    split_ifs
    · rw [Int.cast_neg, Int.cast_natCast]
    · rw [Int.cast_natCast]
  rw [rational?_eq_some_iff]
  constructor
  · intro h
    have hwhole : x.isFinite = true ∧ x.numerator % x.denominator = 0 := by
      by_contra hnot
      rw [toInt?, if_neg hnot] at h
      contradiction
    have hmagnitude := magnitude_eq_natCast_iff.mpr ⟨hwhole.2, rfl⟩
    rw [toInt?_of_natCast hwhole.1 hmagnitude, Option.some.injEq] at h
    rw [← h, hcast, hmagnitude]
    exact ⟨hwhole.1, rfl⟩
  · rintro ⟨hfinite, h⟩
    have hmagnitude : x.magnitude = n.natAbs := by
      rw [Nat.cast_natAbs, Int.cast_abs, ← h]
      have hnonneg := x.magnitude_nonneg
      split_ifs
      · rw [abs_neg, abs_of_nonneg hnonneg]
      · rw [abs_of_nonneg hnonneg]
    rw [toInt?_of_natCast hfinite hmagnitude, Option.some.injEq]
    rw [hmagnitude, ← hcast] at h
    exact_mod_cast h

-- The bits of a number whose significand fills its places.
theorem fields_ofNatBits {field m : Nat} (hfield : field < 2047) (hlow : 2 ^ 52 ≤ m)
    (hhigh : m < 2 ^ 53) :
    let x := ofNatBits (field * 2 ^ 52 + (m - 2 ^ 52))
    x.isNegative = false ∧ x.exponentField = field ∧ x.fractionField = m - 2 ^ 52 := by
  have hbits : (UInt64.ofNat (field * 2 ^ 52 + (m - 2 ^ 52))).toNat =
      field * 2 ^ 52 + (m - 2 ^ 52) := UInt64.toNat_ofNat_of_lt' (by
    have hsize : UInt64.size = 2 ^ 64 := rfl
    omega)
  simp only [ofNatBits, isNegative, exponentField, fractionField, hbits, twoTo_eq,
    decide_eq_false_iff_not]
  omega

theorem rational?_ofNatBits {field m : Nat} (hpos : 0 < field) (hfield : field < 2047)
    (hlow : 2 ^ 52 ≤ m) (hhigh : m < 2 ^ 53) :
    (ofNatBits (field * 2 ^ 52 + (m - 2 ^ 52))).rational? =
      some (m * (2 : ℚ) ^ ((field : Int) - 1075)) := by
  obtain ⟨hsign, hexponent, hfraction⟩ := fields_ofNatBits hfield hlow hhigh
  have hsum : m - 2 ^ 52 + 2 ^ 52 = m := Nat.sub_add_cancel hlow
  rw [rational?_eq_some_iff, isFinite, magnitude, significand, exponent, hsign, hexponent,
    hfraction, if_neg hpos.ne', if_neg hpos.ne', twoTo_eq, hsum]
  exact ⟨bne_iff_ne.mpr hfield.ne, rfl⟩

theorem roundQuotient_one (n : Nat) : roundQuotient n 1 = n := by
  simp [roundQuotient, Nat.mod_one]

theorem floorLog2_one {n : Nat} (h : n ≠ 0) : floorLog2 n 1 = n.log2 := by
  have hlow : 2 ^ n.log2 ≤ n := Nat.log2_self_le h
  have hnone : (-(n.log2 : Int)).toNat = 0 := by omega
  have hone : Nat.log2 1 = 0 := rfl
  simp only [floorLog2, hone, Nat.cast_zero, sub_zero, Int.toNat_natCast, hnone, twoTo_eq,
    pow_zero, one_mul, mul_one, hlow, if_true]

-- Shifted up until it fills its places, a number of at most 53 bits is not rounded.
theorem ofNat_eq_ofNatBits {n : Nat} (hpos : n ≠ 0) (hbound : n < 2 ^ 53) :
    ofNat n = ofNatBits ((n.log2 + 1023) * 2 ^ 52 + (n * 2 ^ (52 - n.log2) - 2 ^ 52)) ∧
      2 ^ 52 ≤ n * 2 ^ (52 - n.log2) ∧ n * 2 ^ (52 - n.log2) < 2 ^ 53 := by
  have hlog : n.log2 ≤ 52 := Nat.lt_succ_iff.mp ((Nat.log2_lt hpos).mpr hbound)
  have hlow : 2 ^ 52 ≤ n * 2 ^ (52 - n.log2) := by
    calc 2 ^ 52 = 2 ^ n.log2 * 2 ^ (52 - n.log2) := by rw [← pow_add, Nat.add_sub_cancel' hlog]
      _ ≤ n * 2 ^ (52 - n.log2) := Nat.mul_le_mul_right _ (Nat.log2_self_le hpos)
  have hhigh : n * 2 ^ (52 - n.log2) < 2 ^ 53 := by
    calc n * 2 ^ (52 - n.log2) < 2 ^ (n.log2 + 1) * 2 ^ (52 - n.log2) :=
          Nat.mul_lt_mul_of_pos_right Nat.lt_log2_self (Nat.two_pow_pos _)
      _ = 2 ^ 53 := by
          rw [← pow_add]
          congr 1
          omega
  have hexponent : max ((n.log2 : Int) - 52) (-1074) = n.log2 - 52 := by omega
  have hdown : (-((n.log2 : Int) - 52)).toNat = 52 - n.log2 := by omega
  have hup : ((n.log2 : Int) - 52).toNat = 0 := by omega
  have hfield : ((n.log2 : Int) - 52 + 1075).toNat = n.log2 + 1023 := by omega
  refine ⟨?_, hlow, hhigh⟩
  simp only [ofNat, ofRatio, hpos, if_false, floorLog2_one hpos, hexponent, hdown, hup, hfield,
    twoTo_eq, pow_zero, mul_one, roundQuotient_one]
  rw [if_neg (by omega), if_neg (by omega)]

theorem rational?_zero : zero.rational? = some 0 := by
  have hfinite : zero.isFinite = true := by decide
  have hsignificand : zero.significand = 0 := by decide
  simp [rational?, hfinite, magnitude, hsignificand]

theorem rational?_ofNat {n : Nat} (h : n ≤ 2 ^ 53) :
    (ofNat n).isNegative = false ∧ (ofNat n).rational? = some (n : ℚ) := by
  by_cases hpos : n = 0
  · subst hpos
    have hzero : ofNat 0 = zero := rfl
    rw [hzero, rational?_zero]
    exact ⟨by decide, rfl⟩
  by_cases hbound : n < 2 ^ 53
  · obtain ⟨hbits, hlow, hhigh⟩ := ofNat_eq_ofNatBits hpos hbound
    have hlog : n.log2 ≤ 52 := Nat.lt_succ_iff.mp ((Nat.log2_lt hpos).mpr hbound)
    have hexponent : ((n.log2 + 1023 : Nat) : Int) - 1075 = -((52 - n.log2 : Nat) : Int) := by omega
    rw [hbits]
    refine ⟨(fields_ofNatBits (by omega) hlow hhigh).1, ?_⟩
    rw [rational?_ofNatBits (by omega) (by omega) hlow hhigh, hexponent, zpow_neg,
      zpow_natCast, Nat.cast_mul, Nat.cast_pow, Nat.cast_ofNat,
      mul_inv_cancel_right₀ (by positivity)]
  · -- One bit more, which the exponent takes.
    have hlast : n = 2 ^ 53 := by omega
    have hbits : ofNat (2 ^ 53) = ofNatBits (1076 * 2 ^ 52 + (2 ^ 52 - 2 ^ 52)) := by decide
    subst hlast
    rw [hbits]
    refine ⟨(fields_ofNatBits (by omega) (by omega) (by omega)).1, ?_⟩
    rw [rational?_ofNatBits (by omega) (by omega) (by omega) (by omega)]
    norm_num

end WholeNumbers

section Signs

theorem toNat_neg (x : Binary64) : x.neg.bits.toNat = x.bits.toNat ^^^ 2 ^ 63 :=
  UInt64.toNat_xor _ _

theorem fractionField_neg (x : Binary64) : x.neg.fractionField = x.fractionField := by
  have hnone : 2 ^ 63 % 2 ^ 52 = 0 := by norm_num
  rw [fractionField, fractionField, toNat_neg, twoTo_eq, Nat.xor_mod_two_pow, hnone, Nat.xor_zero]

theorem exponentField_neg (x : Binary64) : x.neg.exponentField = x.exponentField := by
  have hnone : 2 ^ 63 / 2 ^ 52 % 2 ^ 11 = 0 := by norm_num
  rw [exponentField, exponentField, toNat_neg, twoTo_eq, twoTo_eq, Nat.xor_div_two_pow,
    Nat.xor_mod_two_pow, hnone, Nat.xor_zero]

theorem isNegative_neg (x : Binary64) : x.neg.isNegative = !x.isNegative := by
  have hlt := x.bits.toNat_lt
  have hflip : (x.bits.toNat ^^^ 2 ^ 63) / 2 ^ 63 = x.bits.toNat / 2 ^ 63 ^^^ 1 := by
    rw [Nat.xor_div_two_pow, Nat.div_self (Nat.two_pow_pos 63)]
  by_cases hsign : 2 ^ 63 ≤ x.bits.toNat
  · have hone : x.bits.toNat / 2 ^ 63 = 1 := by omega
    rw [hone, Nat.xor_self] at hflip
    simp only [isNegative, toNat_neg, twoTo_eq, hsign, decide_true, Bool.not_true,
      decide_eq_false_iff_not]
    omega
  · have hnone : x.bits.toNat / 2 ^ 63 = 0 := by omega
    rw [hnone, Nat.zero_xor] at hflip
    simp only [isNegative, toNat_neg, twoTo_eq, hsign, decide_false, Bool.not_false,
      decide_eq_true_eq]
    omega

theorem rational?_neg (x : Binary64) : x.neg.rational? = x.rational?.map fun r => -r := by
  have hmagnitude : x.neg.magnitude = x.magnitude := by
    simp only [magnitude, significand, exponent, exponentField_neg, fractionField_neg]
  have hfinite : x.neg.isFinite = x.isFinite := by
    simp only [isFinite, exponentField_neg]
  rw [rational?, rational?, hfinite, hmagnitude, isNegative_neg]
  cases x.isNegative <;> split_ifs <;> simp_all

end Signs

section Integers

variable {n : Int}

theorem rational?_ofInt (h : n.natAbs ≤ 2 ^ 53) :
    (ofInt n).isNegative = decide (n < 0) ∧ (ofInt n).rational? = some (n : ℚ) := by
  obtain ⟨hsign, hvalue⟩ := rational?_ofNat h
  rw [ofInt]
  split_ifs with hneg
  · have hcast : -(n.natAbs : ℚ) = n := by
      rw [Nat.cast_natAbs, abs_of_neg hneg, Int.cast_neg, neg_neg]
    rw [isNegative_neg, rational?_neg, hsign, hvalue, Option.map_some, hcast]
    exact ⟨by simp [hneg], rfl⟩
  · have hcast : (n.natAbs : ℚ) = n := by
      rw [Nat.cast_natAbs, abs_of_nonneg (not_lt.mp hneg)]
    rw [hsign, hvalue, hcast]
    exact ⟨by simp [hneg], rfl⟩

theorem rational?_negativeZero : negativeZero.rational? = some 0 := by
  rw [negativeZero, rational?_neg, rational?_zero, Option.map_some, neg_zero]

theorem isNegative_negativeZero : negativeZero.isNegative = true := by decide

-- The float of a small integer is the only one there is, the other zero apart.
theorem eq_ofInt_or (h : n.natAbs ≤ 2 ^ 53) (hx : x.rational? = some (n : ℚ)) :
    x = ofInt n ∨ x = negativeZero := by
  obtain ⟨hsign, hvalue⟩ := rational?_ofInt h
  by_cases hn : n = 0
  · subst hn
    rw [Int.cast_zero] at hx hvalue
    cases hx_sign : x.isNegative with
    | false =>
        left
        exact eq_of_rational?_eq hx hvalue fun _ => by rw [hx_sign, hsign]; rfl
    | true =>
        right
        exact eq_of_rational?_eq hx rational?_negativeZero fun _ => by
          rw [hx_sign, isNegative_negativeZero]
  · left
    exact eq_of_rational?_eq hx hvalue fun hzero => absurd (Int.cast_eq_zero.mp hzero) hn

end Integers

end Binary64

end Chronicle
