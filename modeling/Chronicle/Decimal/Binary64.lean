import Chronicle.Power

-- Binary floating-point numbers of 64 bits, as their bits. Arithmetic is exact
-- on natural numbers followed by one rounding, so nothing here depends on a
-- machine's floating-point unit.

namespace Chronicle

structure Binary64 where
  bits : UInt64
  deriving DecidableEq, Inhabited

-- The quotient rounded to the nearest integer, a half to the even one.
def roundQuotient (num den : Nat) : Nat :=
  let quotient := num / den
  let twice := 2 * (num % den)
  if den < twice ∨ (den = twice ∧ quotient % 2 = 1) then quotient + 1 else quotient

-- The integer k with 2^k ≤ num / den < 2^(k+1).
def floorLog2 (num den : Nat) : Int :=
  let k : Int := (num.log2 : Int) - den.log2
  if den * twoTo k.toNat ≤ num * twoTo (-k).toNat then k else k - 1

namespace Binary64

def ofNatBits (n : Nat) : Binary64 := ⟨UInt64.ofNat n⟩

def isNegative (x : Binary64) : Bool := twoTo 63 ≤ x.bits.toNat

def exponentField (x : Binary64) : Nat := x.bits.toNat / twoTo 52 % twoTo 11

def fractionField (x : Binary64) : Nat := x.bits.toNat % twoTo 52

def isFinite (x : Binary64) : Bool := x.exponentField != 2047

def isNaN (x : Binary64) : Bool := x.exponentField == 2047 && x.fractionField != 0

-- A finite number is `significand * 2 ^ exponent`, but for its sign.
def significand (x : Binary64) : Nat :=
  if x.exponentField = 0 then x.fractionField else x.fractionField + twoTo 52

def exponent (x : Binary64) : Int :=
  if x.exponentField = 0 then -1074 else (x.exponentField : Int) - 1075

def neg (x : Binary64) : Binary64 := ⟨x.bits ^^^ 0x8000000000000000⟩

def zero : Binary64 := ⟨0⟩

def infinity : Binary64 := ⟨0x7ff0000000000000⟩

def nan : Binary64 := ⟨0x7ff8000000000000⟩

-- The number nearest to `num / den`, ties to even; too large a quotient rounds
-- to infinity.
def ofRatio (num den : Nat) : Binary64 :=
  if num = 0 then zero
  else
    let q := max (floorLog2 num den - 52) (-1074)
    let m := roundQuotient (num * twoTo (-q).toNat) (den * twoTo q.toNat)
    if m < twoTo 52 then ofNatBits m
    else
      let field := (q + 1075).toNat * twoTo 52 + (m - twoTo 52)
      if 2047 * twoTo 52 ≤ field then infinity else ofNatBits field

def ofNat (n : Nat) : Binary64 := ofRatio n 1

def ofInt (n : Int) : Binary64 :=
  if n < 0 then (ofNat n.natAbs).neg else ofNat n.natAbs

-- The magnitude of a finite number as a fraction.
def numerator (x : Binary64) : Nat := x.significand * twoTo x.exponent.toNat

def denominator (x : Binary64) : Nat := twoTo (-x.exponent).toNat

-- Products and quotients of magnitudes, rounded once.
def mulMagnitude (x y : Binary64) : Binary64 :=
  ofRatio (x.numerator * y.numerator) (x.denominator * y.denominator)

def divMagnitude (x y : Binary64) : Binary64 :=
  ofRatio (x.numerator * y.denominator) (x.denominator * y.numerator)

-- The integer that a finite number without fractional part is.
def toInt? (x : Binary64) : Option Int :=
  if x.isFinite ∧ x.numerator % x.denominator = 0 then
    let n : Int := x.numerator / x.denominator
    some (if x.isNegative then -n else n)
  else none

-- The number nearest to `digits * 10 ^ power`, ties to even. Powers far outside
-- the range are cut off before any large power is computed.
def ofDecimal (digits : Nat) (power : Int) : Binary64 :=
  if digits = 0 then zero
  else
    let size : Int := digits.log2
    if 310 < power then infinity
    else if power * 3 + size < -1100 then zero
    else ofRatio (digits * tenTo power.toNat) (tenTo (-power).toNat)

end Binary64

end Chronicle
