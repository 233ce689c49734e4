import Chronicle.Json

-- Numbers as JSON texts write them. Significands are cut off at 64 bits, and a
-- number with a fraction or an exponent is scaled by powers of ten of 64-bit
-- precision, so its last bits may differ from the nearest number.

namespace Chronicle.Json

-- The parts of a written number.
structure Numeral where
  negative : Bool
  whole : List Char
  fraction : Option (List Char)
  exponent : Option Int

def digit (c : Char) : Nat := c.toNat - '0'.toNat

-- Takes digits into a significand while it stays below 2^64, and answers with
-- the digits that are left.
def accumulate (significand : Nat) : List Char → Nat × List Char
  | [] => (significand, [])
  | c :: rest =>
      let next := significand * 10 + digit c
      if next < twoTo 64 then accumulate next rest else (significand, c :: rest)

-- The greatest power of ten that is a finite number.
def maxPower : Int := 308

-- Multiplies or divides by powers of ten, one rounding a step. Too large a
-- number is none.
def scale (x : Binary64) (power : Int) : Option Binary64 :=
  if x.significand = 0 then some x
  else if maxPower < power then none
  else if 0 ≤ power then
    let y := x.mulMagnitude (Binary64.ofNat (tenTo power.toNat))
    if y.isFinite then some y else none
  else if -maxPower ≤ power then some (x.divMagnitude (Binary64.ofNat (tenTo (-power).toNat)))
  else scale (x.divMagnitude (Binary64.ofNat (tenTo maxPower.toNat))) (power + maxPower)
termination_by (-power).toNat
decreasing_by simp only [maxPower] at *; omega

def signed (negative : Bool) (x : Binary64) : Binary64 := if negative then x.neg else x

def Numeral.float? (n : Numeral) : Option Binary64 := do
  let (whole, dropped) := accumulate 0 n.whole
  let fraction := n.fraction.getD []
  let (significand, left) := accumulate whole fraction
  let power : Int := (dropped.length : Int) - (fraction.length - left.length : Nat)
  let x ← scale (Binary64.ofNat significand) (power + n.exponent.getD 0)
  some (signed n.negative x)

-- Whole numbers are integers as far as 64 bits go; minus zero is not one.
def Numeral.number? (n : Numeral) : Option JsonNumber :=
  let (whole, dropped) := accumulate 0 n.whole
  if n.fraction.isNone ∧ n.exponent.isNone ∧ dropped = [] ∧
      (n.negative = false ∨ (whole ≠ 0 ∧ whole ≤ twoTo 63)) then
    some (.int (if n.negative then -(whole : Int) else whole))
  else n.float?.map .float

end Chronicle.Json
