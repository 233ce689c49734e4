import Chronicle.Decimal.Binary64

-- The fewest decimal digits that read back as the same binary number, and of
-- those the digits nearest to it.

namespace Chronicle.Decimal

-- Which way to go when two shortest decimals are equally near.
inductive Tie where
  | up
  | toEven

-- `digits * 10 ^ power`.
structure Scientific where
  digits : Nat
  power : Int

-- A fraction between two bounds, all over one denominator.
structure Interval where
  low : Nat
  value : Nat
  high : Nat
  den : Nat
  closed : Bool

-- The numbers that round to a positive finite number: half a unit of the last
-- place to both sides, a quarter below a power of two.
def rounding (x : Binary64) : Interval :=
  let m := x.significand
  let q := x.exponent - 2
  let scale := twoTo q.toNat
  let below := if x.fractionField = 0 ∧ 1 < x.exponentField then 1 else 2
  { low := (4 * m - below) * scale
    value := 4 * m * scale
    high := (4 * m + 2) * scale
    den := twoTo (-q).toNat
    closed := m % 2 = 0 }

def Interval.contains (i : Interval) (n den : Nat) : Bool :=
  let (low, here, high) := (i.low * den, n * i.den, i.high * den)
  if i.closed then low ≤ here && here ≤ high else low < here && here < high

-- Raises an exponent at most `steps` times while ten to it still fits.
def raise (num den : Nat) : (steps : Nat) → Int → Int
  | 0, e => e
  | steps + 1, e =>
      let next := e + 1
      if den * tenTo next.toNat ≤ num * tenTo (-next).toNat then raise num den steps next else e

-- The exponent of the leading decimal digit of `num / den`.
def leadingExponent (num den : Nat) : Int :=
  let k : Int := (num.log2 : Int) - den.log2 - 1
  raise num den 3 (k * 30103 / 100000 - 1)

-- The decimal next to the value on the grid of multiples of `10 ^ power`, if
-- the value's rounding interval holds one.
def onGrid (tie : Tie) (i : Interval) (power : Int) : Option Nat :=
  let up := tenTo power.toNat
  let down := tenTo (-power).toNat
  let num := i.value * down
  let den := i.den * up
  let floor := num / den
  let fits (n : Nat) := n != 0 && i.contains (n * up) down
  let rest := 2 * (num % den)
  let roundUp :=
    den < rest || (den == rest && match tie with | .up => true | .toEven => floor % 2 == 1)
  match fits floor, fits (floor + 1) with
  | true, true => some (if roundUp then floor + 1 else floor)
  | true, false => some floor
  | false, true => some (floor + 1)
  | false, false => none

-- Tries grids from coarse to fine, `count` of them.
def firstGrid (tie : Tie) (i : Interval) : (count : Nat) → (power : Int) → Scientific
  | 0, power => ⟨i.value * tenTo (-power).toNat / (i.den * tenTo power.toNat), power⟩
  | count + 1, power =>
      match onGrid tie i power with
      | some digits => ⟨digits, power⟩
      | none => firstGrid tie i count (power - 1)

-- Drops trailing zeros; `fuel` is at least the number of digits.
def Scientific.normalize : (fuel : Nat) → Scientific → Scientific
  | 0, s => s
  | fuel + 1, s =>
      if s.digits ≠ 0 ∧ s.digits % 10 = 0 then normalize fuel ⟨s.digits / 10, s.power + 1⟩ else s

-- The shortest decimal of the magnitude of a finite nonzero number. Seventeen
-- digits always suffice.
def shortest (tie : Tie) (x : Binary64) : Scientific :=
  let i := rounding x
  (firstGrid tie i 17 (leadingExponent i.value i.den)).normalize 20

end Chronicle.Decimal
