import Chronicle.Decimal.Shortest

-- Texts of floating-point numbers: where positional notation ends, whether a
-- whole number keeps its point, and what stands for numbers without digits.

namespace Chronicle.Decimal

structure Notation where
  tie : Tie
  -- Positional notation is used while the decimal point falls within these
  -- places, counted from the first digit; `none` means always.
  positional : Option (Int × Int)
  wholeSuffix : String
  nan : String
  infinity : String
  negativeInfinity : String

-- Numbers in messages are always positional and whole ones have no point.
def plain : Notation :=
  { tie := .up, positional := none, wholeSuffix := "", nan := "NaN", infinity := "inf",
    negativeInfinity := "-inf" }

-- Numbers in JSON keep a point or an exponent; a number without digits is null.
def json : Notation :=
  { tie := .toEven, positional := some (-4, 16), wholeSuffix := ".0", nan := "null",
    infinity := "null", negativeInfinity := "null" }

def zeros (n : Nat) : String := String.ofList (List.replicate n '0')

-- `digits` with the decimal point after the first `point` of them.
def placePoint (wholeSuffix digits : String) (point : Int) : String :=
  let cs := digits.toList
  let count : Int := cs.length
  if point ≤ 0 then "0." ++ zeros (-point).toNat ++ digits
  else if count ≤ point then digits ++ zeros (point - count).toNat ++ wholeSuffix
  else String.ofList (cs.take point.toNat) ++ "." ++ String.ofList (cs.drop point.toNat)

-- One digit, a point before the others, and the exponent with its sign.
def withExponent (digits : String) (point : Int) : String :=
  let cs := digits.toList
  let mantissa :=
    match cs with
    | [] => ""
    | [c] => c.toString
    | c :: rest => c.toString ++ "." ++ String.ofList rest
  let e := point - 1
  mantissa ++ "e" ++ (if e < 0 then "-" else "+") ++ toString e.natAbs

def Notation.magnitude (n : Notation) (x : Binary64) : String :=
  if x.significand = 0 then "0" ++ n.wholeSuffix
  else
    let s := shortest n.tie x
    let digits := toString s.digits
    let point := (digits.length : Int) + s.power
    match n.positional with
    | none => placePoint n.wholeSuffix digits point
    | some (low, high) =>
        if low ≤ point ∧ point ≤ high then placePoint n.wholeSuffix digits point
        else withExponent digits point

def Notation.render (n : Notation) (x : Binary64) : String :=
  if x.isNaN then n.nan
  else if x.isFinite then (if x.isNegative then "-" else "") ++ n.magnitude x
  else if x.isNegative then n.negativeInfinity else n.infinity

end Chronicle.Decimal
