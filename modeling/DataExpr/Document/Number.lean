import DataExpr.Document

/-!
# Numbers of JSON documents

A number is a sign, whole digits, and possibly a fraction and an exponent (`Numeral`).
`Numeral.toDocument?` gives what it stands for: an integer if it has neither fraction nor exponent
and fits 64 bits, and otherwise a double.

Doubles are computed in a fixed way, which is fast and may miss the nearest double by little.  The
first digits that fit 64 bits are the significand, and all that was left out or stands behind the
point goes into the exponent (`Scaled`).  The significand is rounded to a double once, and then
multiplied or divided by a power of ten.  A number that is too large for a double is none.
-/

namespace DataExpr

/-- A number as it is written. -/
structure Numeral where
  isNegative : Bool
  /-- The digits before the point. -/
  whole : List Nat
  /-- The digits behind the point, if there is one. -/
  fraction : Option (List Nat)
  /-- Whether the exponent is negative, and its digits, if there is one. -/
  exponent : Option (Bool × List Nat)

namespace Numeral

/-- The number that decimal digits stand for. -/
def natOfDigits (digits : List Nat) : Nat := digits.foldl (fun n d => 10 * n + d) 0

/-! ### The significand -/

/-- The number `significand * 10 ^ exponent`. -/
structure Scaled where
  significand : Nat
  exponent : Int
deriving DecidableEq

/-- The significand of digits before the point.  From the first digit on that would take it past 64
bits, digits only raise the exponent. -/
def scaleWhole (s : Scaled) : List Nat → Scaled
  | [] => s
  | d :: ds =>
    if 10 * s.significand + d < UInt64.size then
      scaleWhole { s with significand := 10 * s.significand + d } ds
    else { s with exponent := s.exponent + ((d :: ds).length : Int) }

/-- The significand with digits behind the point, each of which lowers the exponent.  From the first
digit on that would take it past 64 bits, digits do not count. -/
def scaleFraction (s : Scaled) : List Nat → Scaled
  | [] => s
  | d :: ds =>
    if 10 * s.significand + d < UInt64.size then
      scaleFraction ⟨10 * s.significand + d, s.exponent - 1⟩ ds
    else s

/-- The significand and the exponent of a number without its own exponent. -/
def scaled (n : Numeral) : Scaled :=
  scaleFraction (scaleWhole ⟨0, 0⟩ n.whole) (n.fraction.getD [])

/-! ### Doubles -/

/-- The largest power of ten that a double can hold has this exponent. -/
def maxPower : Nat := 308

/-- A power of ten as a double. -/
def power (n : Nat) : Float := Float.ofScientific 1 false n

/-- The double times a power of ten, if it is not too large. -/
def scaleFloat (x : Float) (exponent : Int) : Option Float :=
  if 0 ≤ exponent then
    if exponent.toNat ≤ maxPower then
      let y := x * power exponent.toNat
      if y.isInf then none else some y
    else if x == 0 then some x else none
  else if (-exponent).toNat ≤ maxPower then some (x / power (-exponent).toNat)
  else if x == 0 then some x
  else scaleFloat (x / power maxPower) (exponent + maxPower)
termination_by (-exponent).toNat
decreasing_by
  simp only [maxPower] at *
  omega

/-- The double of the number without its sign, if it is not too large.  An exponent past 31 bits is
not weighed against the digits: it makes a number too large or nothing. -/
def magnitude? (n : Numeral) : Option Float :=
  let s := n.scaled
  let x := (UInt64.ofNat s.significand).toFloat
  match n.exponent with
  | none => scaleFloat x s.exponent
  | some (isNegative, digits) =>
    let e := natOfDigits digits
    if e ≤ Int32.maxValue.toInt.toNat then
      scaleFloat x (s.exponent + if isNegative then -(e : Int) else e)
    else if isNegative ∨ s.significand = 0 then some 0
    else none

/-- The double that the number stands for, if it is not too large. -/
def toFloat? (n : Numeral) : Option Float :=
  n.magnitude?.map fun x => if n.isNegative then -x else x

/-! ### Documents -/

/-- The integer that the number stands for, if it is written as one and fits 64 bits, the sign
counting for a bit when it is there.  A negative zero is no integer. -/
def toInt? (n : Numeral) : Option Int :=
  match n.fraction, n.exponent with
  | none, none =>
    let m := natOfDigits n.whole
    if n.isNegative then if 0 < m ∧ m ≤ Int64.minValue.toInt.natAbs then some (-(m : Int)) else none
    else if m < UInt64.size then some m
    else none
  | _, _ => none

/-- What the number stands for, if it is not too large. -/
def toDocument? (n : Numeral) : Option Document :=
  match n.toInt? with
  | some i => some (.int i)
  | none => .float <$> n.toFloat?

end Numeral

end DataExpr
