/-!
# Decimal text of binary floating point numbers

A finite binary number is `significand * 2 ^ exponent`, and the decimals that read back as it form an
interval around it: half the distance to either neighbour, the ends included when the significand is
even.  `Decimal.shortest` picks the decimal to print: it lies on the coarsest grid of multiples of a
power of ten that has a point in the interval, which means that it has the fewest digits, and it is
the nearest such point.  Everything is computed exactly, in natural numbers.

A `Decimal.Format` says how digits and exponent become text: from which magnitudes on an exponent is
written, whether a whole number shows a point, and which of two equally near candidates is taken.
-/

namespace DataExpr

/-- The number `digits * 10 ^ exponent`. -/
structure Decimal where
  digits : Nat
  exponent : Int
deriving DecidableEq

/-- A positive binary number, `significand * 2 ^ exponent`. -/
structure Binary where
  significand : Nat
  exponent : Int
  /-- Whether the neighbour below is half as far away as the one above. -/
  closeBelow : Bool

/-- The binary number that the bits of a positive finite double stand for. -/
def Binary.ofBits (bits : Nat) : Binary :=
  let fraction : Nat := bits % (1 <<< 52)
  let biased : Nat := (bits >>> 52) % (1 <<< 11)
  if biased = 0 then ⟨fraction, -1074, false⟩
  else ⟨(1 <<< 52) + fraction, (biased : Int) - 1075, fraction = 0 && 1 < biased⟩

namespace Decimal

/-- Which of two equally near candidates is taken. -/
inductive Tie where
  | up
  | even
deriving DecidableEq

/-! ### The choice of digits -/

/-- The factors that compare a grid with a binary number: `d * 10 ^ p` and `x * 2 ^ (exponent - 2)`
are as `d * (scales b p).1` and `x * (scales b p).2`. -/
def scales (b : Binary) (p : Int) : Nat × Nat :=
  let t := b.exponent - 2
  (Nat.pow 10 p.toNat <<< (-t).toNat, Nat.pow 10 (-p).toNat <<< t.toNat)

/-- Whether a number in quarters of the last place of `b`, scaled, reads back as `b`. -/
def readsBack (b : Binary) (scale y : Nat) : Bool :=
  let low := (4 * b.significand - if b.closeBelow then 1 else 2) * scale
  let high := (4 * b.significand + 2) * scale
  if b.significand % 2 = 0 then low ≤ y && y ≤ high else low < y && y < high

/-- The multiple of `10 ^ p` to print for `b`, if one reads back as `b`: of the two multiples around
`b`, the nearer one that does. -/
def onGrid (tie : Tie) (b : Binary) (p : Int) : Option Nat :=
  let (unit, scale) := scales b p
  let x := 4 * b.significand * scale
  let d := x / unit
  match readsBack b scale (d * unit), readsBack b scale ((d + 1) * unit) with
  | false, false => none
  | true, false => some d
  | false, true => some (d + 1)
  | true, true =>
    if 2 * x < (2 * d + 1) * unit then some d
    else if (2 * d + 1) * unit < 2 * x then some (d + 1)
    else if tie = .even ∧ d % 2 = 0 then some d
    else some (d + 1)

/-- The choice on the coarsest of `n` grids, the first of which has the exponent `p`. -/
def coarsest (tie : Tie) (b : Binary) : Nat → Int → Option Decimal
  | 0, _ => none
  | n + 1, p =>
    match onGrid tie b p with
    | some d => some ⟨d, p⟩
    | none => coarsest tie b n (p - 1)

/-- The exponent of a power of ten that is more than twice the number: the number is less than a power
of two, whose exponent is here weighed with `log 2 / log 10 < 30103 / 100000`. -/
def ceilingExponent (b : Binary) : Int :=
  ((b.significand.log2 : Int) + 1 + b.exponent) * 30103 / 100000 + 2

/-- The decimal to print for a positive double.  A grid above the ceiling has no point that reads back,
and no double needs more than 653 grids, which is how many there are from `10 ^ 309` to `10 ^ -343`. -/
def shortest (tie : Tie) (b : Binary) : Decimal :=
  (coarsest tie b 653 (ceilingExponent b)).getD ⟨0, 0⟩

/-! ### Layout -/

/-- How a number becomes text. -/
structure Format where
  tie : Tie
  /-- The magnitudes (exponents of the first digit) that are written without an exponent, if not all
  are. -/
  plain : Option (Int × Int)
  /-- Whether a whole number is written with a point and a zero. -/
  keepPoint : Bool

/-- That many zeros. -/
def zeros (n : Nat) : String := String.ofList (List.replicate n '0')

/-- The digits with the point where it belongs, zeros filling the places between. -/
def positional (keepPoint : Bool) (digits : String) (exponent : Int) : String :=
  let length : Int := digits.length
  if 0 ≤ exponent then
    digits ++ zeros exponent.toNat ++ if keepPoint then ".0" else ""
  else if 0 < length + exponent then
    let whole := (length + exponent).toNat
    String.ofList (digits.toList.take whole) ++ "." ++ String.ofList (digits.toList.drop whole)
  else
    "0." ++ zeros (-(length + exponent)).toNat ++ digits

/-- The digits with a point after the first, and the magnitude as an exponent with its sign. -/
def scientific (digits : String) (magnitude : Int) : String :=
  let first := String.ofList (digits.toList.take 1)
  let rest := String.ofList (digits.toList.drop 1)
  first ++ (if rest.isEmpty then "" else "." ++ rest) ++ "e" ++
    (if magnitude < 0 then "-" else "+") ++ toString magnitude.natAbs

/-- The text of a positive decimal. -/
def print (format : Format) (d : Decimal) : String :=
  let digits := toString d.digits
  let magnitude := (digits.length : Int) + d.exponent - 1
  let isPlain :=
    match format.plain with
    | none => true
    | some (low, high) => low ≤ magnitude && magnitude ≤ high
  if isPlain then positional format.keepPoint digits d.exponent
  else scientific digits magnitude

/-- The text of a double. -/
def printFloat (format : Format) (x : Float) : String :=
  if x.isNaN then "NaN"
  else
    let bits := x.toBits.toNat
    let sign := if bits < 1 <<< 63 then "" else "-"
    let magnitude := bits % (1 <<< 63)
    if x.isInf then sign ++ "inf"
    else if magnitude = 0 then sign ++ if format.keepPoint then "0.0" else "0"
    else sign ++ print format (shortest format.tie (.ofBits magnitude))

end Decimal

end DataExpr
