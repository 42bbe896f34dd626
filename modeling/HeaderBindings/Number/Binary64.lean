/-
Module: HeaderBindings.Number.Binary64
Purpose: Binary floating-point numbers of 64 bits: the one nearest to a decimal, and the fewest
  decimal digits that tell one from its neighbours.
Main exports: Magnitude, Binary64, Magnitude.ofRatio?, Binary64.ofDecimal, Magnitude.shortest
-/

namespace HeaderBindings.Number

/-- A number without sign: `significand * 2 ^ exponent` units of `2 ^ -1074`, the smallest positive
number of the format. The significand has at most 53 bits, and it has 53 unless the exponent is
zero. -/
structure Magnitude where
  significand : Nat
  exponent : Nat
deriving Repr, DecidableEq

/-- A floating-point number of 64 bits. -/
inductive Binary64 where
  | finite (negative : Bool) (magnitude : Magnitude)
  | infinite (negative : Bool)
  | notANumber
deriving Repr, DecidableEq

/-- A decimal: a whole number times a power of ten. -/
structure Decimal where
  digits : Nat
  exponent : Int
deriving Repr, DecidableEq

/-- A power of two. -/
def twoTo (exponent : Nat) : Nat := Nat.pow 2 exponent

/-- A power of ten. -/
def tenTo (exponent : Nat) : Nat := Nat.pow 10 exponent

/-- The number of digits of a number in decimal; zero has one. -/
def digitCount (n : Nat) : Nat := (Nat.toDigits 10 n).length

/-- The whole number nearest to a quotient; of two equally near ones the even one. -/
def nearest (numerator denominator : Nat) : Nat :=
  let quotient := numerator / denominator
  let twice := 2 * (numerator % denominator)
  if twice < denominator then quotient
  else if denominator < twice then quotient + 1
  else quotient + quotient % 2

namespace Magnitude

/-- The number zero. -/
def zero : Magnitude := ⟨0, 0⟩

/-- The largest exponent. -/
def maxExponent : Nat := 2045

/-- The magnitude nearest to a quotient; none if that is beyond the largest one. -/
def ofRatio? (numerator denominator : Nat) : Option Magnitude :=
  let units := numerator * twoTo 1074
  let exponent := (units / denominator).log2 - 52
  let significand := nearest units (denominator * twoTo exponent)
  let rounded : Magnitude :=
    if significand == twoTo 53 then ⟨twoTo 52, exponent + 1⟩ else ⟨significand, exponent⟩
  if maxExponent < rounded.exponent then none else some rounded

/-- The magnitude nearest to a decimal; none if that is beyond the largest one. Decimals from `10 ^ 310`
are beyond the largest magnitude, and those below `10 ^ -330` are nearest to zero. -/
def ofDecimal? (decimal : Decimal) : Option Magnitude :=
  let size := decimal.exponent + digitCount decimal.digits
  if decimal.digits == 0 || size < -330 then some zero
  else if 310 < size then none
  else if decimal.exponent < 0 then ofRatio? decimal.digits (tenTo decimal.exponent.natAbs)
  else ofRatio? (decimal.digits * tenTo decimal.exponent.natAbs) 1

/-! ### The shortest decimal

All comparisons are between whole numbers of quarters of the last place. A decimal `d * 10 ^ k` reads
back as a magnitude if it lies between the midpoints to the magnitude's neighbours; a midpoint belongs
to the even significand. -/

/-- The quarters of units that make up a magnitude. -/
def quarters (magnitude : Magnitude) : Nat := 4 * magnitude.significand * twoTo magnitude.exponent

/-- The quarters of units that make up one. -/
def quartersOfOne : Nat := 4 * twoTo 1074

/-- The midpoint to the neighbour below. A power of two is nearer to that neighbour, unless its
exponent is the smallest. -/
def lowerMidpoint (magnitude : Magnitude) : Nat :=
  let gap := if magnitude.significand == twoTo 52 && magnitude.exponent != 0 then 1 else 2
  magnitude.quarters - gap * twoTo magnitude.exponent

/-- The midpoint to the neighbour above. -/
def upperMidpoint (magnitude : Magnitude) : Nat :=
  magnitude.quarters + 2 * twoTo magnitude.exponent

/-- The exponent of the first decimal digit of a magnitude other than zero. -/
def decimalExponent (magnitude : Magnitude) : Int :=
  let quarters := magnitude.quarters
  if quartersOfOne ≤ quarters then (digitCount (quarters / quartersOfOne) : Int) - 1
  else -(digitCount ((quartersOfOne - 1) / quarters) : Int)

/-- The factors that compare a magnitude with multiples of a power of ten: the first is for the
magnitude, the second for the multiples. -/
def gridFactors (exponent : Int) : Nat × Nat :=
  if exponent < 0 then (tenTo exponent.natAbs, 1) else (1, tenTo exponent.natAbs)

/-- Of the multiples of a power of ten, the one nearest to a magnitude that reads back as it. -/
def onGrid? (magnitude : Magnitude) (exponent : Int) : Option Nat :=
  let (scale, step) := gridFactors exponent
  let value := magnitude.quarters * scale
  let low := magnitude.lowerMidpoint * scale
  let high := magnitude.upperMidpoint * scale
  let unit := quartersOfOne * step
  let below := value / unit
  let readsBack (multiple : Nat) : Bool :=
    let point := multiple * unit
    if magnitude.significand % 2 == 0 then low ≤ point && point ≤ high
    else low < point && point < high
  match readsBack below, readsBack (below + 1) with
  | true, true => some (nearest value unit)
  | true, false => some below
  | false, true => some (below + 1)
  | false, false => none

/-- The decimal with the fewest digits that reads back as a magnitude other than zero, and of those
with as many digits the nearest. Seventeen digits are always enough. -/
def shortest (magnitude : Magnitude) : Decimal :=
  let top := magnitude.decimalExponent
  let found := (List.range 17).findSome? fun (more : Nat) =>
    (magnitude.onGrid? (top - more)).map fun digits => Decimal.mk digits (top - more)
  found.getD ⟨0, 0⟩

end Magnitude

/-- The number nearest to a decimal with a sign. -/
def Binary64.ofDecimal (negative : Bool) (decimal : Decimal) : Binary64 :=
  match Magnitude.ofDecimal? decimal with
  | some magnitude => .finite negative magnitude
  | none => .infinite negative

end HeaderBindings.Number
