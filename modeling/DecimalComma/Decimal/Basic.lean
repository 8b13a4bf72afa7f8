import DecimalComma.Double.Rounding

/-! Exact decimals, their significant digits, and the binary64 value nearest to one. -/
namespace DecimalComma

/-- The number `coefficient * 10 ^ exponent`. -/
structure Decimal where
  coefficient : Nat
  exponent : Int
deriving DecidableEq, Repr

namespace Decimal

/-- The digits of the coefficient, the leading one first. -/
def digits (d : Decimal) : List Char := Nat.toDigits 10 d.coefficient

/-- The place of the point: the number is `0.d₁d₂… * 10 ^ point` in its digits. -/
def point (d : Decimal) : Int := d.digits.length + d.exponent

/-- The decimal written as digits, a point, more digits, and a power of ten. -/
def ofParts (whole fraction : List Char) (exponent : Int) : Decimal :=
  ⟨Nat.ofDigitChars 10 (whole ++ fraction) 0, exponent - fraction.length⟩

/-- The same number with no zero at the end of its coefficient; zero becomes `0 * 10 ^ 0`. -/
def trim (d : Decimal) : Decimal :=
  if d.coefficient = 0 then ⟨0, 0⟩
  else if d.coefficient % 10 = 0 then trim ⟨d.coefficient / 10, d.exponent + 1⟩
  else d
termination_by d.coefficient

/-- The ordinal of the nearest magnitude. Numbers from 10 to the power 400 on round to infinity and
numbers below 10 to the power -400 to zero, whatever their digits. -/
def ordinal (d : Decimal) : Nat :=
  if d.coefficient = 0 ∨ d.exponent < -(401 + d.coefficient.log2 : Nat) then 0
  else if 400 < d.exponent then Double.infinityOrdinal
  else Double.nearest (d.coefficient * Nat.pow 10 d.exponent.toNat) (Nat.pow 10 (-d.exponent).toNat)

/-- The nearest binary64 value, with a sign. -/
def toDouble (negative : Bool) (d : Decimal) : Float := Double.ofOrdinal negative d.ordinal

end DecimalComma.Decimal
