import DecimalComma.Double.Enclosure

/-! Exponentiation of binary64 values, with the conventional limits at zeros, infinities and NaNs.
Elsewhere it stands for the power of the platform's library, which leaves the last bit open. -/
namespace DecimalComma.Double

/-- The odd part of a significand and the power of two that goes with it. -/
def oddPart (m : Nat) (e : Int) : Nat × Int :=
  if _ : m ≠ 0 ∧ m % 2 = 0 then oddPart (m / 2) (e + 1) else (m, e)
termination_by m

/-- The odd part of a magnitude. -/
def dyadic (n : Nat) : Nat × Int := oddPart (significand n) (binade n - 1074)

/-- The power of two finite magnitudes, neither of them zero. It stands for that of the platform's
library, which may differ from it in the last bit. -/
def finitePower (base exponent : Nat) (inverted : Bool) : Nat :=
  let (m, e) := dyadic base
  let (n, k) := dyadic exponent
  let power := (Enclosure.point m e).powDyadic n k
  (if inverted then power.inverse else power).nearest

/-- The power of two magnitudes that are numbers, the exponent not zero. From 2 to the power 64 on an
exponent acts as an infinite one, and below 2 to the power -64 it gives one. -/
def powerOrdinal (base exponent : Nat) (inverted : Bool) : Nat :=
  if base = oneOrdinal then oneOrdinal
  else if base = 0 ∨ base = infinityOrdinal ∨ oneOrdinal + 64 * binadeSize ≤ exponent then
    if decide (oneOrdinal < base) = inverted then 0 else infinityOrdinal
  else if exponent < oneOrdinal - 64 * binadeSize then oneOrdinal
  else finitePower base exponent inverted

/-- The power with the conventions of IEEE 754: a zero exponent and a base of one give one whatever
the other operand, and a negative base needs an integral exponent, whose parity gives the sign. -/
def pow (x y : Float) : Float :=
  if isZero y then ofOrdinal false oneOrdinal
  else if ordinal x = oneOrdinal && !isNegative x then x
  else if isNaN x || isNaN y then nan
  else if isNegative x && isFinite x && !isZero x && !isInteger y then nan
  else ofOrdinal (isNegative x && isOddInteger y)
    (powerOrdinal (ordinal x) (ordinal y) (isNegative y))

end DecimalComma.Double
