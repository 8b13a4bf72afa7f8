import DecimalComma.Double.Basic

/-! Rounding of exact quotients to the nearest magnitude, a tie going to the even neighbour.
Ordinals alternate between even and odd significands, so "even" means the same for both. -/
namespace DecimalComma.Double

/-- The integer nearest to a quotient, the even one at a midpoint. -/
def roundQuotient (num den : Nat) : Nat :=
  let q := num / den
  match compare (2 * (num % den)) den with
  | .lt => q
  | .eq => q + q % 2
  | .gt => q + 1

/-- The ordinal of the magnitude nearest to a quotient. The quotient is measured in units; the
binade is the one in which its integer part has 53 bits. A significand that rounds up to 54 bits
carries into the next binade, and past the last of them lies infinity. -/
def nearest (num den : Nat) : Nat :=
  let scaled := num <<< 1074
  let shift := (scaled / den).log2 - 52
  min (shift * binadeSize + roundQuotient scaled (den <<< shift)) infinityOrdinal

/-- The ordinal of the magnitude nearest to `m * 2 ^ e`, with exponents far out of range cut short.
-/
def nearestDyadic (m : Nat) (e : Int) : Nat :=
  let size := e + m.log2
  if m = 0 ∨ size < -1100 then 0
  else if 1100 < size then infinityOrdinal
  else nearest (m <<< e.toNat) (1 <<< (-e).toNat)

end DecimalComma.Double
