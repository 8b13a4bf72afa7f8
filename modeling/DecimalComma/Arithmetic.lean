import DecimalComma.Double.Power

/-! The arithmetic of expressions. Quotients and powers have partial forms, which report the
operands that have no answer, and total forms, which turn every report into an infinity or a NaN. -/
namespace DecimalComma.Arithmetic
open Double

/-- Why a power of finite operands has no finite answer. -/
inductive Fault where
  | domain
  | overflow
deriving DecidableEq, Repr

/-- The quotient, unless the divisor is zero. -/
def quotient? (x y : Float) : Option Float := if isZero y then none else some (x / y)

/-- The power, unless both operands are finite and the answer is not: outside the domain lie NaNs
and the negative powers of zero. -/
def checkedPower (x y : Float) : Except Fault Float :=
  let r := pow x y
  if !isFinite x || !isFinite y || isFinite r then .ok r
  else if isNaN r || isZero x then .error .domain
  else .error .overflow

/-- Division: by zero it gives an infinity of the sign of both operands, and a NaN for `0 / 0`. -/
def divide (x y : Float) : Float :=
  (quotient? x y).getD <|
    if isZero x || isNaN x then nan else infinity (isNegative x != isNegative y)

/-- Exponentiation: a NaN exponent always gives a NaN, and so does a base of magnitude one with an
infinite exponent. -/
def power (x y : Float) : Float :=
  if isNaN y || (ordinal x = oneOrdinal && ordinal y = infinityOrdinal) then nan
  else match checkedPower x y with
    | .ok r => r
    | .error .domain => if isZero x then infinity (isNegative x && isOddInteger y) else nan
    | .error .overflow => infinity (isNegative x && isOddInteger y)

end DecimalComma.Arithmetic
