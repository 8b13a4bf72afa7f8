import DecimalComma.Double.Rounding

/-! Approximations of positive numbers by a lower and an upper end, two dyadic numbers of one scale.
The operations round the lower end down and the upper end up. -/
namespace DecimalComma.Double

/-- The ends `low * 2 ^ scale` and `high * 2 ^ scale`. -/
structure Enclosure where
  low : Nat
  high : Nat
  scale : Int

namespace Enclosure

/-- The bits that an end keeps. -/
def precision : Nat := 256

/-- The quotient rounded up. -/
def ceilDiv (num den : Nat) : Nat := (num + den - 1) / den

/-- The point `m * 2 ^ e`. -/
def point (m : Nat) (e : Int) : Enclosure := ⟨m, m, e⟩

/-- Drops the bits of both ends beyond the precision, outwards. -/
def trim (x : Enclosure) : Enclosure :=
  let drop := x.low.log2 - precision
  ⟨x.low >>> drop, ceilDiv x.high (1 <<< drop), x.scale + drop⟩

def mul (x y : Enclosure) : Enclosure :=
  trim ⟨x.low * y.low, x.high * y.high, x.scale + y.scale⟩

def square (x : Enclosure) : Enclosure := mul x x

/-- The square root: the ends are widened to twice the precision and an even scale before it. -/
def root (x : Enclosure) : Enclosure :=
  let wide := 2 * precision - x.low.log2
  let shift := wide + ((x.scale - wide) % 2).toNat
  let top := x.high <<< shift
  let bound := top.sqrt
  ⟨(x.low <<< shift).sqrt, if bound * bound = top then bound else bound + 1, (x.scale - shift) / 2⟩

/-- The reciprocal of a positive number. -/
def inverse (x : Enclosure) : Enclosure :=
  let shift := x.high.log2 + precision
  ⟨(1 <<< shift) / x.high, ceilDiv (1 <<< shift) x.low, -shift - x.scale⟩

/-- A natural power, by repeated squaring. -/
def pow (x : Enclosure) (n : Nat) : Enclosure :=
  if _ : n = 0 then point 1 0
  else
    let half := square (pow x (n / 2))
    if n % 2 = 1 then mul half x else half
termination_by n

/-- The power `n * 2 ^ e`: squarings for a positive `e`, square roots for a negative one. -/
def powDyadic (x : Enclosure) (n : Nat) (e : Int) : Enclosure :=
  (e.toNat.repeat square ((-e).toNat.repeat root x)).pow n

/-- The ordinal that both ends round to. If they round to different ones, it is that of the lower end
or the next one, whichever is even. -/
def nearest (x : Enclosure) : Nat :=
  let n := nearestDyadic x.low x.scale
  if n = nearestDyadic x.high x.scale then n else n + n % 2

end DecimalComma.Double.Enclosure
