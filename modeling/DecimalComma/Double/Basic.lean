/-! Binary64 values as a sign and an ordinal. The ordinal is the encoding without its sign bit: it
counts the magnitudes upwards from zero, one step per representable value, with infinity above the
finite ones and the NaNs above infinity. -/
namespace DecimalComma.Double

/-- The ordinals of one binade; also the leading bit of a normal significand. -/
def binadeSize : Nat := 1 <<< 52

/-- The sign bit of an encoding, above all ordinals. -/
def signBit : Nat := 1 <<< 63

/-- The first ordinal that is not finite. -/
def infinityOrdinal : Nat := 2047 * binadeSize

/-- The ordinal of one. -/
def oneOrdinal : Nat := 1023 * binadeSize

/-- The encoding without its sign bit. -/
def ordinal (x : Float) : Nat := x.toBits.toNat % signBit

/-- Whether the sign bit is set; so also for negative zero. -/
def isNegative (x : Float) : Bool := signBit ≤ x.toBits.toNat

/-- The value with a given sign and ordinal. -/
def ofOrdinal (negative : Bool) (n : Nat) : Float :=
  Float.ofBits (UInt64.ofNat (if negative then signBit + n else n))

/-- The one NaN that results are made of. -/
def nan : Float := ofOrdinal false (infinityOrdinal + binadeSize / 2)

/-- Infinity with a given sign. -/
def infinity (negative : Bool) : Float := ofOrdinal negative infinityOrdinal

def isNaN (x : Float) : Bool := infinityOrdinal < ordinal x

def isFinite (x : Float) : Bool := ordinal x < infinityOrdinal

/-- Both zeros. -/
def isZero (x : Float) : Bool := ordinal x = 0

/-- A magnitude is its significand times a power of two. -/
def significand (n : Nat) : Nat := if n < binadeSize then n else binadeSize + n % binadeSize

/-- The power of two in a magnitude, less 1074: zero for the subnormals and the first normals. -/
def binade (n : Nat) : Nat := n / binadeSize - 1

/-- A magnitude counted in the smallest positive one, which is 2 to the power -1074. -/
def units (n : Nat) : Nat := significand n <<< binade n

/-- One, counted in the smallest positive magnitude. -/
def unitsOfOne : Nat := 1 <<< 1074

/-- The integers among the magnitudes are the multiples of one; infinity counts as an even one. -/
def isInteger (x : Float) : Bool := units (ordinal x) % unitsOfOne = 0

/-- The integer part of a magnitude. -/
def integerPart (x : Float) : Nat := units (ordinal x) / unitsOfOne

def isOddInteger (x : Float) : Bool := isInteger x && integerPart x % 2 = 1

/-- Equality of numbers: the zeros are equal and a NaN equals nothing. -/
def same (x y : Float) : Bool :=
  !isNaN x && !isNaN y &&
    (ordinal x = ordinal y && (isZero x || isNegative x = isNegative y))

end DecimalComma.Double
