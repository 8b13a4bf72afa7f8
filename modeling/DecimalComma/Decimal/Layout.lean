import DecimalComma.Decimal.Shortest

/-! Layouts of numbers: where positional digits end, which mark divides them, how an exponent is
written. A layout turns a decimal into text; a binary64 value is written through its shortest
decimal. -/
namespace DecimalComma

/-- The conventions of one way to write numbers. -/
structure Layout where
  /-- Digits are positional for points above this and up to `highest`. -/
  lowest : Int
  highest : Int
  /-- The mark between whole part and fraction. -/
  mark : Char
  /-- Whether an integral number keeps a zero as its fraction. -/
  keepsFraction : Bool
  /-- The fewest digits of an exponent. -/
  exponentWidth : Nat
  notANumber : String
  infinity : String

namespace Layout

/-- Results of calculations. -/
def result : Layout where
  lowest := -6
  highest := 21
  mark := '.'
  keepsFraction := false
  exponentWidth := 1
  notANumber := "NaN"
  infinity := "Infinity"

/-- Values in the log. -/
def plain : Layout where
  lowest := -4
  highest := 16
  mark := '.'
  keepsFraction := true
  exponentWidth := 2
  notANumber := "nan"
  infinity := "inf"

/-- Numbers that are not integral, as they would be typed. -/
def typed : Layout := { plain with mark := ',' }

/-- Finite numbers in JSON. -/
def json : Layout where
  lowest := -5
  highest := 16
  mark := '.'
  keepsFraction := true
  exponentWidth := 1
  notANumber := "NaN"
  infinity := "Infinity"

/-- Digits on both sides of the mark, with zeros up to it. -/
def writePositional (l : Layout) (d : Decimal) : List Char :=
  let ds := d.digits
  let p := d.point
  if p ≤ 0 then '0' :: l.mark :: List.replicate (-p).toNat '0' ++ ds
  else if p < ds.length then ds.take p.toNat ++ l.mark :: ds.drop p.toNat
  else ds ++ List.replicate (p.toNat - ds.length) '0' ++
    if l.keepsFraction then [l.mark, '0'] else []

/-- A signed power of ten. -/
def writeExponent (l : Layout) (e : Int) : List Char :=
  let ds := Nat.toDigits 10 e.natAbs
  'e' :: (if e < 0 then '-' else '+') :: List.replicate (l.exponentWidth - ds.length) '0' ++ ds

/-- One digit before the mark, the others behind it. -/
def writeScientific (l : Layout) (d : Decimal) : List Char :=
  match d.digits with
  | [] => []
  | c :: cs => c :: (if cs.isEmpty then [] else l.mark :: cs) ++ l.writeExponent (d.point - 1)

def write (l : Layout) (d : Decimal) : List Char :=
  if l.lowest < d.point ∧ d.point ≤ l.highest then l.writePositional d else l.writeScientific d

/-- A binary64 value, by its shortest decimal. -/
def render (l : Layout) (x : Float) : String :=
  if Double.isNaN x then l.notANumber
  else
    (if Double.isNegative x then "-" else "") ++
      if Double.isFinite x then String.ofList (l.write (.shortest (Double.ordinal x)))
      else l.infinity

/-- A number as it would be typed: an integral one in all its digits, any other with a comma. -/
def renderLiteral (x : Float) : String :=
  if Double.isFinite x && Double.isInteger x then
    let n := Double.integerPart x
    (if Double.isNegative x && n ≠ 0 then "-" else "") ++ n.repr
  else typed.render x

end DecimalComma.Layout
