import DecimalComma.Decimal.Basic

/-! Numerals: a sign, digits, a point with more digits, and a power of ten, every part of which may
be left out. What a reader demands of the parts is a condition on the numeral. -/
namespace DecimalComma

inductive Numeral.Sign where
  | absent
  | plus
  | minus
deriving DecidableEq, Repr

structure Numeral where
  sign : Numeral.Sign
  whole : List Char
  fraction : Option (List Char)
  exponent : Option Int
deriving DecidableEq, Repr

namespace Numeral

/-- The digits at the start of a text and what follows them. -/
def takeDigits (s : List Char) : List Char × List Char := s.span Char.isDigit

def takeSign : List Char → Sign × List Char
  | '-' :: s => (.minus, s)
  | '+' :: s => (.plus, s)
  | s => (.absent, s)

def takeFraction : List Char → Option (List Char) × List Char
  | '.' :: s => let (ds, r) := takeDigits s; (some ds, r)
  | s => (none, s)

/-- A power of ten needs a digit; a bare `e` is left unread. -/
def takeExponent (s : List Char) : Option Int × List Char :=
  match s with
  | [] => (none, s)
  | c :: r =>
    if c = 'e' ∨ c = 'E' then
      let (sign, r) := takeSign r
      match takeDigits r with
      | ([], _) => (none, s)
      | (ds, r) =>
        let n : Int := Nat.ofDigitChars 10 ds 0
        (some (if sign = .minus then -n else n), r)
    else (none, s)

/-- The numeral at the start of a text and what follows it. -/
def take (s : List Char) : Numeral × List Char :=
  let (sign, s) := takeSign s
  let (whole, s) := takeDigits s
  let (fraction, s) := takeFraction s
  let (exponent, s) := takeExponent s
  (⟨sign, whole, fraction, exponent⟩, s)

def isNegative (n : Numeral) : Bool := n.sign = .minus

def decimal (n : Numeral) : Decimal :=
  .ofParts n.whole (n.fraction.getD []) (n.exponent.getD 0)

/-- Whether the numeral is written without a point and without a power of ten. -/
def isIntegral (n : Numeral) : Bool := n.fraction.isNone && n.exponent.isNone

/-- Whether there is a digit on either side of the point. -/
def hasDigits (n : Numeral) : Bool := !n.whole.isEmpty || n.fraction.any (!·.isEmpty)

/-- The strict form: no plus sign, a whole part without superfluous zeros, a point only before
digits. -/
def isStrict (n : Numeral) : Bool :=
  n.sign ≠ .plus && !n.whole.isEmpty && (n.whole.length = 1 || n.whole.head? ≠ some '0') &&
    n.fraction.all (!·.isEmpty)

/-- The nearest binary64 value, with the sign of the numeral. -/
def toDouble (n : Numeral) : Float := n.decimal.toDouble n.isNegative

end DecimalComma.Numeral
