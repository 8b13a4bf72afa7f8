import DecimalComma.Decimal.Basic
import DecimalComma.Text.Quoted

/-! Tokens: a number, an operator or a parenthesis, with the text it was read from and where. -/
namespace DecimalComma

inductive TokenKind where
  | number
  | operator
  | parentheses
deriving DecidableEq, Repr

/-- The positions count characters from the start of the source. -/
structure Token where
  payload : String
  position : Int
  kind : TokenKind
deriving DecidableEq, Repr

namespace TokenKind

def name : TokenKind → String
  | number => "number"
  | operator => "operator"
  | parentheses => "parentheses"

def all : List TokenKind := [number, operator, parentheses]

/-- The kind of a given name. -/
def ofName? (s : String) : Option TokenKind := all.find? (·.name = s)

/-- The kind of a character that is a token by itself. -/
def ofChar? (c : Char) : Option TokenKind :=
  if c ∈ ['+', '-', '*', '/', '^'] then some operator
  else if c ∈ ['(', ')'] then some parentheses
  else none

end TokenKind

namespace Token

/-- The mark between the whole part and the fraction of a number. -/
def decimalMark : Char := ','

/-- The line that shows a token. -/
def text (t : Token) : String :=
  s!"{t.kind.name} {Text.quoted t.payload} at position {toString t.position}"

def isOpening (t : Token) : Bool := t.kind = .parentheses && t.payload = "("

def isClosing (t : Token) : Bool := t.kind = .parentheses && t.payload = ")"

/-- The decimal that a number's payload denotes: digits, a mark, and more digits. -/
def decimal (t : Token) : Decimal :=
  let cs := t.payload.toList
  .ofParts (cs.takeWhile (· ≠ decimalMark)) ((cs.dropWhile (· ≠ decimalMark)).drop 1) 0

/-- The nearest binary64 value, which is never negative. -/
def value (t : Token) : Float := t.decimal.toDouble false

end DecimalComma.Token
