import DecimalComma.Double.Basic

/-! Expressions: numbers, parenthesised groups, and five binary operations. A group has no meaning
beyond its content; it records that the source grouped it. -/
namespace DecimalComma

inductive Operation where
  | add
  | sub
  | mul
  | div
  | pow
deriving DecidableEq, Repr

namespace Operation

def all : List Operation := [add, sub, mul, div, pow]

def symbol : Operation → String
  | add => "+"
  | sub => "-"
  | mul => "*"
  | div => "/"
  | pow => "^"

/-- The name of the operation in a document. -/
def tag : Operation → String
  | add => "add"
  | sub => "sub"
  | mul => "mul"
  | div => "div"
  | pow => "pow"

def ofTag? (s : String) : Option Operation := all.find? (·.tag = s)

end Operation

inductive Expr where
  | number (value : Float)
  | group (content : Expr)
  | binary (op : Operation) (left right : Expr)

/-- Equality of trees, with leaves compared as numbers: the zeros are equal and a NaN equals
nothing. -/
def Expr.same : Expr → Expr → Bool
  | number x, number y => Double.same x y
  | group a, group b => same a b
  | binary op a b, binary op' a' b' => op = op' && same a a' && same b b'
  | _, _ => false

end DecimalComma
