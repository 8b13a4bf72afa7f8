import DecimalComma.Arithmetic
import DecimalComma.Expr.Basic

/-! The value of an expression. -/
namespace DecimalComma

def Operation.apply : Operation → Float → Float → Float
  | add, x, y => x + y
  | sub, x, y => x - y
  | mul, x, y => x * y
  | div, x, y => Arithmetic.divide x y
  | pow, x, y => Arithmetic.power x y

def Expr.value : Expr → Float
  | number x => x
  | group e => e.value
  | binary op l r => op.apply l.value r.value

end DecimalComma
