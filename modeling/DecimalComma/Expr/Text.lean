import DecimalComma.Decimal.Layout
import DecimalComma.Expr.Basic

/-! The text of an expression: every binary operation stands between parentheses of its own. -/
namespace DecimalComma

def Expr.text : Expr → String
  | number x => Layout.renderLiteral x
  | group e => "(" ++ e.text ++ ")"
  | binary op l r => "(" ++ l.text ++ " " ++ op.symbol ++ " " ++ r.text ++ ")"

end DecimalComma
