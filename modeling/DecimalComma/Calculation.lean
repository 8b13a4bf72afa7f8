import DecimalComma.Expr.Value
import DecimalComma.Log
import DecimalComma.Session

/-! From a source to its tokens, its expression and its value, with the reports made on the way. -/
namespace DecimalComma

/-- A result and the reports of the work on it. -/
structure Logged (α : Type) where
  result : α
  reports : List Report

namespace Calculation

def tokens (source : String) : Logged (List Token) :=
  let ts := Token.scan source
  ⟨ts, [.tokenized source.length ts.length]⟩

/-- The expression at the start of a source. Tokens behind it are left alone, and reported. -/
def expression (source : String) : Logged (Except SyntaxError Expr) :=
  let ts := tokens source
  match (Session.start ts.result).read .additive with
  | (.error e, _) => ⟨.error e, ts.reports⟩
  | (.ok e, s) =>
    ⟨.ok e, ts.reports ++ if s.rest.isEmpty then [] else [.ignored s.rest.length]⟩

/-- The value of that expression. -/
def value (source : String) : Logged (Except SyntaxError Float) :=
  let e := expression source
  match e.result with
  | .error error => ⟨.error error, e.reports⟩
  | .ok expr => ⟨.ok expr.value, e.reports ++ [.evaluated source expr.value]⟩

end Calculation

/-- The expression that a source begins with. -/
def Expr.parse (source : String) : Except SyntaxError Expr := (Calculation.expression source).result

/-- The value of a source. -/
def calculate (source : String) : Except SyntaxError Float := (Calculation.value source).result

end DecimalComma
