import DecimalComma.Expr.Basic
import DecimalComma.Token.Basic

/-! The grammar, as a parser by levels. An atom is a number or a parenthesised expression; every
other level is an operand of the next tighter level, then at most one of its own operators and,
after it, the same level again, so that chains group from the right. -/
namespace DecimalComma.Grammar

/-- The levels of precedence, the tightest first. -/
inductive Level where
  | atomic
  | power
  | multiplicative
  | additive
deriving DecidableEq, Repr

namespace Level

def rank : Level → Nat
  | atomic => 0
  | power => 1
  | multiplicative => 2
  | additive => 3

/-- The level of the operands. -/
def tighter : Level → Level
  | atomic => atomic
  | power => atomic
  | multiplicative => power
  | additive => multiplicative

def operations : Level → List Operation
  | atomic => []
  | power => [.pow]
  | multiplicative => [.mul, .div]
  | additive => [.add, .sub]

theorem rank_tighter_lt {l : Level} (h : l ≠ atomic) : l.tighter.rank < l.rank := by
  cases l <;> simp_all [tighter, rank]

end Level

/-- The operation of a level that a token stands for. -/
def operation? (l : Level) (t : Token) : Option Operation :=
  if t.kind = .operator then l.operations.find? (·.symbol = t.payload) else none

/-- The operation that the tokens begin with, and the tokens after it. -/
def takeOperation (l : Level) : List Token → Option (Operation × List Token)
  | [] => none
  | t :: ts => (operation? l t).map (·, ts)

/-- What the parser missed. -/
inductive Missing where
  | operand
  | closing
deriving DecidableEq, Repr

/-- A failure, with the tokens from the offending one on. -/
structure Failure where
  missing : Missing
  rest : List Token

/-- An expression at the start of the tokens and the tokens after it, at least one fewer. -/
structure Parsed (ts : List Token) where
  expr : Expr
  rest : List Token
  shorter : rest.length < ts.length

/-- The tokens after a closing parenthesis. -/
def takeClosing : List Token → Except Failure (List Token)
  | [] => .error ⟨.closing, []⟩
  | t :: ts => if t.isClosing then .ok ts else .error ⟨.closing, t :: ts⟩

theorem length_of_takeClosing {ts rest : List Token} (h : takeClosing ts = .ok rest) :
    rest.length < ts.length := by
  cases ts with
  | nil => simp [takeClosing] at h
  | cons t ts =>
    simp only [takeClosing] at h
    split at h
    · cases h; simp
    · cases h

theorem length_of_takeOperation {l : Level} {ts rest : List Token} {op : Operation}
    (h : takeOperation l ts = some (op, rest)) : rest.length < ts.length := by
  cases ts with
  | nil => simp [takeOperation] at h
  | cons t ts =>
    simp only [takeOperation, Option.map_eq_some_iff, Prod.mk.injEq] at h
    obtain ⟨_, _, _, rfl⟩ := h
    simp

/-- The longest expression of a level at the start of the tokens. -/
def parse (l : Level) (ts : List Token) : Except Failure (Parsed ts) :=
  if hl : l = .atomic then
    match ts with
    | [] => .error ⟨.operand, []⟩
    | t :: ts =>
      if t.kind = .number then .ok ⟨.number t.value, ts, by simp⟩
      else if t.isOpening then
        match parse .additive ts with
        | .error f => .error f
        | .ok content =>
          match hc : takeClosing content.rest with
          | .error f => .error f
          | .ok rest =>
            .ok ⟨.group content.expr, rest, by
              have := length_of_takeClosing hc
              have := content.shorter
              simp only [List.length_cons]; omega⟩
      else .error ⟨.operand, t :: ts⟩
  else
    match parse l.tighter ts with
    | .error f => .error f
    | .ok left =>
      match ho : takeOperation l left.rest with
      | none => .ok left
      | some (op, rest) =>
        match parse l rest with
        | .error f => .error f
        | .ok right =>
          .ok ⟨.binary op left.expr right.expr, right.rest, by
            have := length_of_takeOperation ho
            have := left.shorter
            have := right.shorter
            omega⟩
termination_by (ts.length, l.rank)
decreasing_by
  · exact Prod.Lex.left _ _ (by simp)
  · exact Prod.Lex.right _ (Level.rank_tighter_lt hl)
  · have := length_of_takeOperation ho
    have := left.shorter
    exact Prod.Lex.left _ _ (by omega)

end DecimalComma.Grammar
