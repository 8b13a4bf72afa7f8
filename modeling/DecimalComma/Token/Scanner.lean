import DecimalComma.Cursor
import DecimalComma.Token.Basic

/-! The scanner: a cursor over the characters of a source, and a mode that says what it is in the
middle of. A number is a run of digits with at most one fraction; a comma belongs to it only if a
digit follows, so the scanner steps over the comma to look and steps back where none does.
Characters of no token are passed over. -/
namespace DecimalComma

/-- What the scanner is in the middle of: nothing, the whole digits of a number, the comma just
behind it, or the digits of a fraction. A number carries its start and its characters, the latest
first. -/
inductive Scanner.Mode where
  | between
  | whole (start : Int) (read : List Char)
  | comma (start : Int) (read : List Char)
  | fraction (start : Int) (read : List Char)

structure Scanner where
  cursor : Cursor Char
  mode : Scanner.Mode := .between

namespace Scanner

/-- A scanner at the start of a source. -/
def start (source : String) : Scanner := ⟨⟨source.toList.toArray, 0⟩, .between⟩

/-- The number token for its characters, the latest first. -/
def number (start : Int) (read : List Char) : Token := ⟨String.ofList read.reverse, start, .number⟩

/-- One step: the next scanner and the token that the step completes, or `none` at the end. -/
def step (s : Scanner) : Option (Scanner × Option Token) :=
  match s.mode, s.cursor.current with
  | .between, none => none
  | .between, some c =>
    if c.isDigit then some (⟨s.cursor.forward, .whole s.cursor.position [c]⟩, none)
    else some (⟨s.cursor.forward, .between⟩,
      (TokenKind.ofChar? c).map (⟨String.singleton c, s.cursor.position, ·⟩))
  | .whole start read, some c =>
    if c.isDigit then some (⟨s.cursor.forward, .whole start (c :: read)⟩, none)
    else if c = Token.decimalMark then some (⟨s.cursor.forward, .comma start read⟩, none)
    else some (⟨s.cursor, .between⟩, some (number start read))
  | .whole start read, none => some (⟨s.cursor, .between⟩, some (number start read))
  | .comma start read, some c =>
    if c.isDigit then
      some (⟨s.cursor.forward, .fraction start (c :: Token.decimalMark :: read)⟩, none)
    else some (⟨s.cursor.back, .between⟩, some (number start read))
  | .comma start read, none => some (⟨s.cursor.back, .between⟩, some (number start read))
  | .fraction start read, some c =>
    if c.isDigit then some (⟨s.cursor.forward, .fraction start (c :: read)⟩, none)
    else some (⟨s.cursor, .between⟩, some (number start read))
  | .fraction start read, none => some (⟨s.cursor, .between⟩, some (number start read))

/-- The work left: four for each character ahead, and what the mode may still give back. -/
def work (s : Scanner) : Nat :=
  4 * (s.cursor.items.size - s.cursor.position).toNat + match s.mode with
    | .between => 0
    | .whole .. => 2
    | .comma .. => 5
    | .fraction .. => 2

theorem work_lt_of_step {s s' : Scanner} {t : Option Token} (h : s.step = some (s', t)) :
    s'.work < s.work := by
  obtain ⟨c, m⟩ := s
  cases hc : c.current with
  | none =>
    cases m <;> simp [step, hc] at h <;> obtain ⟨rfl, rfl⟩ := h <;>
      simp only [work, Cursor.back] <;> omega
  | some a =>
    have hp := Cursor.position_lt_of_current hc
    cases m <;> simp only [step, hc] at h <;> (repeat' split at h) <;>
      simp only [Option.some.injEq, Prod.mk.injEq] at h <;> obtain ⟨rfl, rfl⟩ := h <;>
      simp only [work, Cursor.forward, Cursor.back] <;> omega

/-- The tokens completed from here on. -/
def run (s : Scanner) : List Token :=
  match _h : s.step with
  | none => []
  | some (s', none) => run s'
  | some (s', some t) => t :: run s'
termination_by s.work
decreasing_by all_goals exact work_lt_of_step _h

end Scanner

/-- The tokens of a source. -/
def Token.scan (source : String) : List Token := (Scanner.start source).run

end DecimalComma
