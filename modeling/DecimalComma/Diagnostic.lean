import DecimalComma.Grammar
import DecimalComma.Cursor
import DecimalComma.Text.Digit

/-! Errors and how they are shown: the causes with their messages, the kinds they belong to, and the
snippet of the source with a caret under the position that a message mentions. -/
namespace DecimalComma

/-- Why a source is no expression. -/
inductive SyntaxError where
  | operandExpected (found : Option Token)
  | unclosed (position : Int)

/-- The kinds of errors: general ones, malformed expressions, and two kinds of the latter. -/
inductive ErrorKind where
  | general
  | malformed
  | unexpectedToken
  | imbalanced
deriving DecidableEq, Repr

namespace ErrorKind

def all : List ErrorKind := [general, malformed, unexpectedToken, imbalanced]

/-- Whether every error of the first kind is one of the second. -/
def isA : ErrorKind → ErrorKind → Bool
  | _, general => true
  | k, malformed => k ≠ general
  | k, k' => k = k'

end ErrorKind

/-- An error as callers see it. -/
structure Diagnostic where
  kind : ErrorKind
  message : String
  position : Option Int

/-- A diagnostic of a given kind; general errors carry no position. -/
def Diagnostic.make (kind : ErrorKind) (message : String) (position : Option Int) : Diagnostic :=
  ⟨kind, message, if kind = .general then none else position⟩

namespace SyntaxError

def kind : SyntaxError → ErrorKind
  | operandExpected _ => .unexpectedToken
  | unclosed _ => .imbalanced

def message : SyntaxError → String
  | operandExpected none => "Expected <number> found <(empty)>."
  | operandExpected (some t) => s!"Expected <number> found <{t.text}>."
  | unclosed p => s!"Imbalanced brackets at position {toString p} detected!"

def position : SyntaxError → Option Int
  | operandExpected found => found.map (·.position)
  | unclosed p => some p

def diagnostic (e : SyntaxError) : Diagnostic := ⟨e.kind, e.message, e.position⟩

/-- The error for a failure of the grammar. An unclosed group is reported at the token that should
have closed it or, past the end, at the last token of all. -/
def ofFailure (last : Option Token) (f : Grammar.Failure) : SyntaxError :=
  match f.missing with
  | .operand => operandExpected f.rest.head?
  | .closing => unclosed (((f.rest.head?.or last).map (·.position)).getD 0)

end SyntaxError

/-- The words that announce a position in a message. -/
def positionLabel : List Char := "position ".toList

/-- The position that a text begins with: the label and a run of decimal digits. -/
def leadingPosition? (s : List Char) : Option Nat :=
  let ds := (s.drop positionLabel.length).takeWhile fun c => (Text.digitValue? c).isSome
  if positionLabel.isPrefixOf s && !ds.isEmpty then some (Text.readDigits ds) else none

/-- The first position that a text mentions. -/
def mentionedPosition? : List Char → Option Nat
  | [] => none
  | c :: cs => (leadingPosition? (c :: cs)).or (mentionedPosition? cs)

/-- A source with the column that an error points at, if one is known. -/
structure Snippet where
  source : String
  column : Option Int

namespace Snippet

/-- The snippet for an error's message. -/
def ofMessage (source message : String) : Snippet :=
  ⟨source, (mentionedPosition? message.toList).map Int.ofNat⟩

/-- The line with the caret; a negative column stands at the margin. -/
def marker (s : Snippet) : Option String :=
  s.column.map fun c => String.ofList (List.replicate c.toNat ' ' ++ ['^'])

def text (s : Snippet) : String :=
  match s.marker with
  | none => s.source
  | some m => s.source ++ "\n" ++ m

end DecimalComma.Snippet
