import DecimalComma.Diagnostic
import DecimalComma.Token.Scanner

/-! Parsing sessions: a cursor over tokens on which the rules of the grammar are called one at a
time. A rule that succeeds leaves the cursor behind what it read, one that fails on the offending
token. -/
namespace DecimalComma

abbrev Session := Cursor Token

namespace Session

def start (tokens : List Token) : Session := ⟨tokens.toArray, 0⟩

/-- The error and the session that a failure leaves. -/
def fail (s : Session) (f : Grammar.Failure) : SyntaxError × Session :=
  (.ofFailure s.last f, s.moveTo f.rest)

/-- Reads an expression of a level. -/
def read (s : Session) (l : Grammar.Level) : Except SyntaxError Expr × Session :=
  match Grammar.parse l s.rest with
  | .ok p => (.ok p.expr, s.moveTo p.rest)
  | .error f => let (e, s') := s.fail f; (.error e, s')

/-- Reads a closing parenthesis. -/
def close (s : Session) : Except SyntaxError Unit × Session :=
  match Grammar.takeClosing s.rest with
  | .ok rest => (.ok (), s.moveTo rest)
  | .error f => let (e, s') := s.fail f; (.error e, s')

/-- Reads an operation of a level, if the cursor is on one. -/
def match? (s : Session) (l : Grammar.Level) : Option Operation × Session :=
  match Grammar.takeOperation l s.rest with
  | none => (none, s)
  | some (op, rest) => (some op, s.moveTo rest)

/-- The calls of a session. -/
inductive Call where
  | read (l : Grammar.Level)
  | close
  | match? (l : Grammar.Level)
  | forward
  | back

/-- The answers to them. -/
inductive Answer where
  | expr (e : Expr)
  | matched (op : Option Operation)
  | done
  | failed (e : SyntaxError)

def call (s : Session) : Call → Answer × Session
  | .read l => match s.read l with
    | (.ok e, s') => (.expr e, s')
    | (.error e, s') => (.failed e, s')
  | .close => match s.close with
    | (.ok (), s') => (.done, s')
    | (.error e, s') => (.failed e, s')
  | .match? l => let (op, s') := s.match? l; (.matched op, s')
  | .forward => (.done, s.forward)
  | .back => (.done, s.back)

/-- The answer to each call, with the session after it. -/
def run (s : Session) : List Call → List (Answer × Session)
  | [] => []
  | c :: cs => let r := s.call c; r :: run r.2 cs

end DecimalComma.Session
