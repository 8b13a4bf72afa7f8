import DecimalComma.Text.Quoted

/-! Command lines: switches, which may stand anywhere before `--`, and positionals. A dash also
begins a negative expression, so what is no switch is a positional and never an error. -/
namespace DecimalComma.Command

inductive Switch where
  | ast
  | tokens
  | caret (on : Bool)
  | verbose
  | version
  | help
deriving DecidableEq, Repr

namespace Switch

/-- The switches by their names. -/
def names : List (String × Switch) :=
  [("--ast", ast), ("--tokens", tokens), ("--caret", caret true), ("--no-caret", caret false),
    ("--verbose", verbose), ("--version", version), ("--help", help)]

/-- What a switch is for. -/
def summary : Switch → String
  | ast => "Print the parsed tree as JSON"
  | tokens => "Print the token stream"
  | caret _ => "Draw a caret under error positions (default: COMMACALC_CARET or on)"
  | verbose => "Enable debug logging"
  | version => "Show version and exit"
  | help => "Show this message and exit."

end Switch

/-- Why a command line cannot be run. -/
inductive UsageError where
  | unexpectedValue (switch : String)
  | extraArguments (extra : List String)
deriving DecidableEq, Repr

/-- The message alone; the hint at the usage and the frame around both are left out. -/
def UsageError.message : UsageError → String
  | unexpectedValue s => s!"Option {Text.quoted s} does not take a value."
  | extraArguments extra =>
    let noun := if extra.length = 1 then "argument" else "arguments"
    let listed := " ".intercalate extra
    s!"Got unexpected extra {noun} ({listed})"

/-- A command line, read: its switches and its positionals, each in order. -/
structure Arguments where
  switches : List Switch := []
  positionals : List String := []
deriving DecidableEq, Repr

namespace Arguments

def append (a b : Arguments) : Arguments :=
  ⟨a.switches ++ b.switches, a.positionals ++ b.positionals⟩

/-- The letters behind a single dash: every `v` is a switch, the others are left as a positional. -/
def ofLetters (letters : List Char) : Arguments where
  switches := List.replicate (letters.count 'v') .verbose
  positionals :=
    let others := letters.filter (· ≠ 'v')
    if others.isEmpty then [] else [String.ofList ('-' :: others)]

/-- One argument before any `--`. Switches take no value, not even an empty one. -/
def ofArgument (arg : String) : Except UsageError Arguments :=
  let (name, value) := arg.toList.span (· ≠ '=')
  match Switch.names.lookup (String.ofList name), arg.toList with
  | some s, _ =>
    if value.isEmpty then .ok ⟨[s], []⟩ else .error (.unexpectedValue (String.ofList name))
  | none, '-' :: c :: cs => .ok (if c = '-' then ⟨[], [arg]⟩ else ofLetters (c :: cs))
  | none, _ => .ok ⟨[], [arg]⟩

/-- A whole command line; behind `--` everything is a positional. -/
def ofList : List String → Except UsageError Arguments
  | [] => .ok {}
  | arg :: args =>
    if arg = "--" then .ok ⟨[], args⟩
    else do
      let a ← ofArgument arg
      let b ← ofList args
      return a.append b

end DecimalComma.Command.Arguments
