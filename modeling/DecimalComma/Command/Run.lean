import DecimalComma.Calculation
import DecimalComma.Command.Arguments
import DecimalComma.Expr.Document
import DecimalComma.Expr.Text
import DecimalComma.Settings
import DecimalComma.Text.Control

/-! Runs of the command line: what is printed about a source, and how a run ends. -/
namespace DecimalComma.Command

/-- What to print about a source; its value if nothing is chosen. -/
structure Mode where
  tokens : Bool
  ast : Bool

/-- A stage of a run: its reports, its lines, and the error that ends the run. -/
structure Stage where
  reports : List Report := []
  lines : List String := []
  error : Option SyntaxError := none

namespace Stage

/-- The stage that prints a result. -/
def print {α : Type} (render : α → String) (x : Logged (Except SyntaxError α)) : Stage :=
  match x.result with
  | .ok a => ⟨x.reports, [render a], none⟩
  | .error e => ⟨x.reports, [], some e⟩

/-- One stage after another, unless the first ends the run. -/
def andThen (a b : Stage) : Stage :=
  if a.error.isSome then a else ⟨a.reports ++ b.reports, a.lines ++ b.lines, b.error⟩

def tokens (source : String) : Stage :=
  let ts := Calculation.tokens source
  ⟨ts.reports, ts.result.map (·.text), none⟩

def ast (source : String) : Stage := print (Expr.dump (some 2)) (Calculation.expression source)

def value (source : String) : Stage := print Layout.result.render (Calculation.value source)

def ofMode (m : Mode) (source : String) : Stage :=
  match m.tokens, m.ast with
  | false, false => value source
  | true, false => tokens source
  | false, true => ast source
  | true, true => (tokens source).andThen (ast source)

end Stage

/-- What a finished run prints, line by line, on its two streams. -/
structure Output where
  exit : Nat
  out : List String
  err : List String

/-- How a run ends. -/
inductive Outcome where
  | usage (e : UsageError)
  | unconfigured (e : Settings.UnknownLevel)
  | finished (o : Output)

namespace Outcome

def exit : Outcome → Nat
  | usage _ => 2
  | unconfigured _ => 1
  | finished o => o.exit

/-- Lines as a text, each with its end. -/
def joinLines (lines : List String) : String := String.join (lines.map (· ++ "\n"))

def stdout : Outcome → String
  | finished o => joinLines o.out
  | _ => ""

/-- What the run itself prints to the error stream. The error of settings that cannot be read is
raised and not printed. -/
def stderr : Outcome → String
  | usage e => joinLines [e.message]
  | unconfigured _ => ""
  | finished o => joinLines o.err

end Outcome

/-- The lines of the reports that the threshold admits. -/
def logLines (threshold : LogLevel) (reports : List Report) : List String :=
  (reports.filter (threshold.admits ·.level)).map (·.line)

/-- The output about a source. An error adds the snippet to the lines and its message to the log. The
snippet is freed of control sequences once the caret is placed, so the caret counts them. -/
def execute (s : Settings) (m : Mode) (source : String) : Output :=
  let stage := Stage.ofMode m source
  match stage.error with
  | none => ⟨0, stage.lines, logLines s.level stage.reports⟩
  | some e =>
    let snippet := if s.caret then Snippet.ofMessage source e.message else ⟨source, none⟩
    let shown := String.ofList (Text.dropControls snippet.text.toList)
    ⟨1, stage.lines ++ [shown],
      logLines s.level (stage.reports ++ [.rejected source e.message]) ++ [e.message]⟩

/-- The machine that a run reports to be on. -/
structure Host where
  interpreter : String
  platform : String

def versionLines (version : String) (host : Host) : List String :=
  [s!"commacalc version {version}", s!"  Python:    {host.interpreter}",
    s!"  Platform:  {host.platform}"]

/-- What the program does and what its arguments are for. How they are laid out on a screen is left
out. -/
def helpLines : List String :=
  "Evaluate SOURCE and print the result." ::
    "SOURCE: Expression to evaluate, e.g. '1,1+2*3,5'" ::
    Switch.names.map fun (name, s) => s!"{name}: {s.summary}"

/-- The page that a switch asks for in place of a result. -/
def Switch.page? (version : String) (host : Host) : Switch → Option (List String)
  | .version => some (versionLines version host)
  | .help => some helpLines
  | _ => none

def noInputMessage : String := "No input specified!"

/-- The last of the switches that turn the caret on or off. -/
def lastCaret? (switches : List Switch) : Option Bool :=
  (switches.filterMap fun
    | .caret on => some on
    | _ => none).getLast?

/-- The settings with what the switches override. -/
def override (s : Settings) (switches : List Switch) : Settings where
  level := if .verbose ∈ switches then .debug else s.level
  caret := (lastCaret? switches).getD s.caret

/-- A run. The first page that is asked for is shown before anything but the form of the switches is
looked at, and the settings are read before the source. -/
def run (version : String) (host : Host) (env : Environment) (args : List String) : Outcome :=
  match Arguments.ofList args with
  | .error e => .usage e
  | .ok a =>
    match a.switches.findSome? (Switch.page? version host) with
    | some page => .finished ⟨0, page, []⟩
    | none =>
      if 1 < a.positionals.length then .usage (.extraArguments a.positionals.tail)
      else match Settings.load env with
        | .error e => .unconfigured e
        | .ok s =>
          let source := a.positionals.head?.getD ""
          if source = "" then .finished ⟨1, [], [noInputMessage]⟩
          else .finished <|
            execute (override s a.switches) ⟨.tokens ∈ a.switches, .ast ∈ a.switches⟩ source

end DecimalComma.Command
