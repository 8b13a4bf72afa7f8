import DecimalComma.Decimal.Layout
import DecimalComma.Text.Quoted

/-! The log: what the stages report about their work, all of it at the level of debugging. -/
namespace DecimalComma

/-- The levels of the log by name. Two pairs are synonyms, and the last one sets no threshold. -/
inductive LogLevel where
  | critical
  | fatal
  | error
  | warn
  | warning
  | info
  | debug
  | notset
deriving DecidableEq, Repr

namespace LogLevel

def all : List LogLevel := [critical, fatal, error, warn, warning, info, debug, notset]

def name : LogLevel → String
  | critical => "CRITICAL"
  | fatal => "FATAL"
  | error => "ERROR"
  | warn => "WARN"
  | warning => "WARNING"
  | info => "INFO"
  | debug => "DEBUG"
  | notset => "NOTSET"

def severity : LogLevel → Nat
  | critical => 50
  | fatal => 50
  | error => 40
  | warn => 30
  | warning => 30
  | info => 20
  | debug => 10
  | notset => 0

/-- Whether reports of a level are shown under this threshold. -/
def admits (threshold level : LogLevel) : Bool := threshold.severity ≤ level.severity

end LogLevel

/-- A report of a stage. -/
inductive Report where
  | tokenized (characters tokens : Nat)
  | ignored (tokens : Nat)
  | evaluated (source : String) (value : Float)
  | rejected (source message : String)

namespace Report

def level (_ : Report) : LogLevel := .debug

/-- The name of the stage. -/
def origin : Report → String
  | tokenized .. => "commacalc.core.expression_lang.tokenizer"
  | ignored .. => "commacalc.core.expression_lang.parser"
  | evaluated .. => "commacalc.core.expression_lang.evaluator"
  | rejected .. => "commacalc.cli.calc"

def message : Report → String
  | tokenized c t => s!"Tokenized {toString c} characters into {toString t} tokens"
  | ignored t => s!"Ignoring {toString t} trailing token(s) after expression"
  | evaluated s x => s!"Evaluated {Text.quoted s} to {Layout.plain.render x}"
  | rejected s m => s!"Rejected {Text.quoted s}: {m}"

/-- A report as a line of the log, without the time that the log puts before it. -/
def line (r : Report) : String := s!"[{r.level.name}] {r.origin}: {r.message}"

end DecimalComma.Report
