import DecimalComma.Log
import DecimalComma.Text.Blank
import DecimalComma.Text.Letter

/-! Settings from the environment: the threshold of the log, and whether diagnostics draw a caret.
-/
namespace DecimalComma

structure Settings where
  level : LogLevel := .warning
  caret : Bool := true
deriving DecidableEq, Repr

/-- The environment, as names with values. -/
abbrev Environment := List (String × String)

namespace Settings

/-- A name of a level that is none. -/
structure UnknownLevel where
  raw : String
deriving DecidableEq, Repr

def UnknownLevel.message (e : UnknownLevel) : String :=
  s!"Value error, Unknown log level: {Text.quoted e.raw}"

/-- The level of a name, whatever its case and the blanks around it. -/
def readLevel (raw : String) : Except UnknownLevel LogLevel :=
  let name := Text.upper (Text.strip Text.isBlank raw.toList)
  match LogLevel.all.find? (·.name.toList = name) with
  | some l => .ok l
  | none => .error ⟨raw⟩

/-- The words for off. -/
def offWords : List String := ["0", "false", "no", "off"]

/-- Every text but a word for off means on. -/
def readCaret (raw : String) : Bool :=
  String.ofList (Text.lower (Text.strip Text.isBlank raw.toList)) ∉ offWords

def levelVariable : String := "COMMACALC_LOG_LEVEL"

def caretVariable : String := "COMMACALC_CARET"

/-- The settings of an environment; a variable that is not set leaves the default. -/
def load (env : Environment) : Except UnknownLevel Settings := do
  let level ← readLevel ((env.lookup levelVariable).getD LogLevel.warning.name)
  return ⟨level, readCaret ((env.lookup caretVariable).getD "1")⟩

end DecimalComma.Settings
