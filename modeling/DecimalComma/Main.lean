import DecimalComma.Command.Run
import DecimalComma.Release

/-! The program: arguments and environment in, two streams and an exit code out. -/
open DecimalComma

/-- The variables that settings are read from, as far as they are set. -/
def readEnvironment : IO Environment :=
  [Settings.levelVariable, Settings.caretVariable].filterMapM fun name => do
    return (← IO.getEnv name).map (name, ·)

/-- The machine is not looked at. -/
def unnamedHost : Command.Host := ⟨"*", "*"⟩

def main (args : List String) : IO UInt32 := do
  let outcome := Command.run Release.current unnamedHost (← readEnvironment) args
  IO.print outcome.stdout
  IO.eprint outcome.stderr
  if let .unconfigured e := outcome then IO.eprintln e.message
  return outcome.exit.toUInt32
