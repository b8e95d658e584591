/-
  ServedChain — the options of a run, from the arguments and the settings of the
  environment.  An argument wins over the environment; numbers are checked
  wherever they come from.
-/
import ServedChain.CommandLine.Arguments
import ServedChain.InputError
import ServedChain.Number.Shortest
import ServedChain.Settings.Environment

namespace ServedChain.CommandLine

structure Options where
  hostnames : List String
  /-- The file with hosts, which is read instead of the arguments -/
  tsvFile : Option String
  help : Bool
  debug : Bool
  target : String
  workers : Nat
  timeoutMs : Nat
  port : Nat
  deriving DecidableEq, Repr

/-! ## Numbers -/

structure NumberOption where
  name : String
  /-- The variable that holds the number if there is no argument -/
  variableName : String
  greatest : Nat
  deriving DecidableEq, Repr

namespace NumberOption

/-- The greatest number up to which all integers are exact. -/
def greatestExact : Nat := (1 <<< 53) - 1

def workers : NumberOption := ⟨"workers", "PROBE_WORKERS", greatestExact⟩

def timeoutMs : NumberOption := ⟨"timeout-ms", "PROBE_TIMEOUT_MS", greatestExact⟩

def port : NumberOption := ⟨"port", "PROBE_PORT", 65535⟩

/-- The value of a number, if it is an integer in range. -/
def inRange? (option : NumberOption) (number : Binary64) : Option Nat :=
  match number.toInt? with
  | some (.ofNat n) => if 1 ≤ n ∧ n ≤ option.greatest then some n else none
  | _ => none

/-- The range of an option as text. -/
def range (option : NumberOption) : String := "between 1 and " ++ toString option.greatest

/-- The number that an argument holds. -/
def ofArgument (option : NumberOption) (value : String) : Except InputError Nat :=
  if value.isEmpty || !value.toList.all Char.isDigit then
    .error (.badOption option.name "Expected a positive integer" (some value))
  else match option.inRange? (.ofNat (digitsValue value.toList)) with
    | some n => .ok n
    | none =>
      .error (.badOption option.name ("Expected an integer " ++ option.range) (some value))

/-- The number that the environment holds. -/
def ofSetting (option : NumberOption) (number : Binary64) : Except InputError Nat :=
  match option.inRange? number with
  | some n => .ok n
  | none =>
    .error (.badOption option.name
      (option.variableName ++ " must be an integer " ++ option.range) (some number.toText))

/-- The number of an argument, if there is one, and else that of the environment. -/
def resolve (option : NumberOption) (argument : Option String) (setting : Binary64) :
    Except InputError Nat :=
  match argument with
  | some value => option.ofArgument value
  | none => option.ofSetting setting

end NumberOption

/-! ## Options -/

namespace Options

/-- The options of some arguments under some settings, or what is wrong first. -/
def parse (arguments : List String) (settings : Settings) : Except InputError Options := do
  let given ← match Arguments.parse arguments with
    | .ok given => .ok given
    | .error error => .error (.badOption "arguments" error.message none)
  let workers ← NumberOption.workers.resolve given.workers settings.workers
  let timeoutMs ← NumberOption.timeoutMs.resolve given.timeoutMs settings.timeoutMs
  let port ← NumberOption.port.resolve given.port settings.port
  return {
    hostnames := given.positionals
    tsvFile := given.tsvFile.filter (· ≠ "")
    help := given.help
    debug := given.debug || settings.debug
    target := given.target.getD settings.target
    workers
    timeoutMs
    port }

end Options

end ServedChain.CommandLine
