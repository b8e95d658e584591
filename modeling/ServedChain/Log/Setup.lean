/-
  ServedChain — which lines are logged, and how.

  `LOG_LEVEL` names the least important level that is logged, or `silent`; in
  production and in tests lines are written as they are, and else they are passed
  on to be made legible.
-/
import ServedChain.Log.Line
import ServedChain.Settings.Environment
import ServedChain.Text.LowerCase

namespace ServedChain.Log

/-- The least important level that is logged, if any is. -/
abbrev Threshold := Option Level

namespace Threshold

def name : Threshold → String
  | some level => level.name
  | none => "silent"

def ofName? (text : String) : Option Threshold :=
  ((none : Threshold) :: Level.all.map some).find? fun threshold => name threshold == text

def admits (threshold : Threshold) (level : Level) : Bool :=
  threshold.any fun least => least.rank ≤ level.rank

end Threshold

/-- Where lines are passed on to be made legible. -/
structure Transport where
  target : String
  colorize : Bool
  /-- The form of the time -/
  translateTime : String
  /-- The fields that are left out -/
  ignore : String
  singleLine : Bool
  /-- The number of the stream -/
  destination : Nat
  deriving DecidableEq, Repr

structure Setup where
  threshold : Threshold
  transport : Option Transport
  deriving DecidableEq, Repr

namespace Setup

/-- How lines are made legible during development, on the stream of errors. -/
def development : Transport where
  target := "pino-pretty"
  colorize := true
  translateTime := "HH:MM:ss.l"
  ignore := "pid,hostname"
  singleLine := false
  destination := 2

/-- The setup of an environment, or the text of an error. -/
def ofEnvironment (env : Environment) : Except String Setup :=
  let name := Text.lowerCase (env.text "LOG_LEVEL" "info")
  match Threshold.ofName? name with
  | none => .error ("default level:" ++ name ++ " must be included in custom levels")
  | some threshold =>
    let plain := env.lookup "NODE_ENV" = some "production" ∨ env.lookup "NODE_ENV" = some "test"
    .ok ⟨threshold, if plain then none else some development⟩

def filter (setup : Setup) (lines : List Line) : List Line :=
  lines.filter fun line => setup.threshold.admits line.level

end Setup

/-- The fields that a module puts on each of its lines. -/
def bindings (module : String) : List (String × String) :=
  [("service", service), ("module", module)]

end ServedChain.Log
