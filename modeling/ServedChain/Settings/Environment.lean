/-
  ServedChain — settings from the environment.

  A variable that is not set, or set to the empty text, leaves the default.

  * `Environment.text`, `flag` and `number` read one variable;
  * `Settings.ofEnvironment` reads all settings.
-/
import ServedChain.Number.Leading

namespace ServedChain

/-- The variables that are set, each with its value. -/
abbrev Environment := List (String × String)

namespace Environment

/-- The value of a variable, if it is set and not empty. -/
def value? (env : Environment) (name : String) : Option String :=
  (env.lookup name).filter (· ≠ "")

def text (env : Environment) (name default : String) : String :=
  (env.value? name).getD default

/-- Whether a value means yes. -/
def isYes (value : String) : Bool := value.toLower == "true" || value == "1"

def flag (env : Environment) (name : String) (default : Bool) : Bool :=
  ((env.value? name).map isYes).getD default

/-- The number that a value starts with. -/
def number? (value : String) : Option Binary64 := (leadingInt? value.toList).map Binary64.ofInt

/-- A number; a value that does not start with one leaves the default, too. -/
def number (env : Environment) (name : String) (default : Binary64) : Binary64 :=
  ((env.value? name).bind number?).getD default

/-- The environment with further variables; what is set already, even to the empty text, stays. -/
def extend (env : Environment) (more : Environment) : Environment :=
  env ++ more.filter fun (name, _) => (env.lookup name).isNone

end Environment

/-- The settings of the program that the environment holds. -/
structure Settings where
  /-- The common name of the intermediate that leaves are checked for -/
  target : String
  /-- Log every chain that is audited -/
  debug : Bool
  /-- How many probes run at a time -/
  workers : Binary64
  /-- Milliseconds for a probe -/
  timeoutMs : Binary64
  port : Binary64
  deriving DecidableEq, Repr

namespace Settings

/-- The settings of an empty environment. -/
def default : Settings where
  target := "R3"
  debug := false
  workers := .ofNat 10
  timeoutMs := .ofNat 1000
  port := .ofNat 443

def ofEnvironment (env : Environment) : Settings where
  target := env.text "AUDIT_TARGET_CN" default.target
  debug := env.flag "AUDIT_DEBUG" default.debug
  workers := env.number "PROBE_WORKERS" default.workers
  timeoutMs := env.number "PROBE_TIMEOUT_MS" default.timeoutMs
  port := env.number "PROBE_PORT" default.port

end Settings

end ServedChain
