/-
  ServedChain — lines of a log: a level, the module that speaks, further fields
  and a message, written as JSON.
-/
import ServedChain.Text.Quoted

namespace ServedChain.Log

inductive Level where
  | trace
  | debug
  | info
  | warn
  | error
  | fatal
  deriving DecidableEq, Repr

namespace Level

def name : Level → String
  | trace => "trace"
  | debug => "debug"
  | info => "info"
  | warn => "warn"
  | error => "error"
  | fatal => "fatal"

/-- The levels, the least important first. -/
def all : List Level := [trace, debug, info, warn, error, fatal]

def rank (level : Level) : Nat := all.idxOf level

end Level

inductive Value where
  | text (value : String)
  | count (value : Nat)
  | record (fields : List (String × Value))

structure Line where
  level : Level
  /-- The module that speaks, unless it is the program as a whole -/
  module : Option String
  fields : List (String × Value)
  message : String

/-- Fields as JSON, with braces around. -/
def braces (fields : List (String × String)) : String :=
  let written := fields.map fun (name, value) => Text.quote name ++ ":" ++ value
  String.ofList [Char.ofNat 0x7b] ++ ",".intercalate written ++ String.ofList [Char.ofNat 0x7d]

def Value.json : Value → String
  | text value => Text.quote value
  | count value => toString value
  | record fields => braces (fields.attach.map fun ⟨(name, value), h⟩ =>
    have : sizeOf value < sizeOf fields := by
      have := List.sizeOf_lt_of_mem h
      simp only [Prod.mk.sizeOf_spec] at this
      omega
    (name, value.json))

/-- The name that all lines carry. -/
def service : String := "chain-auditor"

def Line.json (line : Line) : String :=
  braces ([("level", Text.quote line.level.name), ("service", Text.quote service)]
    ++ line.module.toList.map (fun module => ("module", Text.quote module))
    ++ line.fields.map (fun (name, value) => (name, value.json))
    ++ [("msg", Text.quote line.message)])

end ServedChain.Log
