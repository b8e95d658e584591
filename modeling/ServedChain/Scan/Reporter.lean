/-
  ServedChain — those who are told the findings of a scan, and the text that they
  make of them.
-/
import ServedChain.Chain.Audit

namespace ServedChain

/-- A finding: the verdict and the host it is about. -/
abbrev Finding := Verdict × String

/-- The numbers at the end of a scan. -/
structure Summary where
  /-- Hosts probed -/
  probed : Nat
  /-- Verdicts that were not empty -/
  findings : Nat
  deriving DecidableEq, Repr

/-! ## Failures -/

/-- What is thrown: an error or another value, or one of the two that stand for no value. -/
inductive Thrown where
  | undefined
  | null
  | value (kind text : String)
  deriving DecidableEq, Repr

/-- An error that is nothing but its message. -/
instance : Coe String Thrown := ⟨.value "Error"⟩

namespace Thrown

def kind : Thrown → String
  | undefined => "undefined"
  | null => "null"
  | value kind _ => kind

def text : Thrown → String
  | undefined => "undefined"
  | null => "null"
  | value _ text => text

/-- What is kept of what was thrown so far once more is thrown: a value stays, and what stands for
    none gives way. -/
def keep : (kept next : Thrown) → Thrown
  | undefined, next | null, next => next
  | value kind text, _ => value kind text

end Thrown

/-! ## Reporters -/

/-- Someone who is told findings, in the respect that matters to a scan: when it fails. -/
structure Reporter where
  /-- What is thrown at a finding, by the number of the finding -/
  findingError : Nat → Option Thrown
  /-- What is thrown at the end -/
  doneError : Option Thrown

namespace Reporter

inductive Call where
  | finding (finding : Finding)
  | done (summary : Summary)
  deriving DecidableEq, Repr

/-- The finding that a reporter is told. -/
def Call.finding? : Call → Option Finding
  | finding f => some f
  | done _ => none

/-- The summary that a reporter is told. -/
def Call.summary? : Call → Option Summary
  | finding _ => none
  | done summary => some summary

/-- A reporter that never fails. -/
def reliable : Reporter := ⟨fun _ => none, none⟩

def findingText (verdict : Verdict) : String := verdict ++ "\n"

def doneText : String := "Done\n"

/-- The texts for what a reporter is told, without the calls at which it fails. -/
def texts (reporter : Reporter) (told : List Call) : List String :=
  let findings := (told.filterMap Call.finding?).zipIdx.filter fun (_, number) =>
    (reporter.findingError number).isNone
  let ends := (told.filterMap Call.summary?).filter fun _ => reporter.doneError.isNone
  findings.map (fun ((verdict, _), _) => findingText verdict) ++ ends.map fun _ => doneText

end Reporter

end ServedChain
