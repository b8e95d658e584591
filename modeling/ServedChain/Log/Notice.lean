/-
  ServedChain — what the program has to say in its log.
-/
import ServedChain.InputError
import ServedChain.Log.Line
import ServedChain.Scan.Reporter

namespace ServedChain

inductive Notice where
  /-- A scan starts, with so many hosts and workers -/
  | scanStarted (hosts workers : Nat)
  /-- A probe failed in a way that probes should not -/
  | probeFailed (error host : String)
  | scanComplete (summary : Summary)
  | chainAudited (host : String) (chain : String)
  | inspectionFailed (error host : String)
  | inputRejected (error : InputError)
  /-- The program ends early -/
  | aborted (kind error : String)
  deriving DecidableEq, Repr

namespace Notice

open Log (Value)

/-- An error as the value of a field. -/
def errorValue (kind message : String) : Value :=
  .record [("type", .text kind), ("message", .text message)]

def line : Notice → Log.Line
  | scanStarted hosts workers =>
    ⟨.info, some "auditHostnames", [("hostnames", .count hosts), ("workerCount", .count workers)],
      "Starting audit"⟩
  | probeFailed error host =>
    ⟨.warn, some "auditHostnames", [("err", errorValue "Error" error), ("hostname", .text host)],
      "Probe threw, treating as no finding"⟩
  | scanComplete summary =>
    ⟨.info, some "auditHostnames",
      [("probed", .count summary.probed), ("findings", .count summary.findings)],
      "Audit complete"⟩
  | chainAudited host chain =>
    ⟨.info, some "tlsProber", [("hostname", .text host), ("chain", .text chain)],
      "Audited chain"⟩
  | inspectionFailed error host =>
    ⟨.warn, some "tlsProber", [("err", errorValue "Error" error), ("hostname", .text host)],
      "Chain inspector failed"⟩
  | inputRejected error =>
    ⟨.debug, some "cli",
      ("code", .text error.code) :: error.details?.toList.map fun details =>
        ("details", .record (details.map fun (name, value) => (name, .text value))),
      "Rejected input"⟩
  | aborted kind error => ⟨.fatal, none, [("err", errorValue kind error)], "Audit aborted"⟩

end Notice

end ServedChain
