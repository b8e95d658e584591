/-
  ServedChain — the probe of one host: a connection whose bytes go through a tap,
  and an inspector that is shown the certificates as served.

  A probe ends with the first event that ends the connection or the wait for it.
  Its verdict is what the inspector said by then.  An inspector that fails has
  nothing to say.

  * `Inspector.ofPolicy` audits the chain;
  * `Probe.handle` takes in one event, `Probe.run` a list of them.
-/
import ServedChain.Log.Notice
import ServedChain.Tls.KeyLog
import ServedChain.Tls.Tap

namespace ServedChain

/-! ## Inspectors -/

/-- Someone who gives a verdict on the certificates of a host, or fails, and may have something
    to log. -/
abbrev Inspector := (records : List Bytes) → (host : String) → Except String Verdict × List Notice

namespace Inspector

/-- The inspector that audits chains. -/
def ofPolicy (policy : AuditPolicy) : Inspector := fun records host =>
  let chain := Chain.ofBytes records
  (.ok (chain.audit policy), (chain.auditTraces policy).map (.chainAudited host))

/-- The verdict that counts, and what is logged. -/
def counted (inspector : Inspector) (records : List Bytes) (host : String) :
    Verdict × List Notice :=
  match inspector records host with
  | (.ok verdict, notices) => (verdict, notices)
  | (.error error, notices) => (.noIssue, notices ++ [.inspectionFailed error host])

end Inspector

/-! ## Events -/

/-- What can happen during a probe. -/
inductive ProbeEvent where
  | chunk (bytes : Bytes)
  | keyLogLine (line : String)
  /-- The handshake is complete -/
  | secured
  /-- The connection failed below TLS -/
  | connectionError
  | tlsError
  | closed
  | timeout
  deriving DecidableEq, Repr

/-- Whether an event ends a probe. -/
def ProbeEvent.isFinal : ProbeEvent → Bool
  | chunk _ | keyLogLine _ => false
  | secured | connectionError | tlsError | closed | timeout => true

structure Probe where
  tap : Tls.Tap
  /-- The verdict of the inspector, so far none -/
  verdict : Verdict
  /-- The certificates that the inspector was shown -/
  inspected : List (List Bytes)
  /-- The verdict of the probe, once it has ended -/
  result : Option Verdict
  notices : List Notice
  deriving DecidableEq, Repr

namespace Probe

/-- A probe before its first event. -/
def initial : Probe where
  tap := .initial
  verdict := .noIssue
  inspected := []
  result := none
  notices := []

/-- A report of the tap taken in. -/
def hear (inspector : Inspector) (host : String) (probe : Probe) : Tls.Report → Probe
  | .failure _ => probe
  | .certificates records =>
    let (verdict, notices) := inspector.counted records host
    { probe with
      verdict
      inspected := probe.inspected ++ [records]
      notices := probe.notices ++ notices }

/-- The next state of the tap, with its new reports taken in. -/
def setTap (inspector : Inspector) (host : String) (probe : Probe) (tap : Tls.Tap) : Probe :=
  (tap.reports.drop probe.tap.reports.length).foldl (hear inspector host) { probe with tap }

/-- The probe ended, if it has not. -/
def finish (probe : Probe) : Probe :=
  match probe.result with
  | some _ => probe
  | none => { probe with result := some probe.verdict }

def handle (inspector : Inspector) (host : String) (probe : Probe) : ProbeEvent → Probe
  | .chunk bytes => probe.setTap inspector host (probe.tap.push bytes)
  | .keyLogLine line =>
    match Tls.KeyLog.secret? Tls.KeyLog.serverHandshakeLabel line with
    | none => probe
    | some secret => probe.setTap inspector host (probe.tap.supplySecret secret)
  | .secured | .connectionError | .tlsError | .closed | .timeout => probe.finish

def run (inspector : Inspector) (host : String) (events : List ProbeEvent) : Probe :=
  events.foldl (handle inspector host) initial

end Probe

end ServedChain
