/-
  ServedChain — a scan of a list of hosts, and those who take part in it.

  A producer sends the hosts over one channel to the workers.  Each worker probes
  one host after another and sends what came out over a second channel, which
  buffers nothing, to the collector.  The collector passes findings on to the
  reporter at once.

  Whoever waited and was answered goes on in a job.  Jobs wait in one queue, first
  in, first out; some let others pass a number of rounds before they run.

  * `Scan` is the state: two channels, the queue, and what was seen so far;
  * `Scan.prepare` checks the number of workers and starts everybody.
-/
import ServedChain.Channel.Basic
import ServedChain.Log.Notice

namespace ServedChain

/-! ## Probes -/

inductive Outcome where
  | verdict (verdict : Verdict)
  /-- With an error, later -/
  | rejected (error : String)
  /-- With an error, as soon as it starts -/
  | thrown (error : String)
  deriving DecidableEq, Repr

namespace Outcome

/-- The verdict that counts; an error is no finding. -/
def counted : Outcome → Verdict
  | verdict v => v
  | rejected _ | thrown _ => .noIssue

def error? : Outcome → Option String
  | verdict _ => none
  | rejected error | thrown error => some error

/-- What is logged about a probe of a host. -/
def notices (outcome : Outcome) (host : String) : List Notice :=
  outcome.error?.toList.map fun error => .probeFailed error host

end Outcome

/-- What probes come to, by the number of the probe and its host. -/
abbrev Prober := (number : Nat) → (host : String) → Outcome

/-- A probe, with the worker that waits for it. -/
structure Probing where
  number : Nat
  worker : Nat
  host : String
  deriving DecidableEq, Repr

/-! ## Errors -/

inductive ScanError where
  | invalidWorkers (workers : Binary64)
  /-- More workers than a list has places -/
  | tooManyWorkers
  | reporterFailed (thrown : Thrown)
  /-- Somebody used a channel that was closed -/
  | channelClosed
  deriving DecidableEq, Repr

namespace ScanError

def kind : ScanError → String
  | tooManyWorkers => "RangeError"
  | invalidWorkers _ => "Error"
  | reporterFailed thrown => thrown.kind
  | channelClosed => "AuditorError"

def message : ScanError → String
  | invalidWorkers workers =>
    "worker count must be a positive integer (got " ++ workers.toText ++ ")"
  | tooManyWorkers => "Invalid array length"
  | reporterFailed thrown => thrown.text
  | channelClosed => Channel.closedMessage

end ScanError

/-! ## Jobs -/

namespace Scan

/-- What someone does who waited and was answered. -/
inductive Job where
  /-- The producer, whose host was taken over -/
  | produce
  /-- A worker that received a host -/
  | probe (worker : Nat) (host : String)
  /-- A worker for which there is no further host -/
  | leave
  /-- A worker whose probe has ended -/
  | forward (worker : Nat) (host : String) (outcome : Outcome)
  /-- A worker whose result was taken over -/
  | ask (worker : Nat)
  /-- The collector, which received a result -/
  | collect (result : Finding)
  /-- The collector, for which there is no further result -/
  | stop
  /-- The scan hears that the producer or a worker has returned -/
  | returned
  /-- All of them have returned -/
  | close
  /-- The collector has returned -/
  | conclude
  /-- Somebody used a channel that was closed -/
  | abort
  deriving DecidableEq, Repr

/-- How many rounds a job lets others pass.  A value that a worker or the collector receives
    goes through two more hands than other answers do, and the end of a channel through one. -/
def Job.delay : Job → Nat
  | probe .. | collect .. | abort => 2
  | leave | stop => 1
  | produce | forward .. | ask _ | returned | close | conclude => 0

end Scan

/-! ## State -/

structure Scan where
  /-- From the producer to the workers -/
  work : Channel String
  /-- From the workers to the collector: a verdict, also if it is empty, and its host -/
  results : Channel Finding
  /-- Hosts that the producer has not sent -/
  unsent : List String
  /-- The jobs that wait, each with the rounds that it still lets pass -/
  jobs : List (Nat × Scan.Job)
  /-- Those, among the producer and the workers, of whom the scan has not heard that they
      returned -/
  active : Nat
  /-- Hosts whose probes have started, by the numbers of the probes -/
  probes : List String
  /-- The probes that have not ended -/
  running : List Probing
  /-- The probes that have ended, in the order in which they did, and how -/
  endings : List (Probing × Outcome)
  /-- What the collector has counted -/
  summary : Summary
  /-- What the reporter was told -/
  told : List Reporter.Call
  /-- What is kept of what the reporter threw at findings; `undefined` if it threw nothing -/
  failure : Thrown
  /-- What the scan came to, once it has ended -/
  result : Option (Except ScanError Summary)
  notices : List Notice

namespace Scan

/-- The findings passed on so far. -/
def findings (scan : Scan) : List Finding := scan.told.filterMap Reporter.Call.finding?

def ended (scan : Scan) : Bool := scan.result.isSome

/-- A job put into the queue. -/
def enqueue (scan : Scan) (job : Job) : Scan :=
  { scan with jobs := scan.jobs ++ [(job.delay, job)] }

/-! ## Answers of the channels -/

/-- The job of someone who is answered by the channel of hosts. -/
def workJob : Nat × Channel.Answer String → Job
  | (_, .sent) => .produce
  | (worker, .received host) => .probe worker host
  | (_, .finished) => .leave
  | (_, .refused) => .abort

/-- The job of someone who is answered by the channel of results. -/
def resultJob : Nat × Channel.Answer Finding → Job
  | (worker, .sent) => .ask worker
  | (_, .received result) => .collect result
  | (_, .finished) => .stop
  | (_, .refused) => .abort

/-- The next state of the channel of hosts, with the jobs of those who were answered. -/
def setWork (scan : Scan) (next : Channel String × List (Nat × Channel.Answer String)) : Scan :=
  (next.2.map workJob).foldl enqueue { scan with work := next.1 }

/-- The next state of the channel of results, with the jobs of those who were answered. -/
def setResults (scan : Scan) (next : Channel Finding × List (Nat × Channel.Answer Finding)) :
    Scan :=
  (next.2.map resultJob).foldl enqueue { scan with results := next.1 }

/-! ## Those who take part -/

/-- The number by which the channels know the producer, and the collector. -/
def single : Nat := 0

/-- The producer sends the next host; after the last one it closes the channel and returns. -/
def produce (scan : Scan) : Scan :=
  match scan.unsent with
  | host :: unsent => { scan with unsent }.setWork (scan.work.send single host)
  | [] =>
    match scan.work.close? with
    | some next => (scan.setWork next).enqueue .returned
    | none => scan.enqueue .abort

/-- A worker asks for a host. -/
def ask (scan : Scan) (worker : Nat) : Scan := scan.setWork (scan.work.receive worker)

/-- The collector asks for a result. -/
def listen (scan : Scan) : Scan := scan.setResults (scan.results.receive single)

/-- A scan in which nobody has done anything. -/
def blank (hosts : List String) (workers : Nat) : Scan where
  work := .empty hosts.length
  results := .empty 0
  unsent := hosts
  jobs := []
  active := workers + 1
  probes := []
  running := []
  endings := []
  summary := ⟨0, 0⟩
  told := []
  failure := .undefined
  result := none
  notices := [.scanStarted hosts.length workers]

/-- A scan in which everybody has started: the producer, the workers, the collector. -/
def initial (hosts : List String) (workers : Nat) : Scan :=
  ((List.range workers).foldl ask (blank hosts workers).produce).listen

/-! ## Preparation -/

structure Ending where
  result : Except ScanError Summary
  /-- What the reporter was told at the end -/
  done : List Summary
  notices : List Notice
  /-- The texts of the reporter -/
  texts : List String

/-- The number of workers that are too many, 2^32. -/
def workerLimit : Nat := 1 <<< 32

/-- A scan before its first job, if the number of workers is a positive integer and below the
    limit. -/
def prepare (hosts : List String) (workers : Binary64) : Except Ending Scan :=
  match workers.toInt? with
  | some (.ofNat (n + 1)) =>
    if n + 1 < workerLimit then .ok (initial hosts (n + 1))
    else .error ⟨.error .tooManyWorkers, [], [.scanStarted hosts.length (n + 1)], []⟩
  | _ => .error ⟨.error (.invalidWorkers workers), [], [], []⟩

end Scan

end ServedChain
