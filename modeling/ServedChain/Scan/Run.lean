/-
  ServedChain — the course of a scan: jobs run one after another, and in between
  probes end.

  Each host is probed once, in the order of the list; as many probes run at a
  time as there are workers.  A reporter that fails does not stop the scan; the
  first value that it throws is the outcome.

  * `Scan.step` runs the next job, and `Scan.settle` ends a probe;
  * `Scan.run` is any course of a scan, `Scan.drain` goes on as far as possible
    without an end of a probe;
  * `Scan.answerAll` is a whole scan whose probes are answered at once;
  * `Scan.ending` is the end.
-/
import ServedChain.Scan.State

namespace ServedChain

namespace Scan

/-! ## Probes -/

/-- A worker goes on with what a probe came to. -/
def forward (scan : Scan) (worker : Nat) (host : String) (outcome : Outcome) : Scan :=
  { scan with notices := scan.notices ++ outcome.notices host }.setResults
    (scan.results.send worker (outcome.counted, host))

/-- A worker starts a probe.  If that throws, the worker goes on at once. -/
def probe (prober : Prober) (scan : Scan) (worker : Nat) (host : String) : Scan :=
  let probing : Probing := ⟨scan.probes.length, worker, host⟩
  let started := { scan with probes := scan.probes ++ [host] }
  match prober probing.number host with
  | .thrown error =>
    let outcome := Outcome.thrown error
    { started with endings := scan.endings ++ [(probing, outcome)] }.forward worker host outcome
  | .verdict _ | .rejected _ => { started with running := scan.running ++ [probing] }

/-- A probe ends; one that has not started, or has ended already, does not. -/
def settle (scan : Scan) (number : Nat) (outcome : Outcome) : Scan :=
  match scan.running.find? fun probing => probing.number == number with
  | some probing =>
    { scan with
      running := scan.running.erase probing
      endings := scan.endings ++ [(probing, outcome)] }.enqueue
        (.forward probing.worker probing.host outcome)
  | none => scan

/-! ## Results -/

/-- The collector counts a result, and passes it on if it is a finding. -/
def collect (reporter : Reporter) (scan : Scan) (result : Finding) : Scan :=
  let summary := { scan.summary with probed := scan.summary.probed + 1 }
  if result.1.isReported then
    { scan with
      summary := { summary with findings := summary.findings + 1 }
      told := scan.told ++ [.finding result]
      failure :=
        (reporter.findingError scan.summary.findings).elim scan.failure scan.failure.keep }
  else { scan with summary }

/-- The scan hears that the producer or a worker has returned. -/
def countReturned (scan : Scan) : Scan :=
  if scan.active = 1 then { scan with active := 0 }.enqueue .close
  else { scan with active := scan.active - 1 }

/-- The channel of results is closed. -/
def closeResults (scan : Scan) : Scan :=
  match scan.results.close? with
  | some next => scan.setResults next
  | none => scan.enqueue .abort

/-- The scan ends: with what is kept of the failures of the reporter, or after it was told the
    end.  If what is kept is `undefined`, nobody sees that it was thrown. -/
def conclude (reporter : Reporter) (scan : Scan) : Scan :=
  if scan.failure = .undefined then
    let told := scan.told ++ [.done scan.summary]
    match reporter.doneError with
    | some thrown => { scan with told, result := some (.error (.reporterFailed thrown)) }
    | none =>
      { scan with
        told
        result := some (.ok scan.summary)
        notices := scan.notices ++ [.scanComplete scan.summary] }
  else { scan with result := some (.error (.reporterFailed scan.failure)) }

/-- The scan ends because a channel was closed, unless it has ended. -/
def abort (scan : Scan) : Scan :=
  { scan with result := scan.result.or (some (.error .channelClosed)) }

/-! ## Steps -/

section
variable (reporter : Reporter) (prober : Prober)

def perform (scan : Scan) : Job → Scan
  | .produce => scan.produce
  | .probe worker host => scan.probe prober worker host
  | .leave => scan.enqueue .returned
  | .forward worker host outcome => scan.forward worker host outcome
  | .ask worker => scan.ask worker
  | .collect result => (scan.collect reporter result).listen
  | .stop => scan.enqueue .conclude
  | .returned => scan.countReturned
  | .close => scan.closeResults
  | .conclude => scan.conclude reporter
  | .abort => scan.abort

/-- The first job of the queue lets the others pass once more, or is done. -/
def step (scan : Scan) : Scan :=
  match scan.jobs with
  | [] => scan
  | (rounds + 1, job) :: jobs => { scan with jobs := jobs ++ [(rounds, job)] }
  | (0, job) :: jobs => { scan with jobs }.perform reporter prober job

/-- Something that happens during a scan. -/
inductive Event where
  | step
  /-- A probe ends -/
  | settle (number : Nat)
  deriving DecidableEq, Repr

def handle (scan : Scan) : Event → Scan
  | .step => scan.step reporter prober
  | .settle number => scan.settle number (prober number (scan.probes.getD number ""))

def run (scan : Scan) (events : List Event) : Scan :=
  events.foldl (fun scan event => scan.handle reporter prober event) scan

/-! ## Going on -/

/-- The weight of a job, by which `effort` counts. -/
def Job.effort : Job → Nat
  | abort | conclude => 1
  | stop => 2
  | collect _ | close => 4
  | returned => 5
  | leave | produce => 6
  | ask _ => 8
  | forward .. => 12
  | probe .. => 14

/-- The effort of the jobs in a queue. -/
def queueEffort : List (Nat × Job) → Nat
  | [] => 0
  | (rounds, job) :: queue => rounds + job.effort + queueEffort queue

/-- A bound on the number of events that can still make a difference. -/
def effort (scan : Scan) : Nat :=
  17 * scan.unsent.length
    + (16 * scan.work.buffer.length + 16 * scan.work.senders.length
      + 7 * scan.work.receivers.length)
    + 13 * scan.running.length
    + (3 * scan.results.buffer.length + 11 * scan.results.senders.length
      + 3 * scan.results.receivers.length)
    + queueEffort scan.jobs

/-- So many steps, or as long as there are jobs. -/
def stepTimes : (count : Nat) → Scan → Scan
  | 0, scan => scan
  | count + 1, scan =>
    if scan.jobs.isEmpty then scan else stepTimes count (scan.step reporter prober)

/-- Steps as long as there are jobs. -/
def drain (scan : Scan) : Scan := stepTimes reporter prober scan.effort scan

/-- A step, after which all probes that run end. -/
def stepAnswered (scan : Scan) : Scan :=
  let next := scan.step reporter prober
  next.run reporter prober (next.running.map fun probing => .settle probing.number)

/-- So many steps, or as long as there are jobs; all probes end as soon as they have started. -/
def stepAnsweredTimes : (count : Nat) → Scan → Scan
  | 0, scan => scan
  | count + 1, scan =>
    if scan.jobs.isEmpty then scan
    else stepAnsweredTimes count (scan.stepAnswered reporter prober)

end

/-- All hosts are probed, and answered at once. -/
def answerAll (reporter : Reporter) (outcome : String → Outcome) (scan : Scan) : Scan :=
  stepAnsweredTimes reporter (fun _ => outcome) scan.effort scan

/-! ## Outcome -/

/-- The end of a scan; as long as it has not ended, what it came to so far. -/
def ending (reporter : Reporter) (scan : Scan) : Ending where
  result := scan.result.getD (.ok scan.summary)
  done := scan.told.filterMap Reporter.Call.summary?
  notices := scan.notices
  texts := reporter.texts scan.told

end Scan

end ServedChain
