/-
  What the jobs of a scan do.

  `Move` says once what a job changes and which jobs it puts into the queue, as far
  as the channels are used as in a scan: nobody waits to send a host, and results
  are not buffered.
-/
import ServedChain.Proofs.Scan.Queue

namespace ServedChain.Scan

/-! ## Moves -/

/-- The collector asks for a result. -/
inductive Listen (scan : Scan) : Scan → List Job → Prop
  | receive {worker : Nat} {result : Finding} {senders : List (Nat × Finding)} :
    scan.results.senders = (worker, result) :: senders →
    Listen scan { scan with results := { scan.results with senders } }
      [.ask worker, .collect result]
  | stop : scan.results.senders = [] → scan.results.closed = true → Listen scan scan [.stop]
  | wait : scan.results.senders = [] → scan.results.closed = false →
    Listen scan { scan with
      results := { scan.results with receivers := scan.results.receivers ++ [single] } } []

/-- A worker sends a result. -/
inductive Send (scan : Scan) (worker : Nat) (result : Finding) : Scan → List Job → Prop
  | deliver {receiver : Nat} {receivers : List Nat} :
    scan.results.receivers = receiver :: receivers →
    Send scan worker result { scan with results := { scan.results with receivers } }
      [.collect result, .ask worker]
  | wait : scan.results.receivers = [] →
    Send scan worker result { scan with
      results := { scan.results with senders := scan.results.senders ++ [(worker, result)] } } []

/-- A job is done. -/
inductive Move (reporter : Reporter) (prober : Prober) (scan : Scan) :
    Job → Scan → List Job → Prop
  | handOver {host : String} {unsent : List String} {receiver : Nat} {receivers : List Nat} :
    scan.unsent = host :: unsent → scan.work.receivers = receiver :: receivers →
    Move reporter prober scan .produce
      { scan with unsent, work := { scan.work with receivers } } [.probe receiver host, .produce]
  | store {host : String} {unsent : List String} :
    scan.unsent = host :: unsent → scan.work.receivers = [] →
    Move reporter prober scan .produce
      { scan with unsent, work := { scan.work with buffer := scan.work.buffer ++ [host] } }
      [.produce]
  | finish : scan.unsent = [] →
    Move reporter prober scan .produce
      { scan with work := { scan.work with closed := true, receivers := [], senders := [] } }
      (List.replicate scan.work.receivers.length .leave ++ [.returned])
  | start {worker : Nat} {host : String} :
    (∀ error, prober scan.probes.length host ≠ .thrown error) →
    Move reporter prober scan (.probe worker host)
      { scan with
        probes := scan.probes ++ [host]
        running := scan.running ++ [⟨scan.probes.length, worker, host⟩] } []
  | throw {worker : Nat} {host error : String} {next : Scan} {jobs : List Job} :
    prober scan.probes.length host = .thrown error →
    Send { scan with
      probes := scan.probes ++ [host]
      endings := scan.endings ++ [(⟨scan.probes.length, worker, host⟩, .thrown error)]
      notices := scan.notices ++ (Outcome.thrown error).notices host } worker
        ((Outcome.thrown error).counted, host) next jobs →
    Move reporter prober scan (.probe worker host) next jobs
  | leave : Move reporter prober scan .leave scan [.returned]
  | forward {worker : Nat} {host : String} {outcome : Outcome} {next : Scan} {jobs : List Job} :
    Send { scan with notices := scan.notices ++ outcome.notices host } worker
      (outcome.counted, host) next jobs →
    Move reporter prober scan (.forward worker host outcome) next jobs
  | serve {worker : Nat} {host : String} {buffer : List String} :
    scan.work.buffer = host :: buffer →
    Move reporter prober scan (.ask worker) { scan with work := { scan.work with buffer } }
      [.probe worker host]
  | dismiss {worker : Nat} : scan.work.buffer = [] → scan.work.closed = true →
    Move reporter prober scan (.ask worker) scan [.leave]
  | queue {worker : Nat} : scan.work.buffer = [] → scan.work.closed = false →
    Move reporter prober scan (.ask worker)
      { scan with work := { scan.work with receivers := scan.work.receivers ++ [worker] } } []
  | collect {result : Finding} {next : Scan} {jobs : List Job} :
    Listen (scan.collect reporter result) next jobs →
    Move reporter prober scan (.collect result) next jobs
  | stop : Move reporter prober scan .stop scan [.conclude]
  | lastReturned : scan.active = 1 →
    Move reporter prober scan .returned { scan with active := 0 } [.close]
  | returned : scan.active ≠ 1 →
    Move reporter prober scan .returned { scan with active := scan.active - 1 } []
  | close : scan.results.senders = [] →
    Move reporter prober scan .close
      { scan with
        results := { scan.results with closed := true, receivers := [], senders := [] } }
      (List.replicate scan.results.receivers.length .stop)
  | conclude : Move reporter prober scan .conclude (scan.conclude reporter) []

section
variable {reporter : Reporter} {prober : Prober} {scan next : Scan} {job : Job} {jobs : List Job}

/-- What is kept of the failures of the reporter is what the scan comes to. -/
theorem conclude_of_failure (hfailure : scan.failure ≠ .undefined) : scan.conclude reporter
    = { scan with result := some (.error (.reporterFailed scan.failure)) } :=
  if_neg hfailure

/-- If nothing is kept, it is what the reporter throws when it is told the end. -/
theorem conclude_of_doneError {thrown : Thrown} (hfailure : scan.failure = .undefined)
    (hdone : reporter.doneError = some thrown) : scan.conclude reporter
    = { scan with
      told := scan.told ++ [.done scan.summary]
      result := some (.error (.reporterFailed thrown)) } := by
  rw [Scan.conclude, if_pos hfailure, hdone]

/-- If it throws nothing then either, it is what the collector has counted. -/
theorem conclude_of_done (hfailure : scan.failure = .undefined)
    (hdone : reporter.doneError = none) : scan.conclude reporter
    = { scan with
      told := scan.told ++ [.done scan.summary]
      result := some (.ok scan.summary)
      notices := scan.notices ++ [.scanComplete scan.summary] } := by
  rw [Scan.conclude, if_pos hfailure, hdone]

/-- The end changes the result, and what is told and logged. -/
theorem conclude_eq (scan : Scan) (reporter : Reporter) : ∃ result told notices,
    scan.conclude reporter = { scan with result := some result, told, notices } := by
  by_cases hfailure : scan.failure = .undefined
  · rcases hdone : reporter.doneError with _ | thrown
    · exact ⟨_, _, _, conclude_of_done hfailure hdone⟩
    · exact ⟨_, _, _, conclude_of_doneError hfailure hdone⟩
  · exact ⟨_, _, _, conclude_of_failure hfailure⟩

theorem Listen.jobs_eq (hl : Listen scan next jobs) : next.jobs = scan.jobs := by
  cases hl <;> rfl

theorem Send.jobs_eq {worker : Nat} {result : Finding} (hs : Send scan worker result next jobs) :
    next.jobs = scan.jobs := by
  cases hs <;> rfl

/-- A job touches the queue only by the jobs that it puts into it. -/
theorem Move.jobs_eq (hm : Move reporter prober scan job next jobs) : next.jobs = scan.jobs := by
  cases hm with
  | throw _ hs => exact hs.jobs_eq
  | forward hs => exact hs.jobs_eq
  | collect hl =>
    rw [hl.jobs_eq]
    unfold Scan.collect
    split <;> rfl
  | conclude =>
    obtain ⟨_, _, _, heq⟩ := conclude_eq scan reporter
    rw [heq]
  | handOver | store | finish | start | leave | serve | dismiss | queue | stop | lastReturned
  | returned | close => rfl

end

/-! ## Operations -/

theorem setWork_eq (scan : Scan) (work : Channel String)
    (answers : List (Nat × Channel.Answer String)) :
    scan.setWork (work, answers) = (answers.map workJob).foldl enqueue { scan with work } := rfl

theorem setResults_eq (scan : Scan) (results : Channel Finding)
    (answers : List (Nat × Channel.Answer Finding)) :
    scan.setResults (results, answers)
      = (answers.map resultJob).foldl enqueue { scan with results } := rfl

variable {scan : Scan}

theorem exists_listen (hbuffer : scan.results.buffer = []) :
    ∃ next jobs, Listen scan next jobs ∧ scan.listen = jobs.foldl enqueue next := by
  rcases hsenders : scan.results.senders with _ | ⟨⟨worker, result⟩, senders⟩
  · rcases hclosed : scan.results.closed with _ | _
    · refine ⟨_, _, .wait hsenders hclosed, ?_⟩
      simp [listen, Channel.receive, hbuffer, hsenders, hclosed, setResults_eq]
    · refine ⟨_, _, .stop hsenders hclosed, ?_⟩
      simp [listen, Channel.receive, hbuffer, hsenders, hclosed, setResults_eq, resultJob]
  · refine ⟨_, _, .receive hsenders, ?_⟩
    simp [listen, Channel.receive, hbuffer, hsenders, setResults_eq, resultJob]

theorem exists_send (worker : Nat) (result : Finding) (hopen : scan.results.closed = false)
    (hfull : scan.results.capacity ≤ scan.results.buffer.length) :
    ∃ next jobs, Send scan worker result next jobs
      ∧ scan.setResults (scan.results.send worker result) = jobs.foldl enqueue next := by
  rcases hreceivers : scan.results.receivers with _ | ⟨receiver, receivers⟩
  · refine ⟨_, _, .wait hreceivers, ?_⟩
    simp [Channel.send, hopen, hreceivers, Nat.not_lt.2 hfull, setResults_eq]
  · refine ⟨_, _, .deliver hreceivers, ?_⟩
    simp [Channel.send, hopen, hreceivers, setResults_eq, resultJob]

section
variable (reporter : Reporter) (prober : Prober)

theorem exists_produce (hopen : scan.work.closed = false) (hsenders : scan.work.senders = [])
    (hroom : scan.unsent ≠ [] → scan.work.buffer.length < scan.work.capacity) :
    ∃ next jobs, Move reporter prober scan .produce next jobs
      ∧ scan.produce = jobs.foldl enqueue next := by
  rcases hunsent : scan.unsent with _ | ⟨host, unsent⟩
  · refine ⟨_, _, .finish hunsent, ?_⟩
    have hleave : scan.work.receivers.map (workJob ∘ fun receiver => (receiver, .finished))
        = List.replicate scan.work.receivers.length .leave := List.map_const' ..
    simp [produce, hunsent, Channel.close?, hopen, setWork_eq, hleave, hsenders]
  · have hlt := hroom (by simp [hunsent])
    rcases hreceivers : scan.work.receivers with _ | ⟨receiver, receivers⟩
    · refine ⟨_, _, .store hunsent hreceivers, ?_⟩
      simp [produce, hunsent, Channel.send, hopen, hreceivers, hlt, setWork_eq, workJob]
    · refine ⟨_, _, .handOver hunsent hreceivers, ?_⟩
      simp [produce, hunsent, Channel.send, hopen, hreceivers, setWork_eq, workJob, single]

theorem exists_ask (worker : Nat) (hsenders : scan.work.senders = []) :
    ∃ next jobs, Move reporter prober scan (.ask worker) next jobs
      ∧ scan.ask worker = jobs.foldl enqueue next := by
  rcases hbuffer : scan.work.buffer with _ | ⟨host, buffer⟩
  · rcases hclosed : scan.work.closed with _ | _
    · refine ⟨_, _, .queue hbuffer hclosed, ?_⟩
      simp [ask, Channel.receive, hbuffer, hsenders, hclosed, setWork_eq]
    · refine ⟨_, _, .dismiss hbuffer hclosed, ?_⟩
      simp [ask, Channel.receive, hbuffer, hsenders, hclosed, setWork_eq, workJob]
  · refine ⟨_, _, .serve hbuffer, ?_⟩
    simp [ask, Channel.receive, hbuffer, hsenders, setWork_eq, workJob]

end

end ServedChain.Scan
