/-
  Every scan comes to rest.

  A job costs more effort than the jobs that it puts into the queue, to let others
  pass costs some, and so does the end of a probe.  Therefore no course of a scan is
  longer than its effort at the start (`Course.length_le`), and `drain` leaves no job
  (`jobs_drain`).
-/
import ServedChain.Proofs.Scan.Moves

namespace ServedChain.Scan

/-! ## Effort of the queue -/

theorem queueEffort_append (queue queue' : List (Nat × Job)) :
    queueEffort (queue ++ queue') = queueEffort queue + queueEffort queue' := by
  induction queue with
  | nil => exact (Nat.zero_add _).symm
  | cons entry queue ih =>
    simp only [List.cons_append, queueEffort, ih]
    omega

theorem queueEffort_replicate (count : Nat) (entry : Nat × Job) :
    queueEffort (List.replicate count entry) = count * (entry.1 + entry.2.effort) := by
  induction count with
  | zero => simp [queueEffort]
  | succ count ih =>
    simp only [List.replicate_succ, queueEffort, ih, Nat.add_mul]
    omega

/-- What jobs cost that are put into the queue. -/
def cost (jobs : List Job) : Nat := queueEffort (jobs.map fun job => (job.delay, job))

theorem effort_foldl_enqueue (scan : Scan) (jobs : List Job) :
    (jobs.foldl enqueue scan).effort = scan.effort + cost jobs := by
  rw [foldl_enqueue, effort, effort, queueEffort_append]
  exact (Nat.add_assoc ..).symm

theorem effort_enqueue (scan : Scan) (job : Job) :
    (scan.enqueue job).effort = scan.effort + (job.delay + job.effort) :=
  effort_foldl_enqueue scan [job]

/-! ## Effort of the channels -/

/-- The part of the effort that is not in the channels. -/
def ownEffort (scan : Scan) : Nat :=
  17 * scan.unsent.length + 13 * scan.running.length + queueEffort scan.jobs

/-- The effort in the channel of hosts. -/
def workEffort (work : Channel String) : Nat :=
  16 * work.buffer.length + 16 * work.senders.length + 7 * work.receivers.length

/-- The effort in the channel of results. -/
def resultsEffort (results : Channel Finding) : Nat :=
  3 * results.buffer.length + 11 * results.senders.length + 3 * results.receivers.length

theorem effort_eq (scan : Scan) :
    scan.effort = scan.ownEffort + workEffort scan.work + resultsEffort scan.results := by
  simp only [effort, ownEffort, workEffort, resultsEffort]
  omega

theorem effort_setWork (scan : Scan)
    (next : Channel String × List (Nat × Channel.Answer String)) :
    (scan.setWork next).effort = scan.ownEffort + workEffort next.1 + resultsEffort scan.results
      + cost (next.2.map workJob) := by
  rw [setWork, effort_foldl_enqueue, effort_eq]
  rfl

theorem effort_setResults (scan : Scan)
    (next : Channel Finding × List (Nat × Channel.Answer Finding)) :
    (scan.setResults next).effort = scan.ownEffort + workEffort scan.work + resultsEffort next.1
      + cost (next.2.map resultJob) := by
  rw [setResults, effort_foldl_enqueue, effort_eq]
  rfl

/-- A send of a host costs no more than the host with the producer that goes on. -/
theorem effort_send_work_le (scan : Scan) (sender : Nat) (host : String) :
    (scan.setWork (scan.work.send sender host)).effort ≤ scan.effort + 22 := by
  rw [effort_setWork, effort_eq]
  fun_cases Channel.send scan.work sender host <;>
    simp [workEffort, workJob, cost, queueEffort, Job.delay, Job.effort, *] <;> omega

theorem effort_receive_work_le (scan : Scan) (receiver : Nat) :
    (scan.setWork (scan.work.receive receiver)).effort ≤ scan.effort + 7 := by
  rw [effort_setWork, effort_eq]
  fun_cases Channel.receive scan.work receiver <;>
    simp [workEffort, workJob, cost, queueEffort, Job.delay, Job.effort, *] <;> omega

theorem effort_send_results_le (scan : Scan) (sender : Nat) (result : Finding) :
    (scan.setResults (scan.results.send sender result)).effort ≤ scan.effort + 11 := by
  rw [effort_setResults, effort_eq]
  fun_cases Channel.send scan.results sender result <;>
    simp [resultsEffort, resultJob, cost, queueEffort, Job.delay, Job.effort, *] <;> omega

theorem effort_listen_le (scan : Scan) : scan.listen.effort ≤ scan.effort + 3 := by
  rw [listen, effort_setResults, effort_eq]
  fun_cases Channel.receive scan.results single <;>
    simp [resultsEffort, resultJob, cost, queueEffort, Job.delay, Job.effort, *] <;> omega

/-- Whoever waits for a host costs as much as someone who leaves. -/
theorem effort_close_work_le (scan : Scan)
    {next : Channel String × List (Nat × Channel.Answer String)}
    (h : scan.work.close? = some next) : (scan.setWork next).effort ≤ scan.effort := by
  rw [effort_setWork, effort_eq]
  unfold Channel.close? at h
  split at h
  · cases h
  · cases h
    simp [workEffort, Function.comp_def, workJob, cost, queueEffort_append, List.map_const',
      queueEffort_replicate, Job.delay, Job.effort]
    omega

theorem effort_close_results_le (scan : Scan)
    {next : Channel Finding × List (Nat × Channel.Answer Finding)}
    (h : scan.results.close? = some next) : (scan.setResults next).effort ≤ scan.effort := by
  rw [effort_setResults, effort_eq]
  unfold Channel.close? at h
  split at h
  · cases h
  · cases h
    simp [resultsEffort, Function.comp_def, resultJob, cost, queueEffort_append, List.map_const',
      queueEffort_replicate, Job.delay, Job.effort]
    omega

/-! ## Effort of the jobs -/

theorem effort_produce_lt (scan : Scan) :
    scan.produce.effort < scan.effort + Job.produce.effort := by
  unfold produce
  split
  · next host unsent hunsent =>
    have hsend : ({ scan with unsent }.setWork (scan.work.send single host)).effort
        ≤ { scan with unsent }.effort + 22 := effort_send_work_le { scan with unsent } single host
    have heffort : { scan with unsent }.effort + 17 = scan.effort := by
      simp only [effort, hunsent, List.length_cons]
      omega
    simp only [Job.effort]
    omega
  · split
    · next hclose =>
      have hle := effort_close_work_le scan hclose
      rw [effort_enqueue]
      simp only [Job.delay, Job.effort]
      omega
    · rw [effort_enqueue]
      simp [Job.delay, Job.effort]

theorem effort_forward_lt (scan : Scan) (worker : Nat) (host : String) (outcome : Outcome) :
    (scan.forward worker host outcome).effort < scan.effort + 12 :=
  Nat.lt_succ_of_le (effort_send_results_le
    { scan with notices := scan.notices ++ outcome.notices host } worker (outcome.counted, host))

section
variable (reporter : Reporter) (prober : Prober)

theorem effort_probe_lt (scan : Scan) (worker : Nat) (host : String) :
    (scan.probe prober worker host).effort < scan.effort + (Job.probe worker host).effort := by
  simp only [probe]
  split
  · next error _ =>
    exact Nat.lt_of_lt_of_le (effort_forward_lt _ worker host (.thrown error))
      (Nat.add_le_add_left (by simp [Job.effort]) _)
  all_goals simp [effort, Job.effort]; omega

theorem effort_collect (scan : Scan) (result : Finding) :
    (scan.collect reporter result).effort = scan.effort := by
  unfold collect
  split <;> rfl

theorem effort_conclude (scan : Scan) : (scan.conclude reporter).effort = scan.effort := by
  obtain ⟨_, _, _, heq⟩ := conclude_eq scan reporter
  rw [heq]
  rfl

/-- **Effort of a job**: what a job leaves to do is less than the job. -/
theorem effort_perform_lt (scan : Scan) (job : Job) :
    (scan.perform reporter prober job).effort < scan.effort + job.effort := by
  cases job with
  | produce => exact effort_produce_lt scan
  | probe worker host => exact effort_probe_lt prober scan worker host
  | forward worker host outcome => exact effort_forward_lt scan worker host outcome
  | ask worker => exact Nat.lt_succ_of_le (effort_receive_work_le scan worker)
  | collect result =>
    have hle := effort_listen_le (scan.collect reporter result)
    rw [effort_collect] at hle
    exact Nat.lt_succ_of_le hle
  | close =>
    simp only [perform, closeResults]
    split
    · next hclose =>
      have hle := effort_close_results_le scan hclose
      simp only [Job.effort]
      omega
    · rw [effort_enqueue]
      simp [Job.delay, Job.effort]
  | returned =>
    simp only [perform, countReturned]
    split
    · rw [effort_enqueue]
      simp [Job.delay, Job.effort, effort]
    · simp [Job.effort, effort]
  | leave | stop =>
    rw [perform, effort_enqueue]
    simp [Job.delay, Job.effort]
  | conclude =>
    rw [perform, effort_conclude]
    exact Nat.lt_succ_self _
  | abort => exact Nat.lt_succ_self _

/-! ## Rest -/

/-- As long as jobs wait a step costs some of the effort. -/
theorem effort_step_lt {scan : Scan} (h : scan.jobs ≠ []) :
    (scan.step reporter prober).effort < scan.effort := by
  unfold step
  split
  · next hnil => exact absurd hnil h
  · next rounds job jobs hjobs =>
    simp only [effort, hjobs, queueEffort_append, queueEffort]
    omega
  · next job jobs hjobs =>
    have hlt := effort_perform_lt reporter prober { scan with jobs } job
    have heffort : { scan with jobs }.effort + job.effort = scan.effort := by
      simp only [effort, hjobs, queueEffort]
      omega
    omega

/-- So does the end of a probe that runs. -/
theorem effort_settle_lt {scan : Scan} {number : Nat} (outcome : Outcome)
    (h : ∃ probing ∈ scan.running, probing.number = number) :
    (scan.settle number outcome).effort < scan.effort := by
  unfold settle
  split
  · next probing hfind =>
    have hmem := List.mem_of_find?_eq_some hfind
    have hlength := List.length_erase_of_mem hmem
    have hpos := List.length_pos_of_mem hmem
    rw [effort_enqueue]
    simp only [effort, hlength, Job.delay, Job.effort]
    omega
  · next hfind =>
    obtain ⟨probing, hmem, hnumber⟩ := h
    exact absurd hnumber (by simpa using List.find?_eq_none.1 hfind probing hmem)

/-- Something that can happen: the next job, or the end of a probe that runs. -/
def Awaits (scan : Scan) : Event → Prop
  | .step => scan.jobs ≠ []
  | .settle number => ∃ probing ∈ scan.running, probing.number = number

theorem effort_handle_lt {scan : Scan} {event : Event} (h : scan.Awaits event) :
    (scan.handle reporter prober event).effort < scan.effort := by
  cases event with
  | step => exact effort_step_lt reporter prober h
  | settle number => exact effort_settle_lt _ h

/-- Events each of which can happen when it is its turn. -/
def Course : Scan → List Event → Prop
  | _, [] => True
  | scan, event :: events => scan.Awaits event ∧ Course (scan.handle reporter prober event) events

instance (scan : Scan) : (event : Event) → Decidable (scan.Awaits event)
  | .step => inferInstanceAs (Decidable (scan.jobs ≠ []))
  | .settle number =>
    inferInstanceAs (Decidable (∃ probing ∈ scan.running, probing.number = number))

instance Course.decidable : (scan : Scan) → (events : List Event) →
    Decidable (Course reporter prober scan events)
  | _, [] => isTrue trivial
  | scan, event :: events =>
    have := Course.decidable (scan.handle reporter prober event) events
    inferInstanceAs (Decidable (scan.Awaits event ∧ Course _ _ _ events))

/-- **No scan goes on forever**: a course is not longer than the effort at its start. -/
theorem Course.length_le {scan : Scan} {events : List Event}
    (h : Course reporter prober scan events) : events.length ≤ scan.effort := by
  induction events generalizing scan with
  | nil => exact Nat.zero_le _
  | cons event events ih =>
    obtain ⟨hawaits, hcourse⟩ := h
    exact Nat.lt_of_le_of_lt (ih hcourse) (effort_handle_lt reporter prober hawaits)

theorem jobs_stepTimes {count : Nat} {scan : Scan} (h : scan.effort ≤ count) :
    (stepTimes reporter prober count scan).jobs = [] := by
  induction count generalizing scan with
  | zero =>
    refine Decidable.byContradiction fun hjobs => ?_
    have hlt : (scan.step reporter prober).effort < scan.effort :=
      effort_step_lt reporter prober hjobs
    omega
  | succ count ih =>
    rw [stepTimes]
    split
    · next hempty => exact List.isEmpty_iff.1 hempty
    · next hjobs =>
      have hlt := effort_step_lt reporter prober (mt List.isEmpty_iff.2 hjobs)
      exact ih (by omega)

/-- After all that can be done without an end of a probe no job is left. -/
theorem jobs_drain (scan : Scan) : (scan.drain reporter prober).jobs = [] :=
  jobs_stepTimes reporter prober (Nat.le_refl _)

end

end ServedChain.Scan
