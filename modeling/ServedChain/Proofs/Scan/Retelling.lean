/-
  A scan whose reporter may fail, told from the one whose reporter cannot.

  * `withReport` replaces what a scan keeps about its reporter; most jobs neither read
    nor change that (`perform_withReport`);
  * `retold` is a scan whose reporter cannot fail, as it is with another reporter;
    each event commutes with it (`Ready.handle_retold`), hence so does a run
    (`run_eq_retold`).
-/
import ServedChain.Proofs.Scan.Completion
import ServedChain.Proofs.Scan.Failures

namespace ServedChain

namespace Scan

/-! ## What a scan keeps about its reporter -/

/-- A scan with other calls of the reporter, another failure and another result. -/
def withReport (scan : Scan) (told : List Reporter.Call) (failure : Thrown)
    (result : Option (Except ScanError Summary)) : Scan :=
  { scan with told, failure, result }

section
variable (scan : Scan) (told : List Reporter.Call) (failure : Thrown)
  (result : Option (Except ScanError Summary))

theorem setWork_withReport (next : Channel String × List (Nat × Channel.Answer String)) :
    (scan.withReport told failure result).setWork next
      = (scan.setWork next).withReport told failure result := by
  simp only [setWork, foldl_enqueue, withReport]

theorem setResults_withReport (next : Channel Finding × List (Nat × Channel.Answer Finding)) :
    (scan.withReport told failure result).setResults next
      = (scan.setResults next).withReport told failure result := by
  simp only [setResults, foldl_enqueue, withReport]

theorem produce_withReport :
    (scan.withReport told failure result).produce
      = scan.produce.withReport told failure result := by
  unfold produce
  rcases hunsent : scan.unsent with _ | ⟨host, unsent⟩
  · rcases hclose : scan.work.close? with _ | next
    · simp [withReport, hunsent, hclose, enqueue]
    · simp [withReport, hunsent, hclose, setWork, foldl_enqueue, enqueue]
  · simp [withReport, hunsent, setWork, foldl_enqueue]

theorem ask_withReport (worker : Nat) :
    (scan.withReport told failure result).ask worker
      = (scan.ask worker).withReport told failure result :=
  setWork_withReport ..

theorem listen_withReport :
    (scan.withReport told failure result).listen = scan.listen.withReport told failure result :=
  setResults_withReport ..

theorem forward_withReport (worker : Nat) (host : String) (outcome : Outcome) :
    (scan.withReport told failure result).forward worker host outcome
      = (scan.forward worker host outcome).withReport told failure result :=
  setResults_withReport { scan with notices := scan.notices ++ outcome.notices host } ..

theorem probe_withReport (prober : Prober) (worker : Nat) (host : String) :
    (scan.withReport told failure result).probe prober worker host
      = (scan.probe prober worker host).withReport told failure result := by
  rcases hprobe : prober scan.probes.length host with verdict | error | error
  · simp [probe, withReport, hprobe]
  · simp [probe, withReport, hprobe]
  · simp [probe, withReport, hprobe, forward, setResults, foldl_enqueue]

theorem countReturned_withReport :
    (scan.withReport told failure result).countReturned
      = scan.countReturned.withReport told failure result := by
  by_cases hactive : scan.active = 1 <;> simp [countReturned, withReport, hactive, enqueue]

theorem closeResults_withReport :
    (scan.withReport told failure result).closeResults
      = scan.closeResults.withReport told failure result := by
  rcases hclose : scan.results.close? with _ | next
  · simp [closeResults, withReport, hclose, enqueue]
  · simp [closeResults, withReport, hclose, setResults, foldl_enqueue]

theorem settle_withReport (number : Nat) (outcome : Outcome) :
    (scan.withReport told failure result).settle number outcome
      = (scan.settle number outcome).withReport told failure result := by
  rcases hfind : scan.running.find? fun probing => probing.number == number with _ | probing
  · simp [settle, withReport, hfind]
  · simp [settle, withReport, hfind, enqueue]

end

/-! ## Jobs -/

/-- A job that depends on the reporter, or that ends the scan. -/
def Job.isReport : Job → Bool
  | collect _ | conclude | abort => true
  | _ => false

section
variable {scan next : Scan} {reporter reporter' : Reporter} {prober : Prober} {job : Job}

/-- A job that is none of these does not ask what the scan keeps about its reporter. -/
theorem perform_withReport (hjob : job.isReport = false) (told : List Reporter.Call)
    (failure : Thrown) (result : Option (Except ScanError Summary)) :
    (scan.withReport told failure result).perform reporter prober job
      = (scan.perform reporter' prober job).withReport told failure result := by
  cases job with
  | produce => exact produce_withReport ..
  | probe worker host => exact probe_withReport ..
  | forward worker host outcome => exact forward_withReport ..
  | ask worker => exact ask_withReport ..
  | returned => exact countReturned_withReport ..
  | close => exact closeResults_withReport ..
  | leave | stop => rfl
  | collect | conclude | abort => cases hjob

/-- Therefore it does not change that either. -/
theorem perform_eq_withReport (hjob : job.isReport = false) :
    scan.perform reporter prober job
      = (scan.perform reporter prober job).withReport scan.told scan.failure scan.result :=
  perform_withReport hjob scan.told scan.failure scan.result

theorem settle_eq_withReport (scan : Scan) (number : Nat) (outcome : Outcome) :
    scan.settle number outcome
      = (scan.settle number outcome).withReport scan.told scan.failure scan.result :=
  settle_withReport scan scan.told scan.failure scan.result number outcome

/-! ## Retelling -/

/-- A scan with another reporter, as long as it goes on. -/
def failing (reporter : Reporter) (scan : Scan) : Scan :=
  scan.withReport (scan.findings.map .finding) (reporter.kept scan.findings.length) none

/-- A scan whose reporter cannot fail, as it is with another one.  That one was told the same
    findings; what is kept of its failures decides about the end. -/
def retold (reporter : Reporter) (scan : Scan) : Scan :=
  if scan.ended then
    { scan.failing reporter with notices := scan.notices.dropLast }.conclude reporter
  else scan.failing reporter

theorem retold_of_going (hgoing : scan.result = none) :
    scan.retold reporter = scan.failing reporter := by
  simp [retold, ended, hgoing]

theorem failing_eq_withReport (htold : next.told = scan.told) :
    next.failing reporter = next.withReport (scan.findings.map .finding)
      (reporter.kept scan.findings.length) none := by
  rw [failing, findings, htold]
  rfl

theorem listen_retold (hgoing : scan.result = none) :
    (scan.retold reporter).listen = scan.listen.retold reporter := by
  have hsame : scan.listen = scan.listen.withReport scan.told scan.failure scan.result :=
    listen_withReport scan scan.told scan.failure scan.result
  have hresult : scan.listen.result = none := by rw [hsame]; exact hgoing
  have htold : scan.listen.told = scan.told := by rw [hsame]; rfl
  rw [retold_of_going hgoing, retold_of_going hresult, failing, listen_withReport,
    failing_eq_withReport htold]

theorem collect_retold (hgoing : scan.result = none)
    (hfindings : scan.summary.findings = scan.findings.length) (result : Finding) :
    (scan.retold reporter).collect reporter result
      = (scan.collect .reliable result).retold reporter := by
  have hnext : (scan.collect .reliable result).result = none := by
    unfold collect
    split <;> exact hgoing
  rw [retold_of_going hgoing, retold_of_going hnext]
  unfold collect
  by_cases hresult : result.1.isReported
  · rw [if_pos hresult, if_pos hresult]
    simp [failing, withReport, findings, Reporter.Call.finding?, hfindings,
      Reporter.kept_succ]
  · rw [if_neg hresult, if_neg hresult]
    rfl

theorem conclude_retold (hgoing : scan.result = none) (hfailure : scan.failure = .undefined) :
    (scan.retold reporter).conclude reporter = (scan.conclude .reliable).retold reporter := by
  rw [retold_of_going hgoing, conclude_of_done hfailure rfl]
  simp only [retold, ended, Option.isSome_some, if_true, failing, withReport, findings,
    filterMap_finding?_done, List.dropLast_concat]

/-- A job of a sound scan commutes with the change of the reporter. -/
theorem perform_retold {hosts : List String} {workers : Nat} {jobs : List Job} {busy : Bool}
    (h : Sound hosts workers prober scan (job :: jobs) busy) (hgoing : scan.result = none) :
    (scan.retold reporter).perform reporter prober job
      = (scan.perform .reliable prober job).retold reporter := by
  by_cases hjob : job.isReport
  · cases job with
    | collect result =>
      have hnext : (scan.collect .reliable result).result = none := by
        unfold collect
        split <;> exact hgoing
      simp only [perform]
      rw [collect_retold hgoing h.books.findings, listen_retold hnext]
    | conclude => exact conclude_retold hgoing h.report.failure
    | abort => exact absurd h.parties.sane (by simp)
    | _ => cases hjob
  · have hframe := @perform_eq_withReport scan .reliable prober job (by simpa using hjob)
    have hresult : (scan.perform .reliable prober job).result = none := by
      rw [hframe]
      exact hgoing
    have htold : (scan.perform .reliable prober job).told = scan.told := by rw [hframe]; rfl
    rw [retold_of_going hgoing, retold_of_going hresult, failing_eq_withReport htold, failing]
    exact perform_withReport (by simpa using hjob) ..

theorem step_of_no_jobs (h : scan.jobs = []) : scan.step reporter prober = scan := by
  rw [step, h]

theorem step_of_due {jobs : List (Nat × Job)} (h : scan.jobs = (0, job) :: jobs) :
    scan.step reporter prober = { scan with jobs }.perform reporter prober job := by
  rw [step, h]

theorem step_of_waiting {rounds : Nat} {jobs : List (Nat × Job)}
    (h : scan.jobs = (rounds + 1, job) :: jobs) :
    scan.step reporter prober = { scan with jobs := jobs ++ [(rounds, job)] } := by
  rw [step, h]

theorem settle_of_none_runs (h : scan.running = []) (number : Nat) (outcome : Outcome) :
    scan.settle number outcome = scan := by
  rw [settle, h]
  rfl

end

/-! ## What stays -/

section
variable (reporter : Reporter) (scan : Scan)

theorem retold_eq : ∃ told failure result notices,
    scan.retold reporter = { scan with told, failure, result, notices } := by
  unfold retold
  split
  · obtain ⟨result, told, notices, heq⟩ :=
      conclude_eq { scan.failing reporter with notices := scan.notices.dropLast } reporter
    exact ⟨told, _, some result, notices, heq⟩
  · exact ⟨_, _, _, _, rfl⟩

@[simp] theorem jobs_retold : (scan.retold reporter).jobs = scan.jobs := by
  obtain ⟨_, _, _, _, heq⟩ := retold_eq reporter scan
  rw [heq]

@[simp] theorem probes_retold : (scan.retold reporter).probes = scan.probes := by
  obtain ⟨_, _, _, _, heq⟩ := retold_eq reporter scan
  rw [heq]

@[simp] theorem running_retold : (scan.retold reporter).running = scan.running := by
  obtain ⟨_, _, _, _, heq⟩ := retold_eq reporter scan
  rw [heq]

@[simp] theorem endings_retold : (scan.retold reporter).endings = scan.endings := by
  obtain ⟨_, _, _, _, heq⟩ := retold_eq reporter scan
  rw [heq]

theorem filterMap_finding?_map (results : List Finding) :
    (results.map Reporter.Call.finding).filterMap Reporter.Call.finding? = results := by
  rw [List.filterMap_map]
  exact List.filterMap_some

@[simp] theorem findings_retold : (scan.retold reporter).findings = scan.findings := by
  unfold retold
  split
  · exact (findings_conclude ..).trans (filterMap_finding?_map _)
  · exact filterMap_finding?_map _

@[simp] theorem ended_retold : (scan.retold reporter).ended = scan.ended := by
  unfold retold
  split
  · next hended =>
    obtain ⟨_, _, _, heq⟩ :=
      conclude_eq { scan.failing reporter with notices := scan.notices.dropLast } reporter
    rw [heq, hended]
    rfl
  · next hended => rw [Bool.eq_false_iff.2 hended]; rfl

end

/-! ## Events -/

section
variable {hosts : List String} {workers : Nat} {reporter : Reporter} {prober : Prober}
  {scan : Scan} {busy : Bool}

/-- The next job commutes with the change of the reporter. -/
theorem Ready.step_retold (h : Ready hosts workers prober scan [] busy) :
    (scan.retold reporter).step reporter prober
      = (scan.step .reliable prober).retold reporter := by
  rcases hresult : scan.result with _ | result
  · rcases hjobs : scan.jobs with _ | ⟨⟨_ | rounds, job⟩, jobs⟩
    · rw [step_of_no_jobs hjobs, step_of_no_jobs (by rw [jobs_retold, hjobs])]
    · have hsound := h.sound
      rw [hjobs, turn_cons_zero] at hsound
      have hperform := @perform_retold { scan with jobs } reporter prober job hosts workers _ busy
        (hsound.queue jobs) hresult
      rw [step_of_due hjobs, ← hperform, step_of_due (by rw [jobs_retold, hjobs]),
        retold_of_going hresult, retold_of_going (by exact hresult)]
      rfl
    · rw [step_of_waiting hjobs, step_of_waiting (by rw [jobs_retold, hjobs]),
        retold_of_going hresult, retold_of_going (by exact hresult)]
      rfl
  · -- After the end no job is left
    have hended : scan.ended = true := by rw [ended, hresult]; rfl
    have hjobs := eq_nil_of_turn_eq_nil h.timely (h.sound.rest_of_ended hended).1
    rw [step_of_no_jobs hjobs, step_of_no_jobs (by rw [jobs_retold, hjobs])]

/-- So does the end of a probe. -/
theorem Ready.settle_retold (h : Ready hosts workers prober scan [] busy) (number : Nat)
    (outcome : Outcome) :
    (scan.retold reporter).settle number outcome
      = (scan.settle number outcome).retold reporter := by
  rcases hresult : scan.result with _ | result
  · have hframe := settle_eq_withReport scan number outcome
    have hnext : (scan.settle number outcome).result = none := by rw [hframe]; exact hresult
    have htold : (scan.settle number outcome).told = scan.told := by rw [hframe]; rfl
    rw [retold_of_going hresult, retold_of_going hnext, failing_eq_withReport htold, failing,
      settle_withReport]
  · -- After the end no probe runs
    have hended : scan.ended = true := by rw [ended, hresult]; rfl
    have hrunning := (h.sound.rest_of_ended hended).2
    rw [settle_of_none_runs hrunning, settle_of_none_runs (by rw [running_retold, hrunning])]

theorem Ready.handle_retold (h : Ready hosts workers prober scan [] busy) (event : Event) :
    (scan.retold reporter).handle reporter prober event
      = (scan.handle .reliable prober event).retold reporter := by
  cases event with
  | step => exact h.step_retold
  | settle number => rw [handle, handle, probes_retold, h.settle_retold]

theorem Ready.run_retold (h : Ready hosts workers prober scan [] busy) (events : List Event) :
    (scan.retold reporter).run reporter prober events
      = (scan.run .reliable prober events).retold reporter := by
  induction events generalizing scan with
  | nil => rfl
  | cons event events ih =>
    calc (scan.retold reporter).run reporter prober (event :: events)
        = ((scan.retold reporter).handle reporter prober event).run reporter prober events := rfl
      _ = ((scan.handle .reliable prober event).retold reporter).run reporter prober events := by
        rw [h.handle_retold]
      _ = (scan.run .reliable prober (event :: events)).retold reporter := ih (h.run [event])

theorem setWork_eq_with (scan : Scan)
    (next : Channel String × List (Nat × Channel.Answer String)) :
    ∃ jobs, scan.setWork next = { scan with work := next.1, jobs } :=
  ⟨_, foldl_enqueue ..⟩

theorem foldl_ask_eq_with (asking : List Nat) (scan : Scan) :
    ∃ work jobs, asking.foldl ask scan = { scan with work, jobs } := by
  induction asking generalizing scan with
  | nil => exact ⟨scan.work, scan.jobs, rfl⟩
  | cons worker asking ih =>
    obtain ⟨jobs, hask⟩ := setWork_eq_with scan (scan.work.receive worker)
    obtain ⟨work, jobs', hrest⟩ := ih (scan.ask worker)
    exact ⟨work, jobs', by rw [List.foldl_cons, hrest, ask, hask]⟩

/-- At the start no probe has started, and the reporter was told nothing. -/
theorem initial_eq_with (hosts : List String) (workers : Nat) :
    ∃ work results unsent jobs,
      initial hosts workers = { blank hosts workers with work, results, unsent, jobs } := by
  obtain ⟨work, unsent, jobs, hproduce⟩ : ∃ work unsent jobs,
      (blank hosts workers).produce = { blank hosts workers with work, unsent, jobs } := by
    cases hosts with
    | nil => exact ⟨_, _, _, rfl⟩
    | cons host hosts =>
      obtain ⟨jobs, hsend⟩ := setWork_eq_with { blank (host :: hosts) workers with unsent := hosts }
        ((blank (host :: hosts) workers).work.send single host)
      exact ⟨_, hosts, jobs, hsend⟩
  obtain ⟨_, _, hask⟩ := foldl_ask_eq_with (List.range workers) (blank hosts workers).produce
  rw [initial, hask, hproduce]
  exact ⟨_, _, _, _, foldl_enqueue ..⟩

/-- **A scan whose reporter may fail is the one whose reporter cannot, told anew.** -/
theorem run_eq_retold (hosts : List String) (workers : Nat) (reporter : Reporter)
    (prober : Prober) (events : List Event) :
    (initial hosts workers).run reporter prober events
      = ((initial hosts workers).run .reliable prober events).retold reporter := by
  have hstart : (initial hosts workers).retold reporter = initial hosts workers := by
    obtain ⟨_, _, _, _, heq⟩ := initial_eq_with hosts workers
    rw [heq]
    exact retold_of_going rfl
  rw [← (Ready.initial hosts workers prober).run_retold, hstart]

/-- What is known of a scan whose reporter cannot fail is known of every run. -/
theorem exists_ready (hosts : List String) (workers : Nat) (reporter : Reporter)
    (prober : Prober) (events : List Event) :
    ∃ calm, (initial hosts workers).run reporter prober events = calm.retold reporter
      ∧ Ready hosts workers prober calm [] false :=
  ⟨_, run_eq_retold .., (Ready.initial hosts workers prober).run events⟩

end

end Scan

end ServedChain
