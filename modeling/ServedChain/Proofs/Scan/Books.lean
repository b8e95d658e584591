/-
  What a scan has to show for its probes.

  * `inFlight` are the results between the end of a probe and the collector;
  * `Books` says that each probe that has started runs or has ended, and that each
    result is in flight or was counted;
  * `Report` says what was logged, and what the reporter was told, if it does not fail.
-/
import ServedChain.Proofs.Scan.Parties

namespace ServedChain

/-- A probe by its host and its number. -/
def Probing.key (probing : Probing) : String × Nat := (probing.host, probing.number)

namespace Scan

/-! ## Results -/

/-- What a probe that has ended is to be counted as. -/
def resultOf (ending : Probing × Outcome) : Finding := (ending.2.counted, ending.1.host)

/-- The results that are to be reported, among some. -/
def reported (results : List Finding) : List Finding := results.filter fun r => r.1.isReported

/-- The results that the collector has not counted, in the order in which it will. -/
def inFlight (scan : Scan) (jobs : List Job) : List Finding :=
  jobs.filterMap Job.result? ++ scan.results.senders.map Prod.snd
    ++ (jobs.filterMap Job.outcome?).map fun (outcome, host) => (outcome.counted, host)

section
variable {scan next : Scan} {jobs more : List Job}

theorem inFlight_of_alike {jobs' : List Job} (ha : Alike jobs jobs') :
    inFlight scan jobs' = inFlight scan jobs := by
  rw [inFlight, inFlight, ha.results_eq, ha.outcomes_eq]

theorem inFlight_listen (jobs : List Job) (hl : Listen scan next more) :
    inFlight next (jobs ++ more) = inFlight scan jobs := by
  cases hl <;> simp [inFlight, List.filterMap_cons, Job.result?, Job.outcome?, *]

theorem inFlight_send (jobs : List Job) {worker : Nat} {host : String} {outcome : Outcome}
    (hexclusive : scan.results.receivers = [] ∨ scan.results.senders = [])
    (hs : Send scan worker (outcome.counted, host) next more) :
    inFlight next (jobs ++ more) = inFlight scan (.forward worker host outcome :: jobs) := by
  cases hs with
  | deliver hreceivers =>
    have hsenders : scan.results.senders = [] :=
      hexclusive.resolve_left (by simp [hreceivers])
    simp [inFlight, List.filterMap_cons, Job.result?, Job.outcome?, hsenders]
  | wait hreceivers => simp [inFlight, List.filterMap_cons, Job.result?, Job.outcome?]

end

/-! ## What the reporter was told -/

theorem filterMap_finding?_concat (told : List Reporter.Call) (result : Finding) :
    (told ++ [Reporter.Call.finding result]).filterMap Reporter.Call.finding?
      = told.filterMap Reporter.Call.finding? ++ [result] := by
  rw [List.filterMap_append]
  rfl

theorem filterMap_finding?_done (told : List Reporter.Call) (summary : Summary) :
    (told ++ [Reporter.Call.done summary]).filterMap Reporter.Call.finding?
      = told.filterMap Reporter.Call.finding? := by
  rw [List.filterMap_append]
  exact List.append_nil _

/-- At the end no finding is passed on. -/
theorem findings_conclude (scan : Scan) (reporter : Reporter) :
    (scan.conclude reporter).findings = scan.findings := by
  by_cases hfailure : scan.failure = .undefined
  · rcases hdone : reporter.doneError with _ | thrown
    · rw [conclude_of_done hfailure hdone]
      exact filterMap_finding?_done ..
    · rw [conclude_of_doneError hfailure hdone]
      exact filterMap_finding?_done ..
  · rw [conclude_of_failure hfailure]
    rfl

/-! ## Books -/

/-- The account of probes and results, with the jobs that wait. -/
structure Books (prober : Prober) (scan : Scan) (jobs : List Job) : Prop where
  started : (scan.endings.map (fun ending => Probing.key ending.1)
    ++ scan.running.map Probing.key).Perm scan.probes.zipIdx
  outcome : ∀ ending ∈ scan.endings, ending.2 = prober ending.1.number ending.1.host
  counted : scan.endings.length = scan.summary.probed + (inFlight scan jobs).length
  passed : reported (scan.endings.map resultOf) = scan.findings ++ reported (inFlight scan jobs)
  findings : scan.summary.findings = scan.findings.length

namespace Books
variable {prober : Prober} {scan next : Scan} {jobs more : List Job}

/-- Nothing changes for the books. -/
theorem frame (h : Books prober scan jobs) (hendings : next.endings = scan.endings)
    (hrunning : next.running = scan.running) (hprobes : next.probes = scan.probes)
    (hsummary : next.summary = scan.summary) (hfindings : next.findings = scan.findings)
    (hflight : inFlight next more = inFlight scan jobs) : Books prober next more where
  started := by rw [hendings, hrunning, hprobes]; exact h.started
  outcome := by rw [hendings]; exact h.outcome
  counted := by rw [hendings, hsummary, hflight]; exact h.counted
  passed := by rw [hendings, hfindings, hflight]; exact h.passed
  findings := by rw [hsummary, hfindings]; exact h.findings

theorem of_alike {jobs' : List Job} (h : Books prober scan jobs) (ha : Alike jobs jobs') :
    Books prober scan jobs' :=
  h.frame rfl rfl rfl rfl rfl (inFlight_of_alike ha)

theorem listen (h : Books prober scan jobs) (hl : Listen scan next more) :
    Books prober next (jobs ++ more) := by
  have hflight := inFlight_listen jobs hl
  cases hl <;> exact h.frame rfl rfl rfl rfl rfl hflight

theorem send {worker : Nat} {host : String} {outcome : Outcome}
    (h : Books prober scan (.forward worker host outcome :: jobs))
    (hexclusive : scan.results.receivers = [] ∨ scan.results.senders = [])
    (hs : Send scan worker (outcome.counted, host) next more) :
    Books prober next (jobs ++ more) := by
  have hflight := inFlight_send jobs hexclusive hs
  cases hs <;> exact h.frame rfl rfl rfl rfl rfl hflight

/-- The collector counts a result. -/
theorem collect {reporter : Reporter} {result : Finding}
    (h : Books prober scan (.collect result :: jobs)) :
    Books prober (scan.collect reporter result) jobs := by
  have hflight : inFlight scan (.collect result :: jobs) = result :: inFlight scan jobs := by
    simp [inFlight, List.filterMap_cons, Job.result?, Job.outcome?]
  have hcounted := h.counted
  have hpassed := h.passed
  have hfindings := h.findings
  rw [hflight, List.length_cons] at hcounted
  rw [hflight] at hpassed
  unfold Scan.collect
  by_cases hresult : result.1.isReported
  · rw [if_pos hresult]
    refine ⟨h.started, h.outcome, ?_, ?_, ?_⟩
    · rw [hcounted]; simp only [inFlight]; omega
    · rw [hpassed]
      simp [reported, hresult, Scan.findings, Reporter.Call.finding?, inFlight]
    · simp [hfindings, Scan.findings, Reporter.Call.finding?]
  · rw [if_neg hresult]
    refine ⟨h.started, h.outcome, ?_, ?_, hfindings⟩
    · rw [hcounted]; simp only [inFlight]; omega
    · rw [hpassed]
      simp [reported, hresult, Scan.findings, inFlight]

theorem zipIdx_concat (probes : List String) (host : String) :
    (probes ++ [host]).zipIdx = probes.zipIdx ++ [(host, probes.length)] := by
  simp [List.zipIdx_append]

/-- A probe starts. -/
theorem start {worker : Nat} {host : String} (h : Books prober scan (.probe worker host :: jobs)) :
    Books prober
      { scan with
        probes := scan.probes ++ [host]
        running := scan.running ++ [⟨scan.probes.length, worker, host⟩] } jobs where
  started := by
    rw [zipIdx_concat, List.map_append, ← List.append_assoc]
    exact h.started.append_right _
  outcome := h.outcome
  counted := h.counted
  passed := h.passed
  findings := h.findings

/-- A probe starts and ends with an error at once. -/
theorem throw {worker : Nat} {host error : String} (notices : List Notice)
    (h : Books prober scan (.probe worker host :: jobs))
    (hprobe : prober scan.probes.length host = .thrown error) :
    Books prober
      { scan with
        probes := scan.probes ++ [host]
        endings := scan.endings ++ [(⟨scan.probes.length, worker, host⟩, .thrown error)]
        notices } (.forward worker host (.thrown error) :: jobs) where
  started := by
    rw [zipIdx_concat, List.map_append, List.append_assoc]
    refine (List.perm_append_comm.append_left _).trans ?_
    rw [← List.append_assoc]
    exact h.started.append_right _
  outcome := by
    intro ending hmem
    rcases List.mem_append.1 hmem with hmem | hmem
    · exact h.outcome ending hmem
    · rw [List.mem_singleton.1 hmem]
      exact hprobe.symm
  counted := by
    have hcounted := h.counted
    simp [inFlight, List.filterMap_cons, Job.result?, Job.outcome?] at hcounted ⊢
    omega
  passed := by
    -- The result of such a probe is not reported
    have hpassed := h.passed
    have hempty : Verdict.isReported .noIssue = false := by decide
    simp [inFlight, reported, resultOf, List.filterMap_cons, Job.result?, Job.outcome?,
      Outcome.counted, hempty, Scan.findings] at hpassed ⊢
    exact hpassed
  findings := h.findings

/-- A probe that runs ends. -/
theorem settle {probing : Probing} {outcome : Outcome} (h : Books prober scan jobs)
    (hmem : probing ∈ scan.running) (houtcome : outcome = prober probing.number probing.host) :
    Books prober
      { scan with
        running := scan.running.erase probing
        endings := scan.endings ++ [(probing, outcome)] }
      (jobs ++ [.forward probing.worker probing.host outcome]) where
  started := by
    refine List.Perm.trans ?_ h.started
    rw [List.map_append, List.append_assoc]
    exact (((List.perm_cons_erase hmem).map Probing.key).append_left _).symm
  outcome := by
    intro ending hending
    rcases List.mem_append.1 hending with hending | hending
    · exact h.outcome ending hending
    · rw [List.mem_singleton.1 hending]
      exact houtcome
  counted := by
    have hcounted := h.counted
    simp [inFlight, List.filterMap_cons, Job.result?, Job.outcome?] at hcounted ⊢
    omega
  passed := by
    have hpassed := h.passed
    simp [inFlight, reported, resultOf, List.filterMap_cons, Job.result?, Job.outcome?,
      Scan.findings] at hpassed ⊢
    rw [hpassed]
    simp
  findings := h.findings

/-- A probe that runs is known by its number. -/
theorem host_of_running (h : Books prober scan jobs) {probing : Probing}
    (hmem : probing ∈ scan.running) : scan.probes.getD probing.number "" = probing.host := by
  have hkey : probing.key ∈ scan.probes.zipIdx :=
    h.started.mem_iff.1 (List.mem_append_right _ (List.mem_map_of_mem hmem))
  rw [List.getD_eq_getElem?_getD, List.mk_mem_zipIdx_iff_getElem?.1 hkey]
  rfl

variable {reporter : Reporter} {job : Job}

/-- The end of the scan changes nothing for the books. -/
theorem conclude (h : Books prober scan (.conclude :: jobs)) :
    Books prober (scan.conclude reporter) jobs := by
  have hfindings := findings_conclude scan reporter
  obtain ⟨_, _, _, heq⟩ := conclude_eq scan reporter
  rw [heq] at hfindings ⊢
  exact h.frame rfl rfl rfl rfl hfindings rfl

/-- A job keeps the books. -/
theorem move (h : Books prober scan (job :: jobs))
    (hexclusive : scan.results.receivers = [] ∨ scan.results.senders = [])
    (hm : Move reporter prober scan job next more) : Books prober next (jobs ++ more) := by
  cases hm with
  | start => rw [List.append_nil]; exact h.start
  | throw hprobe hs => exact Books.send (h.throw _ hprobe) hexclusive hs
  | forward hs =>
    refine Books.send ?_ ?_ hs
    · exact h.frame rfl rfl rfl rfl rfl rfl
    · exact hexclusive
  | collect hl => exact h.collect.listen hl
  | conclude => rw [List.append_nil]; exact h.conclude
  | close hsenders =>
    refine h.frame rfl rfl rfl rfl rfl ?_
    simp [inFlight, List.filterMap_cons, List.filterMap_replicate, Job.result?, Job.outcome?,
      hsenders]
  | finish =>
    refine h.frame rfl rfl rfl rfl rfl ?_
    simp [inFlight, List.filterMap_cons, List.filterMap_replicate, Job.result?, Job.outcome?]
  | handOver | store | serve | dismiss | queue | leave | stop | lastReturned | returned =>
    refine h.frame rfl rfl rfl rfl rfl ?_
    simp [inFlight, List.filterMap_cons, Job.result?, Job.outcome?]

end Books

/-! ## Report -/

/-- The warnings about some probes that have ended. -/
def warnings (endings : List (Probing × Outcome)) : List Notice :=
  endings.flatMap fun ending => ending.2.notices ending.1.host

/-- The warnings about probes whose workers have not gone on. -/
def unlogged (jobs : List Job) : List Notice :=
  (jobs.filterMap Job.outcome?).flatMap fun (outcome, host) => outcome.notices host

/-- What was logged since the start of a scan, and what a reporter was told that does not fail. -/
structure Report (start : Notice) (scan : Scan) (jobs : List Job) : Prop where
  failure : scan.failure = .undefined
  result : ∀ result, scan.result = some result → result = .ok scan.summary
  told : scan.told = scan.findings.map .finding
    ++ if scan.result.isSome then [.done scan.summary] else []
  logged : ∃ logged, (warnings scan.endings).Perm (logged ++ unlogged jobs)
    ∧ scan.notices = start :: logged
      ++ if scan.result.isSome then [.scanComplete scan.summary] else []

namespace Report
variable {start : Notice} {scan next : Scan} {jobs more : List Job}

/-- Nothing changes for the report. -/
theorem frame (h : Report start scan jobs) (hfailure : next.failure = scan.failure)
    (hresult : next.result = scan.result) (hsummary : next.summary = scan.summary)
    (htold : next.told = scan.told) (hendings : next.endings = scan.endings)
    (hnotices : next.notices = scan.notices) (hmore : unlogged more = unlogged jobs) :
    Report start next more where
  failure := by rw [hfailure]; exact h.failure
  result := by rw [hresult, hsummary]; exact h.result
  told := by rw [findings, htold, hresult, hsummary]; exact h.told
  logged := by rw [hendings, hnotices, hresult, hsummary, hmore]; exact h.logged

theorem of_alike {jobs' : List Job} (h : Report start scan jobs) (ha : Alike jobs jobs') :
    Report start scan jobs' :=
  h.frame rfl rfl rfl rfl rfl rfl (by rw [unlogged, unlogged, ha.outcomes_eq])

theorem listen (h : Report start scan jobs) (hl : Listen scan next more) :
    Report start next (jobs ++ more) := by
  cases hl <;> exact h.frame rfl rfl rfl rfl rfl rfl
    (by simp [unlogged, List.filterMap_cons, Job.outcome?])

theorem send {worker : Nat} {result : Finding} (h : Report start scan jobs)
    (hs : Send scan worker result next more) : Report start next (jobs ++ more) := by
  cases hs <;> exact h.frame rfl rfl rfl rfl rfl rfl
    (by simp [unlogged, List.filterMap_cons, Job.outcome?])

/-- As long as the scan goes on, the reporter was told findings only. -/
theorem told_of_going (h : Report start scan jobs) (hgoing : scan.result = none) :
    (scan.told.filterMap Reporter.Call.finding?).map .finding = scan.told := by
  have htold := h.told
  rw [hgoing] at htold
  exact (htold.trans (List.append_nil _)).symm

theorem logged_of_going (h : Report start scan jobs) (hgoing : scan.result = none) :
    ∃ logged, (warnings scan.endings).Perm (logged ++ unlogged jobs)
      ∧ scan.notices = start :: logged := by
  obtain ⟨logged, hperm, hnotices⟩ := h.logged
  rw [hgoing] at hnotices
  exact ⟨logged, hperm, hnotices.trans (List.append_nil _)⟩

/-- Warnings are logged, and nothing else happens. -/
theorem log (h : Report start scan jobs) (hgoing : scan.result = none) (notices : List Notice)
    (hresult : next.result = none) (hfailure : next.failure = scan.failure)
    (htold : next.told = scan.told) (hnotices : next.notices = scan.notices ++ notices)
    (hwarnings : ∀ logged, (warnings scan.endings).Perm (logged ++ unlogged jobs) →
      (warnings next.endings).Perm (logged ++ notices ++ unlogged more)) :
    Report start next more where
  failure := by rw [hfailure]; exact h.failure
  result := by simp [hresult]
  told := by
    have hbefore := h.told_of_going hgoing
    rw [hresult, findings, htold, hbefore]
    exact (List.append_nil _).symm
  logged := by
    obtain ⟨logged, hperm, hbefore⟩ := h.logged_of_going hgoing
    exact ⟨logged ++ notices, hwarnings logged hperm, by rw [hresult, hnotices, hbefore]; simp⟩

/-- The collector counts a result, and tells the reporter if it is a finding. -/
theorem collect {result : Finding} (h : Report start scan (.collect result :: jobs))
    (hgoing : scan.result = none) : Report start (scan.collect .reliable result) jobs := by
  have htold := h.told_of_going hgoing
  obtain ⟨logged, hperm, hnotices⟩ := h.logged_of_going hgoing
  unfold Scan.collect
  by_cases hresult : result.1.isReported
  · rw [if_pos hresult]
    refine ⟨by simp [h.failure, Reporter.reliable], by simp [hgoing], ?_, logged, hperm, ?_⟩
    · rw [findings, filterMap_finding?_concat, List.map_append, htold, hgoing]
      simp
    · simpa [hgoing] using hnotices
  · rw [if_neg hresult]
    refine ⟨h.failure, by simp [hgoing], ?_, logged, hperm, ?_⟩
    · rw [findings, htold, hgoing]
      simp
    · simpa [hgoing] using hnotices

/-- The reporter is told the end. -/
theorem conclude (h : Report start scan (.conclude :: jobs)) (hgoing : scan.result = none) :
    Report start (scan.conclude .reliable) jobs := by
  have htold := h.told_of_going hgoing
  obtain ⟨logged, hperm, hnotices⟩ := h.logged_of_going hgoing
  rw [conclude_of_done h.failure rfl]
  refine ⟨h.failure, by simp, ?_, logged, hperm, ?_⟩
  · rw [findings, filterMap_finding?_done, htold]
    simp
  · rw [hnotices]
    simp

/-- A probe starts and ends with an error at once. -/
theorem throw {worker number : Nat} {host error : String} (probes : List String)
    (h : Report start scan (.probe worker host :: jobs)) (hgoing : scan.result = none) :
    Report start
      { scan with
        probes
        endings := scan.endings ++ [(⟨number, worker, host⟩, .thrown error)]
        notices := scan.notices ++ (Outcome.thrown error).notices host } jobs := by
  refine h.log hgoing ((Outcome.thrown error).notices host) hgoing rfl rfl rfl ?_
  intro logged hperm
  have hwarnings : warnings (scan.endings ++ [(⟨number, worker, host⟩, .thrown error)])
      = warnings scan.endings ++ (Outcome.thrown error).notices host := by
    simp [warnings]
  rw [hwarnings, List.append_assoc]
  refine (hperm.append_right _).trans ?_
  rw [List.append_assoc]
  exact List.perm_append_comm.append_left logged

/-- A worker goes on with what a probe came to. -/
theorem forward {worker : Nat} {host : String} {outcome : Outcome}
    (h : Report start scan (.forward worker host outcome :: jobs)) (hgoing : scan.result = none) :
    Report start { scan with notices := scan.notices ++ outcome.notices host } jobs := by
  refine h.log hgoing (outcome.notices host) hgoing rfl rfl rfl ?_
  intro logged hperm
  rw [List.append_assoc]
  exact hperm

/-- A probe that runs ends. -/
theorem settle {probing : Probing} {outcome : Outcome} (running : List Probing)
    (h : Report start scan jobs) (hgoing : scan.result = none) :
    Report start { scan with running, endings := scan.endings ++ [(probing, outcome)] }
      (jobs ++ [.forward probing.worker probing.host outcome]) := by
  refine h.log hgoing [] hgoing rfl rfl (List.append_nil _).symm ?_
  intro logged hperm
  have hwarnings : warnings (scan.endings ++ [(probing, outcome)])
      = warnings scan.endings ++ outcome.notices probing.host := by
    simp [warnings]
  have hmore : unlogged (jobs ++ [.forward probing.worker probing.host outcome])
      = unlogged jobs ++ outcome.notices probing.host := by
    simp [unlogged, Job.outcome?]
  rw [hwarnings, hmore, List.append_nil, ← List.append_assoc]
  exact hperm.append_right _

variable {prober : Prober} {job : Job}

/-- A job keeps the report, as long as nobody goes on after the end. -/
theorem move (h : Report start scan (job :: jobs))
    (hgoing : job.isWorking = true ∨ job.isCollector = true → scan.result = none)
    (hm : Move .reliable prober scan job next more) : Report start next (jobs ++ more) := by
  cases hm with
  | throw _ hs => exact (h.throw _ (hgoing (Or.inl rfl))).send hs
  | forward hs => exact (h.forward (hgoing (Or.inl rfl))).send hs
  | collect hl => exact (h.collect (hgoing (Or.inr rfl))).listen hl
  | conclude => rw [List.append_nil]; exact h.conclude (hgoing (Or.inr rfl))
  | finish | close =>
    refine h.frame rfl rfl rfl rfl rfl rfl ?_
    simp [unlogged, List.filterMap_cons, List.filterMap_replicate, Job.outcome?]
  | start | handOver | store | serve | dismiss | queue | leave | stop | lastReturned | returned =>
    refine h.frame rfl rfl rfl rfl rfl rfl ?_
    simp [unlogged, List.filterMap_cons, Job.outcome?]

end Report

end Scan

end ServedChain
