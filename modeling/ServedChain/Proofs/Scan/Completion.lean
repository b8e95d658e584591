/-
  The completion of a scan.

  * `Complete` says what a scan has to do;
  * `Sound.rest_of_ended`: after the end nothing is left to do;
  * `Sound.complete`: a scan at rest has done it;
  * `complete_after` puts this together with `prepare` and `drain`.
-/
import Mathlib.Data.List.Basic
import ServedChain.Proofs.Scan.Effort
import ServedChain.Proofs.Scan.Sound

namespace ServedChain

/-! ## What a scan has to do -/

namespace Outcome

/-- The finding about a host whose probe came to this: the verdict, unless it is empty. -/
def finding? : Outcome → (host : String) → Option Finding
  | verdict v, host => if v = "" then none else some (v, host)
  | rejected _, _ | thrown _, _ => none

/-- The warning about a host whose probe came to this: its error, if there is one. -/
def warning? : Outcome → (host : String) → Option Notice
  | verdict _, _ => none
  | rejected error, host | thrown error, host => some (.probeFailed error host)

/-- What counts is passed on if it is to be reported. -/
theorem finding?_eq (outcome : Outcome) (host : String) : outcome.finding? host
    = Option.guard (fun result : Finding => result.1.isReported) (outcome.counted, host) := by
  cases outcome with
  | verdict v =>
    by_cases hv : v = ""
    · subst hv; rfl
    · simp [finding?, counted, Verdict.isReported, Verdict.noIssue, hv]
  | rejected | thrown => rfl

theorem notices_eq (outcome : Outcome) (host : String) :
    outcome.notices host = (outcome.warning? host).toList := by
  cases outcome <;> rfl

end Outcome

namespace Scan

/-- What a host comes to, with the number of its probe. -/
def resultAt (prober : Prober) (entry : String × Nat) : Finding :=
  ((prober entry.2 entry.1).counted, entry.1)

/-- The findings among some hosts, in the order of the list. -/
def expected (prober : Prober) (hosts : List String) : List Finding :=
  hosts.zipIdx.filterMap fun (host, number) => (prober number host).finding? host

/-- The warnings about some hosts, in the order of the list. -/
def expectedWarnings (prober : Prober) (hosts : List String) : List Notice :=
  hosts.zipIdx.filterMap fun (host, number) => (prober number host).warning? host

theorem expected_eq (prober : Prober) (hosts : List String) :
    expected prober hosts = reported (hosts.zipIdx.map (resultAt prober)) := by
  rw [reported, ← List.filterMap_eq_filter, List.filterMap_map]
  exact List.filterMap_congr fun _ _ => Outcome.finding?_eq ..

theorem expectedWarnings_eq (prober : Prober) (hosts : List String) :
    expectedWarnings prober hosts
      = hosts.zipIdx.flatMap fun (host, number) => (prober number host).notices host := by
  simp only [Outcome.notices_eq]
  exact List.filterMap_eq_flatMap_toList ..

/-- A scan that has done all that it was to do. -/
structure Complete (hosts : List String) (workers : Nat) (prober : Prober) (scan : Scan) :
    Prop where
  /-- Each host was probed once, in the order of the list -/
  probes : scan.probes = hosts
  /-- Each finding was passed on once, and nothing else -/
  findings : scan.findings.Perm (expected prober hosts)
  result : scan.result = some (.ok ⟨hosts.length, (expected prober hosts).length⟩)
  /-- The reporter was told the end once, after all findings -/
  told : scan.told = scan.findings.map .finding
    ++ [.done ⟨hosts.length, (expected prober hosts).length⟩]
  /-- Each error was logged once -/
  notices : ∃ logged, logged.Perm (expectedWarnings prober hosts)
    ∧ scan.notices = .scanStarted hosts.length workers :: logged
      ++ [.scanComplete ⟨hosts.length, (expected prober hosts).length⟩]

/-! ## After the end -/

/-- After the end nobody has anything to do. -/
theorem Sound.rest_of_ended {hosts : List String} {workers : Nat} {prober : Prober} {scan : Scan}
    {jobs : List Job} {busy : Bool} (h : Sound hosts workers prober scan jobs busy)
    (hended : scan.ended = true) : jobs = [] ∧ scan.running = [] := by
  have hresult : scan.result.isSome.toNat = 1 := congrArg Bool.toNat hended
  have hclosed : scan.results.closed.toNat = 1 := congrArg Bool.toNat (h.parties.ending (by omega))
  have hclosing := h.parties.closing
  have hcollector := h.parties.collector
  have hactive := h.parties.active
  have hnone : scan.active = 0 ∧ jobs.count .close = 0 := by
    split at hclosing <;> omega
  rw [hnone.1, working] at hactive
  refine ⟨List.eq_nil_iff_forall_not_mem.2 fun job hjob => ?_,
    List.length_eq_zero_iff.1 (by omega)⟩
  have hworking : jobs.countP Job.isWorking = 0 := by omega
  have hleaving : jobs.countP Job.isLeaving = 0 := by omega
  have hbusy : jobs.countP Job.isCollector = 0 := by omega
  cases job with
  | probe | forward | ask => exact List.countP_eq_zero.1 hworking _ hjob rfl
  | produce | leave | returned => exact List.countP_eq_zero.1 hleaving _ hjob rfl
  | collect | stop | conclude => exact List.countP_eq_zero.1 hbusy _ hjob rfl
  | close => exact List.count_eq_zero.1 hnone.2 hjob
  | abort => exact List.count_eq_zero.1 h.parties.sane hjob

/-! ## Rest -/

namespace Sound
variable {hosts : List String} {workers : Nat} {prober : Prober} {scan : Scan}
  (h : Sound hosts workers prober scan [] false)
include h

/-- At rest the producer has closed the channel of hosts. -/
theorem work_closed : scan.work.closed = true := by
  have hproducing := h.supply.producing
  cases hclosed : scan.work.closed with
  | true => rfl
  | false => simp [hclosed] at hproducing

/-- At rest no worker waits for the collector: the collector waits, or has left. -/
theorem senders_eq_nil : scan.results.senders = [] := by
  rcases h.parties.exclusive with hreceivers | hsenders
  · have hcollector := h.parties.collector
    rw [hreceivers] at hcollector
    simp only [List.length_nil, List.countP_nil, Bool.toNat_false] at hcollector
    have hended : [].countP Job.isEnding + scan.result.isSome.toNat ≠ 0 := by
      rw [List.countP_nil]
      omega
    exact (h.parties.closed (h.parties.ending hended)).2
  · exact hsenders

/-- At rest whoever works waits for a probe. -/
theorem working_eq : working scan [] = scan.running.length := by
  obtain ⟨hreceivers, -⟩ := h.supply.closed h.work_closed
  simp [working, hreceivers, h.senders_eq_nil]

variable (hrunning : scan.running = [])
include hrunning

theorem working_eq_zero : working scan [] = 0 := by
  rw [h.working_eq, hrunning]
  rfl

/-- At rest the collector has left. -/
theorem result_isSome : scan.result.isSome = true := by
  have hactive : scan.active = 0 := by
    rw [h.parties.active, h.working_eq_zero hrunning]
    rfl
  have hclosing := h.parties.closing
  rw [hactive, List.count_nil, if_pos rfl, Nat.zero_add] at hclosing
  have hclosed : scan.results.closed = true := by
    cases hclosed : scan.results.closed with
    | true => rfl
    | false => simp [hclosed] at hclosing
  have hcollector := h.parties.collector
  rw [(h.parties.closed hclosed).1] at hcollector
  cases hresult : scan.result.isSome with
  | true => rfl
  | false => simp [hresult] at hcollector

/-- At rest all hosts have been probed, since there was a worker. -/
theorem probes_eq (hworkers : 0 < workers) : scan.probes = hosts := by
  obtain ⟨-, hunsent⟩ := h.supply.closed h.work_closed
  have hbuffer : scan.work.buffer = [] := by
    rcases h.parties.working_eq with heq | ⟨-, hbuffer⟩
    · rw [h.working_eq_zero hrunning] at heq
      omega
    · exact hbuffer
  have horder := h.supply.order
  rw [hbuffer, hunsent] at horder
  simpa using horder.symm

omit hrunning in
theorem inFlight_eq_nil : inFlight scan [] = [] := by
  simp [inFlight, h.senders_eq_nil]

/-- At rest the probes that have ended are those of all hosts. -/
theorem endings_perm (hworkers : 0 < workers) :
    (scan.endings.map fun ending => Probing.key ending.1).Perm hosts.zipIdx := by
  have hstarted := h.books.started
  rw [hrunning, List.map_nil, List.append_nil, h.probes_eq hrunning hworkers] at hstarted
  exact hstarted

omit hrunning in
theorem map_resultOf : scan.endings.map resultOf
    = (scan.endings.map fun ending => Probing.key ending.1).map (resultAt prober) := by
  rw [List.map_map]
  refine List.map_congr_left fun ending hmem => ?_
  rw [resultOf, h.books.outcome ending hmem]
  rfl

omit hrunning in
theorem warnings_eq : warnings scan.endings
    = (scan.endings.map fun ending => Probing.key ending.1).flatMap fun (host, number) =>
        (prober number host).notices host := by
  rw [warnings, List.flatMap_map, List.flatMap_def, List.flatMap_def]
  refine congrArg List.flatten (List.map_congr_left fun ending hmem => ?_)
  rw [h.books.outcome ending hmem]
  rfl

/-- **A scan at rest is complete.** -/
theorem complete (hworkers : 0 < workers) : Complete hosts workers prober scan := by
  have hperm := h.endings_perm hrunning hworkers
  have hended := h.result_isSome hrunning
  have hfindings : scan.findings.Perm (expected prober hosts) := by
    have hpassed := h.books.passed
    rw [h.inFlight_eq_nil, h.map_resultOf] at hpassed
    rw [← List.append_nil scan.findings, expected_eq]
    refine List.Perm.trans (.of_eq hpassed.symm) ?_
    exact (hperm.map _).filter _
  have hsummary : scan.summary = ⟨hosts.length, (expected prober hosts).length⟩ := by
    have hcounted := h.books.counted
    have hlength := hperm.length_eq
    rw [h.inFlight_eq_nil, List.length_nil, Nat.add_zero] at hcounted
    rw [List.length_map, List.length_zipIdx, hcounted] at hlength
    rw [← hlength, ← hfindings.length_eq, ← h.books.findings]
  obtain ⟨result, hresult⟩ := Option.isSome_iff_exists.1 hended
  obtain ⟨logged, hlogged, hnotices⟩ := h.report.logged
  have htold := h.report.told
  rw [if_pos hended, hsummary] at htold hnotices
  refine ⟨h.probes_eq hrunning hworkers, hfindings, ?_, htold, logged, ?_, hnotices⟩
  · rw [hresult, h.report.result result hresult, hsummary]
  · have hnone : unlogged [] = [] := rfl
    rw [hnone, List.append_nil, h.warnings_eq] at hlogged
    rw [expectedWarnings_eq]
    exact hlogged.symm.trans (hperm.flatMap_right _)

end Sound

/-- A scan of which no job is left is at rest. -/
theorem Ready.sound_of_rest {hosts : List String} {workers : Nat} {prober : Prober} {scan : Scan}
    {busy : Bool} (h : Ready hosts workers prober scan [] busy)
    (hjobs : scan.jobs = []) : Sound hosts workers prober scan [] busy := by
  have hsound := h.sound
  rw [hjobs] at hsound
  exact hsound

/-! ## Completion -/

section
variable (reporter : Reporter) (prober : Prober)

/-- To go on as far as possible is a course of steps. -/
theorem exists_drain_eq (scan : Scan) :
    ∃ events, scan.drain reporter prober = scan.run reporter prober events := by
  suffices h : ∀ count scan,
      ∃ events, stepTimes reporter prober count scan = scan.run reporter prober events from h _ _
  intro count
  induction count with
  | zero => exact fun scan => ⟨[], rfl⟩
  | succ count ih =>
    intro scan
    rw [stepTimes]
    split
    · exact ⟨[], rfl⟩
    · obtain ⟨events, heq⟩ := ih (scan.step reporter prober)
      exact ⟨.step :: events, heq⟩

end

/-- The scan that a number of workers starts. -/
theorem prepare_eq_initial (hosts : List String) {workers : Nat} {number : Binary64}
    (hworkers : 0 < workers) (hlimit : workers < workerLimit)
    (hnumber : number.toInt? = some (workers : Int)) :
    prepare hosts number = .ok (initial hosts workers) := by
  obtain ⟨n, rfl⟩ := Nat.exists_eq_succ_of_ne_zero (Nat.ne_of_gt hworkers)
  unfold prepare
  rw [hnumber]
  exact if_pos hlimit

/-- **Completion**: whatever happens to a scan, once no job is left and no probe runs each host
    was probed once, each finding was passed on once, and the end was reported after all of
    them.  No job is left after some steps, and no course goes on forever. -/
theorem complete_after (hosts : List String) (workers : Nat) (prober : Prober)
    (events : List Event) (hworkers : 0 < workers) (hlimit : workers < workerLimit) :
    (∀ number : Binary64, number.toInt? = some (workers : Int) →
      prepare hosts number = .ok (initial hosts workers))
    ∧ (∀ course, Course .reliable prober (initial hosts workers) course →
      course.length ≤ (initial hosts workers).effort)
    ∧ let scan := ((initial hosts workers).run .reliable prober events).drain .reliable prober
      scan.jobs = [] ∧ (scan.running = [] → Complete hosts workers prober scan) := by
  refine ⟨fun number hnumber => prepare_eq_initial hosts hworkers hlimit hnumber,
    fun course hcourse => hcourse.length_le, jobs_drain .reliable prober _, fun hrunning => ?_⟩
  have hrun := (Ready.initial hosts workers prober).run events
  obtain ⟨steps, hsteps⟩ := exists_drain_eq .reliable prober
    ((initial hosts workers).run .reliable prober events)
  have hdrained := (hrun.run steps).sound
  rw [← hsteps, jobs_drain] at hdrained
  exact hdrained.complete hrunning hworkers

/-- A finding, an error that comes later, one that comes at once, and no finding. -/
def mixed : Prober
  | 0, _ => .verdict "leaf"
  | 1, _ => .rejected "reset"
  | 2, _ => .thrown "refused"
  | _, _ => .verdict ""

/-- The second probe ends before the first one. -/
def overtaken : List Event :=
  List.replicate 30 .step ++ [.settle 1] ++ List.replicate 30 .step ++ [.settle 0, .settle 3]

/-- A host that occurs twice, two workers, and a probe that overtakes another. -/
theorem complete_after_overtaken :
    let scan := ((initial ["a", "b", "a", "c"] 2).run .reliable mixed overtaken).drain .reliable
      mixed
    prepare ["a", "b", "a", "c"] (.ofNat 2) = .ok (initial ["a", "b", "a", "c"] 2)
    ∧ scan.probes = ["a", "b", "a", "c"] ∧ scan.findings = [("leaf", "a")]
    ∧ scan.result = some (.ok ⟨4, 1⟩) ∧ scan.told = [.finding ("leaf", "a"), .done ⟨4, 1⟩]
    ∧ ∃ logged, logged.Perm [.probeFailed "reset" "b", .probeFailed "refused" "a"]
      ∧ scan.notices = .scanStarted 4 2 :: logged ++ [.scanComplete ⟨4, 1⟩] := by
  intro scan
  obtain ⟨hprepare, -, -, hcomplete⟩ :=
    complete_after ["a", "b", "a", "c"] 2 mixed overtaken (by decide) (by decide)
  obtain ⟨hprobes, hfindings, hresult, htold, hnotices⟩ := hcomplete (by decide +kernel)
  have hexpected : expected mixed ["a", "b", "a", "c"] = [("leaf", "a")] := by decide +kernel
  have hwarnings : expectedWarnings mixed ["a", "b", "a", "c"]
      = [.probeFailed "reset" "b", .probeFailed "refused" "a"] := by decide +kernel
  rw [hexpected] at hfindings hresult htold hnotices
  have hone : scan.findings = [("leaf", "a")] := List.perm_singleton.1 hfindings
  refine ⟨hprepare (.ofNat 2) (by decide), hprobes, hone, hresult, ?_, ?_⟩
  · rw [show scan.told = _ from htold, hone]
    rfl
  · rwa [hwarnings] at hnotices

end Scan

end ServedChain
