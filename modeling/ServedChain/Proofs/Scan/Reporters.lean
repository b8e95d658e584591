/-
  A reporter that fails changes nothing but the end of a scan.

  * `EndsBy` says how a scan ought to end, by what its reporter did: with the first that
    was thrown at a finding;
  * `EndsWith` says how a scan ends, by what is kept of all that was thrown;
    `endsBy_iff`: the two differ if the first that was thrown is lost;
  * `reporter_failures_change_the_end_only` compares a reporter with one that fails
    at no finding.
-/
import ServedChain.Proofs.Scan.Retelling

namespace ServedChain

/-- A reporter that fails at no finding, and at the end where another one does. -/
def Reporter.sparing (reporter : Reporter) : Reporter :=
  { reporter with findingError := fun _ => none }

namespace Scan

/-! ## The end -/

/-- How a scan of some hosts ought to end, by what its reporter did. -/
inductive EndsBy (reporter : Reporter) (hosts : List String) (scan : Scan) : Prop
  /-- With the first that was thrown at a finding; the reporter is not told the end -/
  | failed {number : Nat} {thrown : Thrown} : number < scan.findings.length →
    reporter.findingError number = some thrown →
    (∀ earlier < number, reporter.findingError earlier = none) →
    scan.told = scan.findings.map .finding →
    scan.result = some (.error (.reporterFailed thrown)) → EndsBy reporter hosts scan
  /-- With what was thrown by a reporter that was told the end, once and after all findings -/
  | failedAtEnd {thrown : Thrown} :
    (∀ number < scan.findings.length, reporter.findingError number = none) →
    reporter.doneError = some thrown →
    scan.told = scan.findings.map .finding ++ [.done ⟨hosts.length, scan.findings.length⟩] →
    scan.result = some (.error (.reporterFailed thrown)) → EndsBy reporter hosts scan
  /-- With the numbers of hosts and findings, which the reporter was told -/
  | told : (∀ number < scan.findings.length, reporter.findingError number = none) →
    reporter.doneError = none →
    scan.told = scan.findings.map .finding ++ [.done ⟨hosts.length, scan.findings.length⟩] →
    scan.result = some (.ok ⟨hosts.length, scan.findings.length⟩) → EndsBy reporter hosts scan

/-- How a scan of some hosts ends, by what is kept of all that its reporter threw at findings. -/
inductive EndsWith (reporter : Reporter) (hosts : List String) (scan : Scan) : Thrown → Prop
  /-- With what is kept; the reporter is not told the end -/
  | failed {kept : Thrown} : kept ≠ .undefined →
    scan.told = scan.findings.map .finding →
    scan.result = some (.error (.reporterFailed kept)) → EndsWith reporter hosts scan kept
  /-- As if nothing had been thrown, with what the reporter throws at the end -/
  | failedAtEnd {thrown : Thrown} : reporter.doneError = some thrown →
    scan.told = scan.findings.map .finding ++ [.done ⟨hosts.length, scan.findings.length⟩] →
    scan.result = some (.error (.reporterFailed thrown)) →
    EndsWith reporter hosts scan .undefined
  /-- As if nothing had been thrown, with the numbers of hosts and findings -/
  | told : reporter.doneError = none →
    scan.told = scan.findings.map .finding ++ [.done ⟨hosts.length, scan.findings.length⟩] →
    scan.result = some (.ok ⟨hosts.length, scan.findings.length⟩) →
    EndsWith reporter hosts scan .undefined

section
variable {hosts : List String} {workers : Nat} {reporter : Reporter} {prober : Prober}
  {scan : Scan}

/-- The end of a scan whose reporter cannot fail, told anew. -/
theorem endsWith_retold (hended : scan.ended = true)
    (hsummary : scan.summary = ⟨hosts.length, scan.findings.length⟩) :
    EndsWith reporter hosts (scan.retold reporter)
      (reporter.kept (scan.retold reporter).findings.length) := by
  rw [findings_retold]
  let last : Scan := { scan.failing reporter with notices := scan.notices.dropLast }
  have hretold : scan.retold reporter = last.conclude reporter := if_pos hended
  have hfindings := findings_retold reporter scan
  rw [hretold] at hfindings ⊢
  by_cases hkept : last.failure = .undefined
  · rw [show reporter.kept scan.findings.length = .undefined from hkept]
    rcases hdone : reporter.doneError with _ | thrown
    · rw [conclude_of_done hkept hdone] at hfindings ⊢
      exact .told hdone (by rw [hfindings, ← hsummary]; rfl) (by rw [hfindings, ← hsummary]; rfl)
    · rw [conclude_of_doneError hkept hdone] at hfindings ⊢
      exact .failedAtEnd hdone (by rw [hfindings, ← hsummary]; rfl) rfl
  · rw [conclude_of_failure hkept] at hfindings ⊢
    exact .failed hkept (by rw [hfindings]; rfl) rfl

/-- A scan ends as it ought to if the first that was thrown stays, and only then. -/
theorem endsBy_iff (h : EndsWith reporter hosts scan (reporter.kept scan.findings.length)) :
    EndsBy reporter hosts scan ↔ Thrown.FirstStays (reporter.thrown scan.findings.length) := by
  rcases hthrown : reporter.thrown scan.findings.length with _ | ⟨first, rest⟩
  · -- Nothing was thrown
    have hnone := Reporter.thrown_eq_nil_iff.1 hthrown
    refine iff_of_true ?_ trivial
    rw [Reporter.kept, hthrown] at h
    cases h with
    | failed hne => exact absurd rfl hne
    | failedAtEnd hdone htold hresult => exact .failedAtEnd hnone hdone htold hresult
    | told hdone htold hresult => exact .told hnone hdone htold hresult
  · obtain ⟨number, hnumber, herror, hearlier⟩ := Reporter.exists_of_thrown_eq_cons hthrown
    rw [Thrown.firstStays_cons_iff, ← hthrown, ← Reporter.kept]
    have hsome : ¬∀ number < scan.findings.length, reporter.findingError number = none := by
      intro hnone
      rw [hnone number hnumber] at herror
      cases herror
    constructor
    · intro hends
      cases hends with
      | failedAtEnd hnone | told hnone => exact absurd hnone hsome
      | failed _ herror' hearlier' htold hresult =>
        obtain rfl := Reporter.eq_of_first herror hearlier herror' hearlier'
        generalize reporter.kept scan.findings.length = kept at h ⊢
        cases h with
        | failed hne _ hkept =>
          rw [hresult] at hkept
          cases hkept
          exact ⟨hne, rfl⟩
        | failedAtEnd _ htold' | told _ htold' =>
          rw [htold] at htold'
          exact absurd htold' (by simp)
    · rintro ⟨hne, hkept⟩
      rw [hkept] at h
      cases h with
      | failed _ htold hresult => exact .failed hnumber herror hearlier htold hresult
      | failedAtEnd | told => exact absurd rfl hne

/-- As long as a scan goes on the reporter was told findings only. -/
theorem told_retold_of_going (hgoing : scan.ended = false) :
    (scan.retold reporter).told = scan.findings.map .finding := by
  rw [retold, if_neg (by simp [hgoing])]
  rfl

/-- What the collector has counted at the end. -/
theorem Sound.summary_of_ended {jobs : List Job}
    (h : Sound hosts workers prober scan jobs false) (hworkers : 0 < workers)
    (hended : scan.ended = true) :
    scan.summary = ⟨hosts.length, scan.findings.length⟩ := by
  obtain ⟨rfl, hrunning⟩ := h.rest_of_ended hended
  obtain ⟨-, hfindings, hresult, -, -⟩ := h.complete hrunning hworkers
  have hsummary := h.report.result _ hresult
  rw [hfindings.length_eq]
  exact (Except.ok.inj hsummary).symm

/-- To go on as far as possible is a course of its own. -/
theorem exists_run_eq_drain (hosts : List String) (workers : Nat) (reporter : Reporter)
    (prober : Prober) (events : List Event) :
    ∃ course, ((initial hosts workers).run reporter prober events).drain reporter prober
      = (initial hosts workers).run reporter prober course := by
  obtain ⟨steps, hsteps⟩ := exists_drain_eq reporter prober
    ((initial hosts workers).run reporter prober events)
  exact ⟨events ++ steps, hsteps.trans (List.foldl_append ..).symm⟩

/-- A scan at rest whose probes have ended has ended, whatever its reporter did. -/
theorem ended_of_rest (course : List Event)
    (hjobs : ((initial hosts workers).run reporter prober course).jobs = [])
    (hrunning : ((initial hosts workers).run reporter prober course).running = []) :
    ((initial hosts workers).run reporter prober course).ended = true := by
  obtain ⟨calm, hscan, hready⟩ := exists_ready hosts workers reporter prober course
  rw [hscan, jobs_retold] at hjobs
  rw [hscan, running_retold] at hrunning
  rw [hscan, ended_retold]
  exact (hready.sound_of_rest hjobs).result_isSome hrunning

end

/-- **A reporter that fails changes the end only**: whatever happens, a scan starts the same
    probes, passes on the same findings and is at its end at the same time as if its reporter
    failed at no finding.  At its end it comes to the first value that was thrown at a finding,
    without one to the last that was thrown, and then the reporter is not told the end; but if that
    is `undefined`, or nothing was thrown, it is told the end once.  So a scan comes to the first
    that was thrown exactly if that is a value, or a `null` that no value follows and behind which
    the last is `null` too.  Once no job is left and no probe runs the scan has ended. -/
theorem reporter_failures_change_the_end_only (hosts : List String) (workers : Nat)
    (reporter : Reporter) (prober : Prober) (events : List Event) (hworkers : 0 < workers)
    (hlimit : workers < workerLimit) :
    (∀ number : Binary64, number.toInt? = some (workers : Int) →
      prepare hosts number = .ok (initial hosts workers))
    ∧ let scan := (initial hosts workers).run reporter prober events
      let spared := (initial hosts workers).run reporter.sparing prober events
      let thrown := reporter.thrown scan.findings.length
      scan.probes = spared.probes ∧ scan.running = spared.running
      ∧ scan.endings = spared.endings ∧ scan.jobs = spared.jobs
      ∧ scan.findings = spared.findings ∧ scan.ended = spared.ended
      ∧ (scan.ended = true → EndsWith reporter hosts scan
        ((thrown.find? Thrown.isValue).getD (thrown.getLastD .undefined)))
      ∧ (scan.ended = true → (EndsBy reporter hosts scan ↔ Thrown.FirstStays thrown))
      ∧ (scan.ended = false → scan.told = scan.findings.map .finding)
      ∧ (scan.drain reporter prober).jobs = []
      ∧ ((scan.drain reporter prober).running = [] →
        (scan.drain reporter prober).ended = true) := by
  refine ⟨fun number hnumber => prepare_eq_initial hosts hworkers hlimit hnumber, ?_⟩
  intro scan spared thrown
  -- Both scans are the one whose reporter cannot fail, told anew
  have hready := (Ready.initial hosts workers prober).run events
  have hscan : scan = _ := run_eq_retold hosts workers reporter prober events
  have hspared : spared = _ := run_eq_retold hosts workers reporter.sparing prober events
  have hends : scan.ended = true →
      EndsWith reporter hosts scan (reporter.kept scan.findings.length) := by
    intro hended
    rw [hscan, ended_retold] at hended
    rw [hscan]
    exact endsWith_retold hended (hready.sound.summary_of_ended hworkers hended)
  refine ⟨?_, ?_, ?_, ?_, ?_, ?_, fun hended => ?_, fun hended => endsBy_iff (hends hended),
    fun hgoing => ?_, jobs_drain reporter prober scan, fun hrunning => ?_⟩
  · rw [hscan, hspared, probes_retold, probes_retold]
  · rw [hscan, hspared, running_retold, running_retold]
  · rw [hscan, hspared, endings_retold, endings_retold]
  · rw [hscan, hspared, jobs_retold, jobs_retold]
  · rw [hscan, hspared, findings_retold, findings_retold]
  · rw [hscan, hspared, ended_retold, ended_retold]
  · rw [← Thrown.foldl_keep]
    exact hends hended
  · rw [hscan, ended_retold] at hgoing
    rw [hscan, findings_retold]
    exact told_retold_of_going hgoing
  · obtain ⟨course, hcourse⟩ := exists_run_eq_drain hosts workers reporter prober events
    have hjobs := jobs_drain reporter prober scan
    rw [hcourse] at hrunning hjobs ⊢
    exact ended_of_rest course hjobs hrunning

/-- A reporter that fails at the second and the third finding, and at the end. -/
def moody : Reporter where
  findingError
    | 1 => some "second"
    | 2 => some "third"
    | _ => none
  doneError := some "end"

/-- Three findings. -/
def fruitful : Prober := fun _ host => .verdict host

/-- The probes end in reverse, and the first two at once. -/
def reversed : List Event :=
  List.replicate 30 .step ++ [.settle 1, .settle 0] ++ List.replicate 30 .step ++ [.settle 2]
    ++ List.replicate 30 .step

/-- The error at the second finding is what a scan comes to that passes on all three. -/
theorem reporter_failures_change_the_end_only_moody :
    let scan := (initial ["a", "b", "c"] 2).run moody fruitful reversed
    scan.findings = ((initial ["a", "b", "c"] 2).run moody.sparing fruitful reversed).findings
    ∧ scan.findings.length = 3 ∧ EndsBy moody ["a", "b", "c"] scan
    ∧ EndsWith moody ["a", "b", "c"] scan (.value "Error" "second") := by
  intro scan
  have hlength : scan.findings.length = 3 := by decide +kernel
  have hended : scan.ended = true := by decide +kernel
  obtain ⟨-, -, -, -, -, hfindings, -, hends, hought, -⟩ :=
    reporter_failures_change_the_end_only ["a", "b", "c"] 2 moody fruitful reversed
      (by decide) (by decide)
  have hthrown : moody.thrown scan.findings.length
      = [.value "Error" "second", .value "Error" "third"] := by rw [hlength]; rfl
  refine ⟨hfindings, hlength, (hought hended).2 ?_, ?_⟩
  · rw [show moody.thrown _ = _ from hthrown]
    trivial
  · have hkept := hends hended
    rw [show moody.thrown _ = _ from hthrown] at hkept
    exact hkept

/-- A reporter that throws `undefined` at the first finding. -/
def voiceless : Reporter where
  findingError
    | 0 => some .undefined
    | _ => none
  doneError := none

/-- A scan whose reporter throws `undefined` at its only finding ends well, and the reporter is told
    so. -/
theorem ends_well_despite_undefined :
    let scan := (initial ["a"] 1).run voiceless (fun _ _ => .verdict "x")
      (List.replicate 30 .step ++ [.settle 0] ++ List.replicate 30 .step)
    scan.findings = [("x", "a")] ∧ scan.told = [.finding ("x", "a"), .done ⟨1, 1⟩]
    ∧ scan.result = some (.ok ⟨1, 1⟩) ∧ ¬EndsBy voiceless ["a"] scan := by
  intro scan
  have hfindings : scan.findings = [("x", "a")] := by decide +kernel
  have htold : scan.told = [.finding ("x", "a"), .done ⟨1, 1⟩] := by decide +kernel
  refine ⟨hfindings, htold, rfl, fun hends => ?_⟩
  cases hends with
  | failed _ _ _ honly =>
    rw [htold, hfindings] at honly
    cases honly
  | failedAtEnd hnone | told hnone =>
    have hzero := hnone 0 (by rw [hfindings]; exact Nat.zero_lt_one)
    cases hzero

end Scan

end ServedChain
