/-
  What a scan has done when no job is left, so that it waits for the end of a probe or is
  over.

  * `work_conserving`: as many hosts have been started, from the first one on, as there
    are workers and probes that have ended;
  * `findings_in_order`: the findings passed on are those of the probes answered so
    far, in the order of the answers.
-/
import ServedChain.Proofs.Scan.Settlements

namespace ServedChain.Scan

/-! ## Hosts and workers -/

section
variable {hosts : List String} {workers : Nat} {prober : Prober} {scan : Scan} {jobs : List Job}
  {busy : Bool}

/-- Each probe that has started runs or has ended. -/
theorem Books.length_probes (h : Books prober scan jobs) :
    scan.probes.length = scan.endings.length + scan.running.length := by
  have hlength := h.started.length_eq
  simpa using hlength.symm

theorem Supply.probes_prefix (h : Supply hosts scan jobs) : scan.probes <+: hosts := by
  refine ⟨jobs.filterMap Job.host? ++ scan.work.buffer ++ scan.unsent, ?_⟩
  rw [← List.append_assoc, ← List.append_assoc]
  exact h.order.symm

theorem Parties.length_running_le (h : Parties workers scan jobs busy) :
    scan.running.length ≤ workers := by
  have hle := h.working_le
  rw [working] at hle
  omega

namespace Sound
variable (h : Sound hosts workers prober scan [] false)
include h

/-- At rest all hosts that have not been probed are in the buffer. -/
theorem eq_probes_append : hosts = scan.probes ++ scan.work.buffer := by
  obtain ⟨-, hunsent⟩ := h.supply.closed h.work_closed
  have horder := h.supply.order
  rw [hunsent] at horder
  simpa using horder

/-- At rest no worker is idle as long as there is a host. -/
theorem running_or_probed :
    scan.running.length = workers ∨ scan.probes.length = hosts.length := by
  rcases h.parties.working_eq with hworking | ⟨-, hbuffer⟩
  · exact .inl (h.working_eq ▸ hworking)
  · have hhosts := h.eq_probes_append
    rw [hbuffer, List.append_nil] at hhosts
    exact .inr (congrArg List.length hhosts.symm)

theorem probes_eq_take :
    scan.probes = hosts.take (min hosts.length (workers + scan.endings.length)) := by
  have hprefix := h.supply.probes_prefix
  have hlength : scan.probes.length = min hosts.length (workers + scan.endings.length) := by
    have hprobes := h.books.length_probes
    have hrunning := h.parties.length_running_le
    have hle := hprefix.length_le
    rcases h.running_or_probed with hbusy | hall <;> omega
  rw [← hlength]
  exact List.prefix_iff_eq_take.1 hprefix

/-- At rest the end is reached exactly if all probes have ended. -/
theorem ended_iff (hworkers : 0 < workers) :
    scan.ended = true ↔ scan.endings.length = hosts.length := by
  have hprobes := h.books.length_probes
  constructor
  · intro hended
    have hrunning := (h.rest_of_ended hended).2
    rw [h.probes_eq hrunning hworkers, hrunning] at hprobes
    exact hprobes.symm
  · intro hall
    have hle := h.supply.probes_prefix.length_le
    exact h.result_isSome (List.length_eq_zero_iff.1 (by omega))

end Sound

end

/-- **No worker is idle as long as there is a host**: at most as many probes run as there are
    workers, and when no job is left the hosts whose probes have started are, in order, as many
    of the list as have ended with one more for each worker.  Then the scan is over exactly if
    all probes have ended.  No job is left after some steps; and if no probe fails as it starts,
    those that have ended are those that an event has answered. -/
theorem work_conserving (hosts : List String) (workers : Nat) (reporter : Reporter)
    (prober : Prober) (events : List Event) (hworkers : 0 < workers)
    (hlimit : workers < workerLimit) :
    (∀ number : Binary64, number.toInt? = some (workers : Int) →
      prepare hosts number = .ok (initial hosts workers))
    ∧ let scan := (initial hosts workers).run reporter prober events
      (scan.drain reporter prober).jobs = []
      ∧ scan.probes <+: hosts ∧ scan.running.length ≤ workers
      ∧ scan.probes.length = scan.endings.length + scan.running.length
      ∧ (scan.jobs = [] →
        scan.probes = hosts.take (min hosts.length (workers + scan.endings.length))
        ∧ (scan.ended = true ↔ scan.endings.length = hosts.length))
      ∧ ((∀ number host, (prober number host).isThrown = false) →
        Course reporter prober (initial hosts workers) events →
        scan.endings.length = (events.filterMap Event.settled?).length) := by
  refine ⟨fun number hnumber => prepare_eq_initial hosts hworkers hlimit hnumber, ?_⟩
  obtain ⟨calm, hscan, hready⟩ := exists_ready hosts workers reporter prober events
  have hsound := hready.sound
  have hrecord : Course reporter prober (initial hosts workers) events → _ :=
    answered_run hosts workers
  rw [hscan] at hrecord ⊢
  simp only [answered, jobs_retold, probes_retold, running_retold, endings_retold,
    ended_retold] at hrecord ⊢
  refine ⟨jobs_drain reporter prober _, hsound.supply.probes_prefix,
    hsound.parties.length_running_le, hsound.books.length_probes, fun hjobs => ?_,
    fun hlater hcourse => ?_⟩
  · have hrest := hready.sound_of_rest hjobs
    exact ⟨hrest.probes_eq_take, hrest.ended_iff hworkers⟩
  · rw [← hrecord hcourse, List.length_map, List.filter_eq_self.2]
    intro ending hmem
    rw [hsound.books.outcome ending hmem, hlater]
    rfl

/-- A finding, an error, and findings. -/
def numbered : Prober
  | 0, _ => .verdict "first"
  | 1, _ => .rejected "reset"
  | _, _ => .verdict "later"

/-- One of two probes has ended, and the third one has started. -/
def oneEnded : List Event :=
  List.replicate 30 .step ++ [.settle 1] ++ List.replicate 30 .step

/-- Four hosts and two workers: after one probe the first three hosts have been started. -/
theorem work_conserving_one_ended :
    let scan := (initial ["a", "b", "c", "d"] 2).run .reliable numbered oneEnded
    scan.jobs = [] ∧ scan.endings.length = 1 ∧ scan.probes = ["a", "b", "c"]
      ∧ scan.running.length ≤ 2 ∧ ¬ scan.ended = true := by
  obtain ⟨-, -, -, hrunning, -, hrest, -⟩ :=
    work_conserving ["a", "b", "c", "d"] 2 .reliable numbered oneEnded (by decide) (by decide)
  have hjobs : ((initial ["a", "b", "c", "d"] 2).run .reliable numbered oneEnded).jobs = [] := by
    decide +kernel
  have hone : ((initial ["a", "b", "c", "d"] 2).run .reliable numbered oneEnded).endings.length
      = 1 := by
    decide +kernel
  obtain ⟨hprobes, hended⟩ := hrest hjobs
  rw [hone] at hprobes hended
  exact ⟨hjobs, hone, hprobes, hrunning, fun h => absurd (hended.1 h) (by decide)⟩

/-! ## Findings -/

section
variable {hosts : List String} {workers : Nat} {prober : Prober} {scan : Scan} {jobs : List Job}

/-- What an ended probe came to is what its host comes to. -/
theorem Books.resultOf_eq (h : Books prober scan jobs) (hhosts : scan.probes <+: hosts)
    {ending : Probing × Outcome} (hmem : ending ∈ scan.endings) :
    ending.1.number < hosts.length
      ∧ resultOf ending = resultAt prober (hosts.getD ending.1.number "", ending.1.number) := by
  have hkey : ending.1.key ∈ scan.probes.zipIdx :=
    h.started.mem_iff.1 (List.mem_append_left _ (List.mem_map_of_mem hmem))
  have hprobe : scan.probes[ending.1.number]? = some ending.1.host :=
    List.mk_mem_zipIdx_iff_getElem?.1 hkey
  have hhost : hosts[ending.1.number]? = some ending.1.host := by
    obtain ⟨rest, rfl⟩ := hhosts
    rw [List.getElem?_append_left (List.getElem?_eq_some_iff.1 hprobe).1, hprobe]
  refine ⟨(List.getElem?_eq_some_iff.1 hhost).1, ?_⟩
  rw [resultOf, h.outcome ending hmem, List.getD_eq_getElem?_getD, hhost]
  rfl

/-- A probe that failed as it started is not reported. -/
theorem reported_filter_isThrown (endings : List (Probing × Outcome)) :
    reported ((endings.filter fun ending => !ending.2.isThrown).map resultOf)
      = reported (endings.map resultOf) := by
  rw [reported, reported, List.filter_map, List.filter_map, List.filter_filter]
  congr 1
  refine List.filter_congr fun ending _ => ?_
  by_cases h : (resultOf ending).1.isReported
  · simp [h, Outcome.isReported_counted h]
  · simp [h]

/-- The findings among the probes that have ended, by the numbers of those answered. -/
theorem Books.reported_endings (h : Books prober scan jobs) (hhosts : scan.probes <+: hosts) :
    reported (scan.endings.map resultOf) = reported ((answered scan).map fun number =>
      resultAt prober (hosts.getD number "", number)) := by
  rw [← reported_filter_isThrown, answered, List.map_map]
  refine congrArg reported (List.map_congr_left fun ending hmem => ?_)
  exact (h.resultOf_eq hhosts (List.mem_filter.1 hmem).1).2

end

/-- **Findings are passed on in the order of the answers**: along any course the findings passed
    on are the first ones among the results of the probes answered so far, each with its host, in
    the order in which they were answered; when no job is left they are all of them. -/
theorem findings_in_order (hosts : List String) (workers : Nat) (reporter : Reporter)
    (prober : Prober) (events : List Event) (hworkers : 0 < workers)
    (hlimit : workers < workerLimit)
    (hcourse : Course reporter prober (initial hosts workers) events) :
    (∀ number : Binary64, number.toInt? = some (workers : Int) →
      prepare hosts number = .ok (initial hosts workers))
    ∧ let scan := (initial hosts workers).run reporter prober events
      let settled := events.filterMap Event.settled?
      let due := reported (settled.map fun number =>
        resultAt prober (hosts.getD number "", number))
      (∀ number ∈ settled, number < hosts.length)
      ∧ scan.findings <+: due ∧ (scan.jobs = [] → scan.findings = due) := by
  refine ⟨fun number hnumber => prepare_eq_initial hosts hworkers hlimit hnumber, ?_⟩
  obtain ⟨calm, hscan, hready⟩ := exists_ready hosts workers reporter prober events
  have hsound := hready.sound
  have hhosts := hsound.supply.probes_prefix
  have hrecord := answered_run hosts workers hcourse
  rw [hscan] at hrecord ⊢
  rw [← hrecord]
  simp only [answered, jobs_retold, findings_retold, endings_retold]
  refine ⟨fun number hnumber => ?_, ?_, fun hjobs => ?_⟩
  · obtain ⟨ending, hmem, rfl⟩ := List.mem_map.1 hnumber
    exact (hsound.books.resultOf_eq hhosts (List.mem_filter.1 hmem).1).1
  · have hpassed := hsound.books.passed
    rw [hsound.books.reported_endings hhosts] at hpassed
    exact ⟨_, hpassed.symm⟩
  · have hrest := hready.sound_of_rest hjobs
    have hpassed := hrest.books.passed
    rw [hrest.books.reported_endings hhosts, hrest.inFlight_eq_nil] at hpassed
    exact (hpassed.trans (List.append_nil _)).symm

/-- Three probes end in reverse before anything else happens. -/
def allAtOnce : List Event :=
  List.replicate 14 .step ++ [.settle 2, .settle 1, .settle 0] ++ List.replicate 24 .step

/-- A host that occurs twice, and a probe that fails between two findings. -/
theorem findings_in_order_reversed :
    Course .reliable numbered (initial ["a", "b", "a", "c"] 3) allAtOnce
    ∧ ((initial ["a", "b", "a", "c"] 3).run .reliable numbered allAtOnce).findings
      = [("later", "a"), ("first", "a")] := by
  have hcourse : Course .reliable numbered (initial ["a", "b", "a", "c"] 3) allAtOnce := by
    decide +kernel
  obtain ⟨-, -, -, hfindings⟩ := findings_in_order ["a", "b", "a", "c"] 3 .reliable numbered
    allAtOnce (by decide) (by decide) hcourse
  exact ⟨hcourse, hfindings (by decide +kernel)⟩

end ServedChain.Scan
