/-
  Scans whose probes all end.

  * `EndsWell`: whatever probes come to and whenever they end, a scan goes on until it
    comes to a summary, and not forever (`endsWell_initial`);
  * `complete_answerAll`: a scan whose probes end as soon as they have started is
    complete at its end.
-/
import ServedChain.Proofs.Scan.Completion
import ServedChain.Proofs.Scan.Retelling

namespace ServedChain.Scan

/-! ## The end of a course -/

/-- Whatever happens to a scan, it comes to a summary: no course goes on forever, and at the end
    of one either something else can still happen, or the scan has its summary. -/
def EndsWell (scan : Scan) : Prop :=
  ∀ prober events, Course .reliable prober scan events → events.length ≤ scan.effort
    ∧ let last := scan.run .reliable prober events
      (last.result = none ∧ ∃ event, last.Awaits event)
        ∨ ∃ summary, last.result = some (.ok summary)

theorem endsWell_initial {hosts : List String} {workers : Nat} :
    (initial hosts workers).EndsWell := by
  intro prober events hcourse
  refine ⟨hcourse.length_le, ?_⟩
  have hready := (Ready.initial hosts workers prober).run events
  intro last
  rcases hresult : last.result with _ | result
  · refine .inl ⟨rfl, Classical.byContradiction fun hnone => ?_⟩
    have hjobs : last.jobs = [] := Classical.byContradiction fun h => hnone ⟨.step, h⟩
    have hrunning : last.running = [] := by
      refine List.eq_nil_iff_forall_not_mem.2 fun probing hmem => ?_
      exact hnone ⟨.settle probing.number, probing, hmem, rfl⟩
    have hended := (hready.sound_of_rest hjobs).result_isSome hrunning
    rw [hresult] at hended
    cases hended
  · exact .inr ⟨_, congrArg some (hready.sound.report.result result hresult)⟩

/-! ## Probes that end at once -/

section
variable (reporter : Reporter) (prober : Prober)

theorem running_settle {scan : Scan} {probing : Probing} {running : List Probing}
    (h : scan.running = probing :: running) (outcome : Outcome) :
    (scan.settle probing.number outcome).running = running := by
  simp [settle, h, enqueue]

/-- The ends of all probes that run. -/
def settlements (scan : Scan) : List Event :=
  scan.running.map fun probing => .settle probing.number

theorem settlements_of_running {scan : Scan} {probing : Probing} {running : List Probing}
    (h : scan.running = probing :: running) (outcome : Outcome) :
    scan.settlements = .settle probing.number
      :: (scan.settle probing.number outcome).settlements := by
  rw [settlements, settlements, running_settle h, h, List.map_cons]

/-- After all of them no probe runs, and no effort was added. -/
theorem rest_after_settlements (scan : Scan) :
    let last := scan.run reporter prober scan.settlements
    last.running = [] ∧ last.effort ≤ scan.effort := by
  -- By induction on the probes that run: each end takes the first of them away
  generalize hrunning : scan.running = running
  induction running generalizing scan with
  | nil =>
    have hnone : scan.settlements = [] := by rw [settlements, hrunning, List.map_nil]
    rw [hnone]
    exact ⟨hrunning, Nat.le_refl _⟩
  | cons probing running ih =>
    have hawaits : ∃ other ∈ scan.running, other.number = probing.number :=
      ⟨probing, hrunning ▸ List.mem_cons_self, rfl⟩
    let outcome := prober probing.number (scan.probes.getD probing.number "")
    have hlt : (scan.settle probing.number outcome).effort < scan.effort :=
      effort_settle_lt outcome hawaits
    obtain ⟨hlast, hle⟩ := ih (scan.settle probing.number outcome) (running_settle hrunning outcome)
    rw [settlements_of_running hrunning outcome]
    exact ⟨hlast, Nat.le_trans hle (Nat.le_of_lt hlt)⟩

/-- Steps, after each of which all probes end, come to rest. -/
theorem exists_stepAnsweredTimes_eq {count : Nat} {scan : Scan} (hcount : scan.effort ≤ count)
    (hrunning : scan.running = []) :
    ∃ events, let last := scan.run reporter prober events
      stepAnsweredTimes reporter prober count scan = last ∧ last.jobs = []
        ∧ last.running = [] := by
  induction count generalizing scan with
  | zero =>
    refine ⟨[], rfl, Decidable.byContradiction fun hjobs => ?_, hrunning⟩
    have hlt : (scan.step reporter prober).effort < scan.effort :=
      effort_step_lt reporter prober hjobs
    omega
  | succ count ih =>
    rw [stepAnsweredTimes]
    split
    · next hempty => exact ⟨[], rfl, List.isEmpty_iff.1 hempty, hrunning⟩
    · next hjobs =>
      -- The step costs some effort, and the ends of probes give none back
      have hlt := effort_step_lt reporter prober (mt List.isEmpty_iff.2 hjobs)
      obtain ⟨hnext, hle⟩ := rest_after_settlements reporter prober (scan.step reporter prober)
      have hcount' : (scan.stepAnswered reporter prober).effort ≤ count :=
        Nat.le_of_lt_succ (Nat.lt_of_lt_of_le (Nat.lt_of_le_of_lt hle hlt) hcount)
      obtain ⟨events, hrest⟩ := ih hcount' hnext
      refine ⟨.step :: (scan.step reporter prober).settlements ++ events, ?_⟩
      have hrun : scan.run reporter prober (.step :: (scan.step reporter prober).settlements
          ++ events) = (scan.stepAnswered reporter prober).run reporter prober events :=
        List.foldl_append ..
      rw [hrun]
      exact hrest

end

/-- **A scan whose probes end as soon as they have started is complete at its end.** -/
theorem complete_answerAll (hosts : List String) {workers : Nat} (outcome : String → Outcome)
    (hworkers : 0 < workers) :
    Complete hosts workers (fun _ => outcome)
      ((initial hosts workers).answerAll .reliable outcome) := by
  have hnone : (initial hosts workers).running = [] := by
    obtain ⟨_, _, _, _, heq⟩ := initial_eq_with hosts workers
    rw [heq]
    rfl
  obtain ⟨events, heq, hjobs, hrunning⟩ :=
    exists_stepAnsweredTimes_eq .reliable (fun _ => outcome) (Nat.le_refl _) hnone
  have hready := (Ready.initial hosts workers fun _ => outcome).run events
  rw [answerAll, heq]
  exact (hready.sound_of_rest hjobs).complete hrunning hworkers

end ServedChain.Scan
