/-
  Scans whose probes end as soon as they have started.

  * `InOrder`: the probes that have ended, and behind them those that run, stand in the
    order in which they started;
  * `Ready.inOrder_stepAnsweredTimes`: steps after which all probes end keep this;
  * `findings_answerAll`: hence findings are passed on in the order of the hosts,
    whatever the number of workers is.
-/
import ServedChain.Proofs.Scan.Answered

namespace ServedChain.Scan

/-! ## The order of the probes -/

/-- The probes that have ended, and behind them those that run, stand in the order in which they
    started. -/
def InOrder (scan : Scan) : Prop :=
  scan.endings.map (fun ending => ending.1.key) ++ scan.running.map Probing.key
    = scan.probes.zipIdx

section
variable {reporter : Reporter} {prober : Prober} {scan next : Scan} {job : Job} {more : List Job}

theorem InOrder.frame (h : InOrder scan) (hendings : next.endings = scan.endings)
    (hrunning : next.running = scan.running) (hprobes : next.probes = scan.probes) :
    InOrder next := by
  rw [InOrder, hendings, hrunning, hprobes]
  exact h

/-- A probe that starts is the last one; if it fails at once, no other one may run. -/
theorem Move.inOrder (hm : Move reporter prober scan job next more) (hrunning : scan.running = [])
    (h : InOrder scan) : InOrder next := by
  have hended : scan.endings.map (fun ending => ending.1.key) = scan.probes.zipIdx := by
    rw [InOrder, hrunning] at h
    simpa using h
  cases hm with
  | @start worker host =>
    rw [InOrder, Books.zipIdx_concat, ← hended, hrunning]
    rfl
  | @throw worker host error _ _ _ hs =>
    have hthrown : InOrder { scan with
        probes := scan.probes ++ [host]
        endings := scan.endings ++ [(⟨scan.probes.length, worker, host⟩, .thrown error)]
        notices := scan.notices ++ (Outcome.thrown error).notices host } := by
      rw [InOrder, Books.zipIdx_concat, ← hended, hrunning, List.map_append]
      exact List.append_nil _
    cases hs <;> exact hthrown.frame rfl rfl rfl
  | forward hs => cases hs <;> exact h.frame rfl rfl rfl
  | @collect result _ _ hl =>
    have hcollected : InOrder (scan.collect reporter result) := by
      unfold Scan.collect
      split <;> exact h.frame rfl rfl rfl
    cases hl <;> exact hcollected.frame rfl rfl rfl
  | conclude =>
    obtain ⟨_, _, _, heq⟩ := conclude_eq scan reporter
    rw [heq]
    exact h.frame rfl rfl rfl
  | handOver | store | finish | leave | serve | dismiss | queue | stop | lastReturned | returned
  | close => exact h.frame rfl rfl rfl

/-- The first of the probes that run ends. -/
theorem InOrder.settle {probing : Probing} {running : List Probing} (h : InOrder scan)
    (hrunning : scan.running = probing :: running) (outcome : Outcome) :
    InOrder (scan.settle probing.number outcome) := by
  have hnext : scan.settle probing.number outcome
      = { scan with
          running
          endings := scan.endings ++ [(probing, outcome)] }.enqueue
            (.forward probing.worker probing.host outcome) := by
    simp [Scan.settle, hrunning]
  rw [hnext, InOrder]
  rw [InOrder, hrunning] at h
  simpa [enqueue] using h

theorem InOrder.settlements (reporter : Reporter) (prober : Prober) (h : InOrder scan) :
    InOrder (scan.run reporter prober scan.settlements) := by
  -- By induction on the probes that run, which end one after another
  generalize hrunning : scan.running = running
  induction running generalizing scan with
  | nil =>
    have hnone : scan.settlements = [] := by rw [Scan.settlements, hrunning, List.map_nil]
    rw [hnone]
    exact h
  | cons probing running ih =>
    let outcome := prober probing.number (scan.probes.getD probing.number "")
    rw [settlements_of_running hrunning outcome]
    exact ih (h.settle hrunning outcome) (running_settle hrunning outcome)

end

section
variable {hosts : List String} {workers : Nat} {prober : Prober} {scan : Scan} {busy : Bool}

theorem Ready.inOrder_step (h : Ready hosts workers prober scan [] busy)
    (hrunning : scan.running = []) (horder : InOrder scan) :
    InOrder (scan.step .reliable prober) := by
  rcases hjobs : scan.jobs with _ | ⟨⟨_ | rounds, job⟩, jobs⟩
  · rw [step_of_no_jobs hjobs]
    exact horder
  · have hsound := h.sound
    rw [hjobs, turn_cons_zero] at hsound
    obtain ⟨next, more, hmove, heq⟩ := (hsound.queue jobs).exists_move
    rw [step_of_due hjobs, heq, foldl_enqueue]
    exact (hmove.inOrder hrunning (horder.frame rfl rfl rfl)).frame rfl rfl rfl
  · rw [step_of_waiting hjobs]
    exact horder.frame rfl rfl rfl

/-- Whatever the queue does, probes that end as soon as they have started end in order. -/
theorem Ready.inOrder_stepAnsweredTimes (count : Nat)
    (h : Ready hosts workers prober scan [] busy) (hrunning : scan.running = [])
    (horder : InOrder scan) : InOrder (stepAnsweredTimes .reliable prober count scan) := by
  induction count generalizing scan with
  | zero => exact horder
  | succ count ih =>
    rw [stepAnsweredTimes]
    split
    · exact horder
    · have hstep := h.inOrder_step hrunning horder
      have hnext := (rest_after_settlements .reliable prober (scan.step .reliable prober)).1
      exact ih (h.run (.step :: (scan.step .reliable prober).settlements)) hnext
        (hstep.settlements .reliable prober)

end

/-! ## The order of the findings -/

/-- **Findings are passed on in the order of the hosts**, if all probes end as soon as they have
    started. -/
theorem findings_answerAll (hosts : List String) {workers : Nat} (outcome : String → Outcome)
    (hworkers : 0 < workers) :
    ((initial hosts workers).answerAll .reliable outcome).findings
      = expected (fun _ => outcome) hosts := by
  have hstart := Ready.initial hosts workers fun _ => outcome
  obtain ⟨_, _, _, _, hinitial⟩ := initial_eq_with hosts workers
  have hnone : (initial hosts workers).running = [] := by
    rw [hinitial]
    rfl
  have horder : InOrder (initial hosts workers) := by
    rw [hinitial]
    rfl
  obtain ⟨events, heq, hjobs, hrunning⟩ :=
    exists_stepAnsweredTimes_eq .reliable (fun _ => outcome) (Nat.le_refl _) hnone
  have hlast := hstart.inOrder_stepAnsweredTimes (initial hosts workers).effort hnone horder
  have hsound := (hstart.run events).sound_of_rest hjobs
  rw [answerAll]
  rw [heq] at hlast ⊢
  rw [InOrder, hrunning, List.map_nil, List.append_nil, hsound.probes_eq hrunning hworkers] at hlast
  have hpassed := hsound.books.passed
  rw [hsound.map_resultOf, hlast, hsound.inFlight_eq_nil, ← expected_eq] at hpassed
  exact (hpassed.trans (List.append_nil _)).symm

end ServedChain.Scan
