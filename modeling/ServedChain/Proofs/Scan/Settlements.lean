/-
  The order in which the probes of a scan are answered.

  * `Event.settled?` is the probe that an event answers, and `answered` are the probes
    that a scan has on record as answered, in order;
  * `Move.answered_eq`: no job changes this record, also if a probe fails as it starts;
  * `Ready.answered_run`: along a course the record is that of the events.
-/
import ServedChain.Proofs.Scan.Retelling

namespace ServedChain

namespace Outcome

/-- Whether a probe fails as it starts, and therefore is not answered later. -/
def isThrown : Outcome → Bool
  | thrown _ => true
  | verdict _ | rejected _ => false

theorem isReported_counted {outcome : Outcome} (h : outcome.counted.isReported = true) :
    outcome.isThrown = false := by
  cases outcome with
  | thrown error => exact absurd h (by decide : ¬ Verdict.isReported .noIssue = true)
  | verdict | rejected => rfl

end Outcome

namespace Scan

/-! ## Records -/

/-- The number of the probe that an event answers. -/
def Event.settled? : Event → Option Nat
  | step => none
  | settle number => some number

/-- The numbers of the probes that were answered, in order. -/
def answered (scan : Scan) : List Nat :=
  (scan.endings.filter fun ending => !ending.2.isThrown).map fun ending => ending.1.number

/-- The probes that run are those that did not fail as they started. -/
def Pending (prober : Prober) (scan : Scan) : Prop :=
  ∀ probing ∈ scan.running, (prober probing.number probing.host).isThrown = false

section
variable {reporter : Reporter} {prober : Prober} {scan next : Scan} {job : Job} {more : List Job}

/-- A result that is sent changes nothing in the records. -/
theorem Send.records_eq {worker : Nat} {result : Finding} (hs : Send scan worker result next more) :
    next.endings = scan.endings ∧ next.running = scan.running := by
  cases hs <;> exact ⟨rfl, rfl⟩

theorem Listen.records_eq (hl : Listen scan next more) :
    next.endings = scan.endings ∧ next.running = scan.running := by
  cases hl <;> exact ⟨rfl, rfl⟩

/-- No job answers a probe. -/
theorem Move.answered_eq (hm : Move reporter prober scan job next more) :
    answered next = answered scan := by
  cases hm with
  | throw _ hs =>
    rw [answered, hs.records_eq.1]
    simp [answered, Outcome.isThrown]
  | forward hs =>
    rw [answered, hs.records_eq.1]
    rfl
  | collect hl =>
    rw [answered, hl.records_eq.1]
    unfold Scan.collect
    split <;> rfl
  | conclude =>
    obtain ⟨_, _, _, heq⟩ := conclude_eq scan reporter
    rw [heq]
    rfl
  | _ => rfl

theorem Move.pending (hm : Move reporter prober scan job next more) (h : Pending prober scan) :
    Pending prober next := by
  cases hm with
  | @start worker host hprobe =>
    intro probing hmem
    rcases List.mem_append.1 hmem with hmem | hmem
    · exact h probing hmem
    · rw [List.mem_singleton.1 hmem]
      cases houtcome : prober scan.probes.length host with
      | thrown error => exact absurd houtcome (hprobe error)
      | verdict | rejected => rfl
  | throw _ hs =>
    rw [Pending, hs.records_eq.2]
    exact h
  | forward hs =>
    rw [Pending, hs.records_eq.2]
    exact h
  | collect hl =>
    rw [Pending, hl.records_eq.2]
    unfold Scan.collect
    split <;> exact h
  | conclude =>
    obtain ⟨_, _, _, heq⟩ := conclude_eq scan reporter
    rw [heq]
    exact h
  | _ => exact h

end

/-! ## Courses -/

section
variable {hosts : List String} {workers : Nat} {reporter : Reporter} {prober : Prober}
  {scan : Scan} {busy : Bool}

/-- A step makes a move, lets a job wait, or does nothing. -/
theorem Ready.answered_step (h : Ready hosts workers prober scan [] busy)
    (hpending : Pending prober scan) :
    answered (scan.step .reliable prober) = answered scan
      ∧ Pending prober (scan.step .reliable prober) := by
  rcases hjobs : scan.jobs with _ | ⟨⟨_ | rounds, job⟩, jobs⟩
  · rw [step_of_no_jobs hjobs]
    exact ⟨rfl, hpending⟩
  · have hsound := h.sound
    rw [hjobs, turn_cons_zero] at hsound
    obtain ⟨next, more, hmove, heq⟩ := (hsound.queue jobs).exists_move
    rw [step_of_due hjobs, heq, foldl_enqueue]
    exact ⟨hmove.answered_eq, hmove.pending hpending⟩
  · rw [step_of_waiting hjobs]
    exact ⟨rfl, hpending⟩

/-- The end of a probe that runs is put on record. -/
theorem Ready.answered_settle (h : Ready hosts workers prober scan [] busy)
    (hpending : Pending prober scan) {number : Nat} (hawaits : scan.Awaits (.settle number)) :
    answered (scan.settle number (prober number (scan.probes.getD number "")))
        = answered scan ++ [number]
      ∧ Pending prober (scan.settle number (prober number (scan.probes.getD number ""))) := by
  unfold Scan.settle
  split
  · next probing hfind =>
    have hmem := List.mem_of_find?_eq_some hfind
    obtain rfl : probing.number = number := by simpa using List.find?_some hfind
    rw [h.sound.books.host_of_running hmem]
    refine ⟨?_, fun other hother => hpending other (List.mem_of_mem_erase hother)⟩
    simp [answered, Scan.enqueue, hpending probing hmem]
  · next hfind =>
    obtain ⟨probing, hmem, hnumber⟩ := hawaits
    exact absurd hnumber (by simpa using List.find?_eq_none.1 hfind probing hmem)

/-- **Along a course probes are put on record in the order in which events answer them.** -/
theorem Ready.answered_run (h : Ready hosts workers prober scan [] busy)
    (hpending : Pending prober scan) {events : List Event}
    (hcourse : Course .reliable prober scan events) :
    answered (scan.run .reliable prober events)
      = answered scan ++ events.filterMap Event.settled? := by
  induction events generalizing scan with
  | nil => exact (List.append_nil _).symm
  | cons event events ih =>
    obtain ⟨hawaits, hrest⟩ := hcourse
    have hready := h.run [event]
    cases event with
    | step =>
      obtain ⟨hsame, hpending'⟩ := h.answered_step hpending
      exact (ih hready hpending' hrest).trans (congrArg (· ++ _) hsame)
    | settle number =>
      obtain ⟨hmore, hpending'⟩ := h.answered_settle hpending hawaits
      exact (ih hready hpending' hrest).trans
        ((congrArg (· ++ _) hmore).trans (List.append_assoc ..))

/-- What can happen does not depend on the reporter. -/
theorem Ready.course_of_retold (h : Ready hosts workers prober scan [] busy)
    {events : List Event} (hcourse : Course reporter prober (scan.retold reporter) events) :
    Course .reliable prober scan events := by
  induction events generalizing scan with
  | nil => trivial
  | cons event events ih =>
    obtain ⟨hawaits, hrest⟩ := hcourse
    rw [h.handle_retold] at hrest
    refine ⟨?_, ih (h.run [event]) hrest⟩
    cases event with
    | step => simpa only [Awaits, jobs_retold] using hawaits
    | settle number => simpa only [Awaits, running_retold] using hawaits

/-- The record of a run from the start on, whatever its reporter did. -/
theorem answered_run (hosts : List String) (workers : Nat) {events : List Event}
    (hcourse : Course reporter prober (initial hosts workers) events) :
    answered ((initial hosts workers).run reporter prober events)
      = events.filterMap Event.settled? := by
  obtain ⟨_, _, _, _, hstart⟩ := initial_eq_with hosts workers
  have hretold : (initial hosts workers).retold reporter = initial hosts workers := by
    rw [hstart]
    exact retold_of_going rfl
  have hready := Ready.initial hosts workers prober
  have hpending : Pending prober (initial hosts workers) := by
    rw [hstart]
    exact fun probing hmem => absurd hmem List.not_mem_nil
  have hnone : answered (initial hosts workers) = [] := by
    rw [hstart]
    rfl
  rw [← hretold] at hcourse
  have hanswered := hready.answered_run hpending (hready.course_of_retold hcourse)
  rw [hnone, List.nil_append] at hanswered
  rw [run_eq_retold, answered, endings_retold]
  exact hanswered

end

end Scan

end ServedChain
