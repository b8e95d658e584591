/-
  Consumers that loop over a channel until it has ended.

  * `turns` bounds the steps that a consumer takes from a close on: no step of another
    gives it one more, and each of its own takes one away;
  * `Reached` are the states that courses lead to, and `Reached.foldl_perform` finds
    batches of operations among them;
  * `consumers_share` puts together what consumers can rely on.
-/
import ServedChain.Proofs.Channel.Sharing

namespace ServedChain

open Channel (Answer)

variable {α : Type}

namespace Channel
variable {c : Channel α} (hclosed : c.closed = true)

theorem closed_receive (c : Channel α) (receiver : Nat) :
    (c.receive receiver).1.closed = c.closed := by
  fun_cases receive c receiver <;> rfl

include hclosed

theorem send_of_closed (sender : Nat) (value : α) :
    c.send sender value = (c, [(sender, .refused)]) := if_pos hclosed

theorem close?_of_closed : c.close? = none := if_pos hclosed

/-- A closed channel answers at once. -/
theorem receive_of_closed (hsenders : c.senders = []) (receiver : Nat) :
    c.receive receiver = ({ c with buffer := c.buffer.tail },
      [(receiver, c.buffer.head?.elim .finished .received)]) := by
  obtain ⟨capacity, buffer, senders, receivers, closed⟩ := c
  subst hclosed hsenders
  cases buffer <;> rfl

end Channel

namespace Exchange

/-! ## Turns -/

/-- How many steps a consumer takes at most from a close on.  For each value that is left it asks
    and sees it, and once it is told that there is nothing more. -/
def turns (e : Exchange α) (c : Consumer α) : Nat :=
  if c.finished then 0
  else match under c.id e.ready with
    | [] => 2 * e.channel.buffer.length + 2
    | .received _ :: _ => 2 * e.channel.buffer.length + 3
    | _ :: _ => 1

section
variable {e e' : Exchange α} {c : Consumer α}

theorem turns_le (e : Exchange α) (c : Consumer α) :
    turns e c ≤ 2 * e.channel.buffer.length + 3 := by
  unfold turns
  split
  · exact Nat.zero_le _
  · split <;> omega

theorem turns_le_of_unready (h : under c.id e.ready = []) :
    turns e c ≤ 2 * e.channel.buffer.length + 2 := by
  rw [turns, h]
  split
  · exact Nat.zero_le _
  · exact Nat.le_refl _

theorem turns_mono (hready : under c.id e'.ready = under c.id e.ready)
    (hbuffer : e'.channel.buffer.length ≤ e.channel.buffer.length) : turns e' c ≤ turns e c := by
  unfold turns
  rw [hready]
  split
  · exact Nat.le_refl 0
  · split <;> omega

theorem closed_handle (h : e.channel.closed = true) (step : Step α) :
    (e.handle step).channel.closed = true := by
  cases step with
  | start operation =>
    cases operation with
    | send value =>
      rw [handle, start, deliver_eq, Channel.send_of_closed h]
      exact h
    | receive | iterate =>
      rw [handle, start, deliver_eq]
      exact (Channel.closed_receive _ _).trans h
    | close =>
      rw [handle, start, Channel.close?_of_closed h]
      exact h
  | see id => exact (congrArg Channel.closed (channel_see e id)).trans h
  | ask id =>
    rw [handle, ask, deliver_eq]
    exact (Channel.closed_receive _ _).trans h

theorem under_ready_deliver {id : Nat} {result : Channel α × List (Nat × Answer α)}
    (h : ∀ entry ∈ result.2, entry.1 ≠ id) :
    under id (e.deliver result).ready = under id e.ready := by
  have hnone : under id (result.2.filter fun entry => e.isConsumer entry.1) = [] := by
    refine under_eq_nil_iff.2 fun hmem => ?_
    obtain ⟨entry, hentry, hid⟩ := List.mem_map.1 hmem
    exact h entry (List.mem_filter.1 hentry).1 hid
  rw [deliver_eq, under_append, hnone, List.append_nil]

theorem ready_see (e : Exchange α) (id : Nat) :
    (e.see id).ready = e.ready.eraseP fun entry => entry.1 == id := by
  unfold see
  split
  case h_1 hnone => exact (List.eraseP_of_forall_not (List.find?_eq_none.1 hnone)).symm
  all_goals rfl

theorem mem_consumers_see_received {value : α} (hc : c ∈ e.consumers)
    (h : e.ready.find? (fun entry => entry.1 == c.id) = some (c.id, .received value)) :
    { c with taken := c.taken ++ [value], finished := e.isLast c.id } ∈ (e.see c.id).consumers := by
  unfold see
  simp only [h]
  exact List.mem_map.2 ⟨c, hc, if_pos rfl⟩

theorem mem_consumers_see {id : Nat} (hc : c ∈ e.consumers) (hid : c.id ≠ id) :
    c ∈ (e.see id).consumers := by
  unfold see
  split
  · exact hc
  all_goals exact List.mem_map.2 ⟨c, hc, if_neg hid⟩

end

namespace Follows
variable {calls : List (Call α × Nat)} {p e : Exchange α} {taken : List (Nat × α)}
  {c : Consumer α}

/-- A consumer that has not seen an answer has not left, and waits for no other one. -/
theorem of_ready (h : Follows calls p e taken) (hc : c ∈ e.consumers)
    (hready : c.id ∈ e.ready.map Prod.fst) :
    c.finished = false ∧ c.id ∉ e.channel.receivers ∧ under c.id (e.see c.id).ready = [] := by
  replace hready : under c.id e.ready ≠ [] := mt under_eq_nil_iff.1 (not_not.2 hready)
  have hcount := h.count_requests hc
  obtain ⟨hgoing, hone⟩ := h.tracks.finished_of_ready hc (by omega) hready
  obtain ⟨seen, -, hlog, hasked⟩ := h.tracks.consumers c hc
  have hlength := congrArg List.length hlog
  rw [List.length_append] at hlength
  rw [hgoing, Bool.not_false, Bool.toNat_true] at hasked
  refine ⟨hgoing, List.count_eq_zero.1 (by omega), ?_⟩
  obtain ⟨answer, -, hfirst⟩ := exists_find?_of_under hready
  rw [hfirst, List.length_cons] at hone
  rw [ready_see]
  exact List.eq_nil_of_length_eq_zero (Nat.succ.inj hone)

/-- Another's receive leaves a consumer its turns. -/
theorem turns_deliver_receive (h : Follows calls p e taken) (hclosed : e.channel.closed = true)
    {id : Nat} (hid : id ≠ c.id) (next : Nat) (consumers : List (Consumer α)) :
    turns (deliver { e with next, consumers } (e.channel.receive id)) c ≤ turns e c := by
  rw [Channel.receive_of_closed hclosed (h.closed hclosed).1]
  refine turns_mono (under_ready_deliver (by simpa using hid)) ?_
  rw [deliver_eq, List.length_tail]
  exact Nat.sub_le _ _

theorem turns_see (h : Follows calls p e taken) (hc : c ∈ e.consumers)
    (hready : c.id ∈ e.ready.map Prod.fst) :
    ∃ c' ∈ (e.see c.id).consumers, c'.id = c.id ∧ turns (e.see c.id) c' + 1 ≤ turns e c := by
  obtain ⟨hgoing, -, hrest⟩ := h.of_ready hc hready
  obtain ⟨answer, hfind, hfirst⟩ := exists_find?_of_under (mt under_eq_nil_iff.1 (not_not.2 hready))
  cases answer with
  | received value =>
    refine ⟨{ c with taken := c.taken ++ [value], finished := e.isLast c.id }, ?_, rfl, ?_⟩
    · exact mem_consumers_see_received hc hfind
    · rw [turns.eq_def e c, hfirst, hgoing, ← channel_see e c.id]
      exact Nat.succ_le_succ (turns_le_of_unready hrest)
  | sent | finished | refused =>
    refine ⟨{ c with finished := true }, ?_, rfl, ?_⟩
    · unfold see
      simp only [hfind]
      exact List.mem_map.2 ⟨c, hc, if_pos rfl⟩
    · rw [turns, turns, hfirst, hgoing]
      exact Nat.le_refl 1

theorem turns_ask (h : Follows calls p e taken) (hclosed : e.channel.closed = true)
    (hc : c ∈ e.consumers) (hawaits : e.Awaits (.ask c.id)) :
    turns (e.ask c.id) c + 1 ≤ turns e c := by
  obtain ⟨⟨other, hother, hid, hgoing⟩, -, hready⟩ := hawaits
  obtain rfl := h.tracks.eq_of_id_eq hc hother hid
  have hconsumer := (e.isConsumer_iff other.id).2 ⟨other, hc, rfl⟩
  replace hready := under_eq_nil_iff.2 hready
  rw [ask, Channel.receive_of_closed hclosed (h.closed hclosed).1, deliver_eq, turns, turns,
    hgoing]
  simp only [under_append, hready, List.filter_cons, hconsumer]
  cases e.channel.buffer with
  | nil => simp [under_cons]
  | cons => simp [under_cons]; omega

/-- **A step of its own takes a turn away from a consumer**, and no other gives it one. -/
theorem exists_turns_handle (h : Follows calls p e taken) (hclosed : e.channel.closed = true)
    {step : Step α} (hawaits : e.Awaits step) (hc : c ∈ e.consumers) :
    ∃ c' ∈ (e.handle step).consumers, c'.id = c.id
      ∧ turns (e.handle step) c' + (step.isOf c.id).toNat ≤ turns e c := by
  have hnext : e.next ≠ c.id := Nat.ne_of_gt (h.tracks.known c hc)
  cases step with
  | start operation =>
    cases operation with
    | send value =>
      refine ⟨c, by rwa [handle, start, deliver_eq], rfl, ?_⟩
      rw [handle, start, Channel.send_of_closed hclosed]
      refine turns_mono (under_ready_deliver (by simpa using hnext)) (Nat.le_of_eq ?_)
      rw [deliver_eq]
    | receive =>
      refine ⟨c, by rwa [handle, start, deliver_eq], rfl, ?_⟩
      exact h.turns_deliver_receive hclosed hnext _ _
    | close =>
      refine ⟨c, by rwa [handle, start, Channel.close?_of_closed hclosed], rfl, ?_⟩
      rw [handle, start, Channel.close?_of_closed hclosed]
      exact turns_mono rfl (Nat.le_refl _)
    | iterate limit =>
      refine ⟨c, ?_, rfl, ?_⟩
      · rw [handle, start, deliver_eq]
        exact List.mem_append_left _ hc
      · exact h.turns_deliver_receive hclosed hnext _ _
  | see id =>
    by_cases hid : id = c.id
    · subst hid
      simp only [Step.isOf, beq_self_eq_true, Bool.toNat_true]
      exact h.turns_see hc hawaits
    · refine ⟨c, mem_consumers_see hc (Ne.symm hid), rfl, ?_⟩
      simp only [Step.isOf, beq_eq_false_iff_ne.2 hid, Bool.toNat_false, Nat.add_zero]
      refine turns_mono ?_ (Nat.le_of_eq ?_)
      · rw [handle, ready_see, under_eraseP_of_ne (Ne.symm hid)]
      · rw [handle, channel_see]
  | ask id =>
    by_cases hid : id = c.id
    · subst hid
      refine ⟨c, by rwa [handle, ask, deliver_eq], rfl, ?_⟩
      simp only [Step.isOf, beq_self_eq_true, Bool.toNat_true]
      exact h.turns_ask hclosed hc hawaits
    · refine ⟨c, by rwa [handle, ask, deliver_eq], rfl, ?_⟩
      simp only [Step.isOf, beq_eq_false_iff_ne.2 hid, Bool.toNat_false, Nat.add_zero]
      exact h.turns_deliver_receive hclosed hid _ _

end Follows

/-! ## Going on -/

/-- Who loops waits for a value, or goes on. -/
theorem exists_awaits {e : Exchange α} {c : Consumer α} (hc : c ∈ e.consumers)
    (hgoing : c.finished = false) :
    c.id ∈ e.channel.receivers ∨ ∃ step : Step α, step.isOf c.id = true ∧ e.Awaits step := by
  by_cases hready : c.id ∈ e.ready.map Prod.fst
  · exact .inr ⟨.see c.id, beq_self_eq_true _, hready⟩
  · by_cases hwaits : c.id ∈ e.channel.receivers
    · exact .inl hwaits
    · exact .inr ⟨.ask c.id, beq_self_eq_true _, ⟨c, hc, rfl, hgoing⟩, hwaits, hready⟩

/-- Who goes on sees an answer, and asks again unless it leaves. -/
theorem resume_eq {e : Exchange α} {id : Nat} {answer : Answer α} {ready : List (Nat × Answer α)}
    (h : e.ready = (id, answer) :: ready) :
    e.resume = if answer.value?.isSome ∧ e.isLast id = false then (e.see id).ask id
      else e.see id := by
  cases answer with
  | received value =>
    cases hlast : e.isLast id <;>
      simp [resume, see, ask, h, hlast, Answer.value?, update]
  | sent | finished | refused => simp [resume, see, h, Answer.value?]

theorem Follows.exists_resume {calls : List (Call α × Nat)} {p e : Exchange α}
    {taken : List (Nat × α)} (h : Follows calls p e taken) :
    ∃ steps, Course e steps ∧ e.run steps = e.resume := by
  rcases hready : e.ready with _ | ⟨⟨id, answer⟩, ready⟩
  · exact ⟨[], trivial, by rw [resume, hready]; rfl⟩
  have hsees : e.Awaits (.see id) := by
    rw [Awaits, hready]
    exact List.mem_cons_self
  rw [resume_eq hready]
  split
  case isFalse => exact ⟨[.see id], ⟨hsees, trivial⟩, rfl⟩
  case isTrue hgoes =>
    obtain ⟨hvalue, hlast⟩ := hgoes
    obtain ⟨value, rfl⟩ : ∃ value, answer = .received value := by
      cases answer <;> cases hvalue
      exact ⟨_, rfl⟩
    obtain ⟨c, hc, rfl⟩ := (e.isConsumer_iff id).1
      (h.tracks.ready (id, .received value) (hready ▸ List.mem_cons_self))
    obtain ⟨-, hreceivers, hrest⟩ := h.of_ready hc hsees
    have hfind : e.ready.find? (fun entry => entry.1 == c.id) = some (c.id, .received value) := by
      rw [hready]
      exact List.find?_cons_of_pos (beq_self_eq_true c.id)
    have hasks : (e.see c.id).Awaits (.ask c.id) :=
      ⟨⟨_, mem_consumers_see_received hc hfind, rfl, hlast⟩, by rwa [channel_see],
        under_eq_nil_iff.1 hrest⟩
    exact ⟨[.see c.id, .ask c.id], ⟨hsees, hasks, trivial⟩, rfl⟩

/-! ## Reached states -/

/-- The states that courses lead to. -/
def Reached (capacity : Nat) (e : Exchange α) : Prop :=
  ∃ steps, Course (ofChannel (.empty capacity)) steps
    ∧ (ofChannel (.empty capacity)).run steps = e

namespace Reached
variable {capacity : Nat} {e : Exchange α}

theorem exists_follows (h : Reached capacity e) :
    ∃ calls p taken, Follows calls p e taken := by
  obtain ⟨steps, hsteps, rfl⟩ := h
  exact ⟨_, Exchange.exists_follows capacity hsteps⟩

theorem run (h : Reached capacity e) (steps : List (Step α)) (hsteps : Course e steps) :
    Reached capacity (e.run steps) := by
  obtain ⟨before, hbefore, rfl⟩ := h
  exact ⟨before ++ steps, course_append.2 ⟨hbefore, hsteps⟩, run_append ..⟩

theorem resume (h : Reached capacity e) : Reached capacity e.resume := by
  obtain ⟨calls, p, taken, hfollows⟩ := h.exists_follows
  obtain ⟨steps, hsteps, heq⟩ := hfollows.exists_resume
  exact heq ▸ h.run steps hsteps

theorem resumeTimes (h : Reached capacity e) (count : Nat) :
    Reached capacity (Exchange.resumeTimes count e) := by
  induction count generalizing e with
  | zero => exact h
  | succ count ih =>
    rw [Exchange.resumeTimes]
    split
    · exact h
    · exact ih h.resume

theorem foldl_start (h : Reached capacity e) (operations : List (Operation α)) :
    Reached capacity (operations.foldl start e) := by
  induction operations generalizing e with
  | nil => exact h
  | cons operation operations ih =>
    exact ih (h.run [.start operation] ⟨trivial, trivial⟩)

theorem foldl_perform (h : Reached capacity e) (batches : List (List (Operation α))) :
    Reached capacity (batches.foldl perform e) := by
  induction batches generalizing e with
  | nil => exact h
  | cons operations batches ih => exact ih ((h.foldl_start operations).resumeTimes _)

/-- From a close on, the steps of a consumer are counted against its turns. -/
theorem exists_turns_run (h : Reached capacity e) (hclosed : e.channel.closed = true)
    {more : List (Step α)} (hmore : Course e more) {c : Consumer α} (hc : c ∈ e.consumers) :
    (e.run more).channel.closed = true ∧ ∃ c' ∈ (e.run more).consumers, c'.id = c.id
      ∧ turns (e.run more) c' + more.countP (Step.isOf c.id) ≤ turns e c := by
  induction more generalizing e c with
  | nil => exact ⟨hclosed, c, hc, rfl, Nat.le_refl _⟩
  | cons step more ih =>
    obtain ⟨hawaits, hmore⟩ := hmore
    obtain ⟨calls, p, taken, hfollows⟩ := h.exists_follows
    obtain ⟨c', hc', hid', hstep⟩ := hfollows.exists_turns_handle hclosed hawaits hc
    obtain ⟨hclosed'', c'', hc'', hid'', hrest⟩ :=
      ih (h.run [step] ⟨hawaits, trivial⟩) (closed_handle hclosed step) hmore hc'
    have hcount : (step :: more).countP (Step.isOf c.id)
        = more.countP (Step.isOf c.id) + (step.isOf c.id).toNat := by
      rw [List.countP_cons]
      cases step.isOf c.id <;> rfl
    refine ⟨hclosed'', c'', hc'', hid''.trans hid', ?_⟩
    rw [hid'] at hrest
    calc turns (e.run (step :: more)) c'' + (step :: more).countP (Step.isOf c.id)
        = turns ((e.handle step).run more) c'' + more.countP (Step.isOf c.id)
          + (step.isOf c.id).toNat := by rw [hcount, Nat.add_assoc]; rfl
      _ ≤ turns (e.handle step) c' + (step.isOf c.id).toNat := Nat.add_le_add_right hrest _
      _ ≤ turns e c := hstep

end Reached

/-! ## Consumers -/

/-- What holds of a consumer on a closed channel: it takes a few steps at most, whatever the
    others do, and can take one until it has left. -/
structure Ending (e : Exchange α) (c : Consumer α) (more : List (Step α)) : Prop where
  bound : more.countP (Step.isOf c.id) ≤ 2 * e.channel.buffer.length + 3
  going : ∃ c' ∈ (e.run more).consumers, c'.id = c.id
    ∧ (c'.finished = true ∨ ∃ step : Step α, step.isOf c.id = true ∧ (e.run more).Awaits step)

theorem Reached.ending {capacity : Nat} {e : Exchange α} (h : Reached capacity e)
    (hclosed : e.channel.closed = true) {c : Consumer α} (hc : c ∈ e.consumers)
    {more : List (Step α)} (hmore : Course e more) : Ending e c more := by
  obtain ⟨hclosed', c', hc', hid, hturns⟩ := h.exists_turns_run hclosed hmore hc
  obtain ⟨calls, p, taken, hfollows⟩ := (h.run more hmore).exists_follows
  exact {
    bound := Nat.le_trans (Nat.le_add_left _ _) (Nat.le_trans hturns (turns_le e c))
    going := by
      refine ⟨c', hc', hid, ?_⟩
      cases hgoing : c'.finished with
      | true => exact .inl rfl
      | false =>
        rcases exists_awaits hc' hgoing with hwaits | hgoes
        · rw [(hfollows.closed hclosed').2] at hwaits
          cases hwaits
        · exact .inr (hid ▸ hgoes) }

/-- **Consumers share a channel without loss**, in whatever order they and others take their steps.
    Each value that is received is one consumer's or one single receive's; they are the first
    values that were sent, in the order in which they were asked for; and who leaves has as
    many as it wants and asks for no other one, or there was nothing more.  From a close on
    every consumer leaves after a few steps of its own.  Operations that are started together, with
    what follows from them, are such steps. -/
theorem consumers_share (capacity : Nat) :
    (∀ steps : List (Step α), Course (ofChannel (.empty capacity)) steps →
      let e := (ofChannel (.empty capacity)).run steps
      (∃ values, Shared (issued (ofChannel (.empty capacity)) steps) e values)
        ∧ (e.channel.closed = true →
          ∀ c ∈ e.consumers, ∀ more, Course e more → Ending e c more))
    ∧ ∀ batches : List (List (Operation α)), ∃ steps, Course (ofChannel (.empty capacity)) steps
      ∧ (ofChannel (.empty capacity)).run steps
        = batches.foldl perform (ofChannel (.empty capacity)) := by
  refine ⟨fun steps hsteps => ⟨exists_shared capacity hsteps, fun hclosed c hc more hmore => ?_⟩,
    fun batches => ?_⟩
  · exact Reached.ending ⟨steps, hsteps, rfl⟩ hclosed hc hmore
  · exact Reached.foldl_perform ⟨[], trivial, rfl⟩ batches

/-- Two consumers, of which one wants a single value, and a send that waits when the other one asks;
    after the close a value is left for the latter. -/
theorem consumers_share_limit :
    let steps : List (Step Nat) := [.start (.iterate none), .start (.iterate (some 1)),
      .start (.send 10), .start (.send 20), .see 1, .start (.send 30), .start (.send 40), .see 0,
      .ask 0, .start .close]
    let more : List (Step Nat) := [.see 0, .start .receive, .ask 0, .see 0]
    let e := (ofChannel (.empty 1)).run steps
    Course (ofChannel (.empty 1)) steps ∧ e.channel.closed = true
      ∧ (e.consumers.map fun c => (c.taken, c.finished)) = [([10], false), ([20], true)]
      ∧ e.handed 0 = [30] ∧ e.channel.buffer = [40]
      ∧ resolved (issued (ofChannel (.empty 1)) steps) e = [10, 20, 30, 40]
      ∧ Course e more ∧ more.countP (Step.isOf 0) ≤ 5
      ∧ ∃ values, Shared (issued (ofChannel (.empty 1)) steps) e values := by
  intro steps more e
  have hsteps : Course (ofChannel (.empty 1)) steps := by decide
  have hmore : Course e more := by decide
  have hclosed : e.channel.closed = true := by decide
  obtain ⟨hshared, hending⟩ := (consumers_share 1).1 steps hsteps
  refine ⟨hsteps, hclosed, by decide, by decide, by decide, by decide, hmore, ?_, hshared⟩
  exact (hending hclosed ⟨0, none, [10], false⟩ (by decide) more hmore).bound

end Exchange

end ServedChain
