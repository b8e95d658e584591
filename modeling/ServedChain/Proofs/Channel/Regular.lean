/-
  The shape of a channel between two operations.

  Whoever sends takes the receive that has waited longest, and else room in the buffer;
  whoever receives makes room for the send that has waited longest.  So there is never
  someone who waits next to what they wait for:

  * `Channel.Regular`: the buffer keeps to its capacity, a receive waits only at an empty
    channel, a send only at a full one, and nobody at a closed one;
  * `Regular.send`, `Regular.receive` and `Regular.close`: each operation keeps it so;
  * `waits_only_with_need`: hence it is so in every state that operations lead to, and
    `Exchange.reachable_run` says that those who use a channel lead it to no other state.
-/
import Mathlib.Logic.Relation
import ServedChain.Proofs.Channel.Steps

namespace ServedChain

variable {α : Type}

namespace Channel

/-! ## The shape -/

/-- A channel of some capacity at which nobody waits without need. -/
structure Regular (capacity : Nat) (c : Channel α) : Prop where
  capacity_eq : c.capacity = capacity
  length_buffer : c.buffer.length ≤ capacity
  /-- Nobody waits to receive as long as there is a value -/
  starved : c.receivers ≠ [] → c.buffer = [] ∧ c.senders = []
  /-- Nobody waits to send as long as there is room -/
  full : c.senders ≠ [] → c.buffer.length = capacity
  /-- Nobody waits at a closed channel -/
  closed : c.closed = true → c.senders = [] ∧ c.receivers = []

theorem regular_empty (capacity : Nat) : Regular capacity (empty capacity : Channel α) where
  capacity_eq := rfl
  length_buffer := Nat.zero_le capacity
  starved := absurd rfl
  full := absurd rfl
  closed h := Bool.noConfusion h

namespace Regular
variable {capacity : Nat} {c : Channel α}

theorem receivers_eq_nil (h : c.Regular capacity) (hne : c.buffer ≠ [] ∨ c.senders ≠ []) :
    c.receivers = [] := by
  rcases hreceivers : c.receivers with _ | ⟨receiver, receivers⟩
  · rfl
  · obtain ⟨hbuffer, hsenders⟩ := h.starved (by simp [hreceivers])
    exact hne.elim (absurd hbuffer) (absurd hsenders)

theorem senders_eq_nil (h : c.Regular capacity) (hroom : c.buffer.length < c.capacity) :
    c.senders = [] := by
  rcases hsenders : c.senders with _ | ⟨sender, senders⟩
  · rfl
  · have hfull := h.full (by simp [hsenders])
    have hcapacity := h.capacity_eq
    omega

theorem closed_eq_false (h : c.Regular capacity) (hwait : c.senders ≠ []) : c.closed = false := by
  rcases hclosed : c.closed with _ | _
  · rfl
  · exact absurd (h.closed hclosed).1 hwait

/-! ## The operations -/

theorem send (h : c.Regular capacity) (sender : Nat) (value : α) :
    (c.send sender value).1.Regular capacity := by
  rcases hclosed : c.closed with _ | _
  · rcases hreceivers : c.receivers with _ | ⟨receiver, receivers⟩
    · by_cases hroom : c.buffer.length < c.capacity
      · -- The value goes into the buffer, which had room, so that no send waits for it
        have hsend : (c.send sender value).1 = { c with buffer := c.buffer ++ [value] } := by
          simp [Channel.send, hclosed, hreceivers, hroom]
        rw [hsend]
        refine { h with length_buffer := ?_, starved := ?_, full := ?_ }
        · have hcapacity := h.capacity_eq
          simp only [List.length_append, List.length_singleton]
          omega
        · intro hwait
          exact absurd hreceivers hwait
        · intro hwait
          exact absurd (h.senders_eq_nil hroom) hwait
      · have hsend : (c.send sender value).1
            = { c with senders := c.senders ++ [(sender, value)] } := by
          simp [Channel.send, hclosed, hreceivers, hroom]
        rw [hsend]
        refine { h with starved := ?_, full := ?_, closed := ?_ }
        · intro hwait
          exact absurd hreceivers hwait
        · intro _
          have hcapacity := h.capacity_eq
          have hlength := h.length_buffer
          simp only
          omega
        · intro hend
          exact absurd hend (by simp [hclosed])
    · -- Someone waits to receive, so there is nothing in front of the value
      obtain ⟨hbuffer, hsenders⟩ := h.starved (by simp [hreceivers])
      have hsend : (c.send sender value).1 = { c with receivers } := by
        simp [Channel.send, hclosed, hreceivers]
      rw [hsend]
      refine { h with starved := ?_, closed := ?_ }
      · intro _
        exact ⟨hbuffer, hsenders⟩
      · intro hend
        exact absurd hend (by simp [hclosed])
  · have hsend : (c.send sender value).1 = c := by simp [Channel.send, hclosed]
    rwa [hsend]

theorem receive (h : c.Regular capacity) (receiver : Nat) :
    (c.receive receiver).1.Regular capacity := by
  rcases hbuffer : c.buffer with _ | ⟨value, buffer⟩
  · rcases hsenders : c.senders with _ | ⟨⟨sender, value⟩, senders⟩
    · rcases hclosed : c.closed with _ | _
      · have hreceive : (c.receive receiver).1
            = { c with receivers := c.receivers ++ [receiver] } := by
          simp [Channel.receive, hbuffer, hsenders, hclosed]
        rw [hreceive]
        refine { h with starved := ?_, closed := ?_ }
        · intro _
          exact ⟨hbuffer, hsenders⟩
        · intro hend
          exact absurd hend (by simp [hclosed])
      · have hreceive : (c.receive receiver).1 = c := by
          simp [Channel.receive, hbuffer, hsenders, hclosed]
        rwa [hreceive]
    · -- A send waits at an empty buffer, so the capacity is zero and stays used up
      have hwait := h.receivers_eq_nil (Or.inr (by simp [hsenders]))
      have hopen := h.closed_eq_false (by simp [hsenders])
      have hreceive : (c.receive receiver).1 = { c with senders } := by
        simp [Channel.receive, hbuffer, hsenders]
      rw [hreceive]
      refine { h with starved := ?_, full := ?_, closed := ?_ }
      · intro hne
        exact absurd hwait hne
      · intro _
        exact h.full (by simp [hsenders])
      · intro hend
        exact absurd hend (by simp [hopen])
  · have hwait := h.receivers_eq_nil (Or.inl (by simp [hbuffer]))
    have hlength := h.length_buffer
    rw [hbuffer, List.length_cons] at hlength
    rcases hsenders : c.senders with _ | ⟨⟨sender, next⟩, senders⟩
    · have hreceive : (c.receive receiver).1 = { c with buffer } := by
        simp [Channel.receive, hbuffer, hsenders]
      rw [hreceive]
      refine { h with length_buffer := ?_, starved := ?_, full := ?_ }
      · exact Nat.le_of_succ_le hlength
      · intro hne
        exact absurd hwait hne
      · intro hne
        exact absurd hsenders hne
    · -- The value of the send that has waited longest takes the place of the one received
      have hreceive : (c.receive receiver).1 = { c with buffer := buffer ++ [next], senders } := by
        simp [Channel.receive, hbuffer, hsenders]
      have hopen := h.closed_eq_false (by simp [hsenders])
      have hfull := h.full (by simp [hsenders])
      rw [hbuffer, List.length_cons] at hfull
      rw [hreceive]
      refine { h with length_buffer := ?_, starved := ?_, full := ?_, closed := ?_ }
      · simpa using hlength
      · intro hne
        exact absurd hwait hne
      · intro _
        simpa using hfull
      · intro hend
        exact absurd hend (by simp [hopen])

theorem close (h : c.Regular capacity) {next : Channel α} {answers : List (Nat × Answer α)}
    (hclose : c.close? = some (next, answers)) : next.Regular capacity := by
  unfold close? at hclose
  split at hclose
  · cases hclose
  · cases hclose
    exact { h with
      starved := absurd rfl
      full := absurd rfl
      closed := fun _ => ⟨rfl, rfl⟩ }

end Regular

/-! ## Every state -/

/-- An operation by someone leads from one state of a channel to another one. -/
inductive Leads : Channel α → Channel α → Prop
  | send (c : Channel α) (sender : Nat) (value : α) : Leads c (c.send sender value).1
  | receive (c : Channel α) (receiver : Nat) : Leads c (c.receive receiver).1
  | close {c next : Channel α} {answers : List (Nat × Answer α)} :
    c.close? = some (next, answers) → Leads c next

/-- The states that operations lead to from a channel that nobody has used. -/
abbrev Reachable (capacity : Nat) : Channel α → Prop :=
  Relation.ReflTransGen Leads (empty capacity)

theorem Regular.leads {capacity : Nat} {c next : Channel α} (h : c.Regular capacity)
    (hleads : Leads c next) : next.Regular capacity := by
  cases hleads with
  | send sender value => exact h.send sender value
  | receive receiver => exact h.receive receiver
  | close hclose => exact h.close hclose

theorem Reachable.regular {capacity : Nat} {c : Channel α} (h : Reachable capacity c) :
    c.Regular capacity := by
  induction h with
  | refl => exact regular_empty capacity
  | tail _ hleads ih => exact ih.leads hleads

end Channel

namespace Exchange
variable {capacity : Nat} {e : Exchange α}

/-! ## Those who use a channel -/

theorem reachable_start (h : Channel.Reachable capacity e.channel) (operation : Operation α) :
    Channel.Reachable capacity (e.start operation).channel := by
  cases operation with
  | send value => exact h.tail (.send e.channel e.next value)
  | receive => exact h.tail (.receive e.channel e.next)
  | iterate limit => exact h.tail (.receive e.channel e.next)
  | close =>
    rcases hclose : e.channel.close? with _ | ⟨next, answers⟩
    · simpa [start, hclose] using h
    · have hnext : (e.start .close).channel = next := by simp [start, hclose, deliver]
      rw [hnext]
      exact h.tail (.close hclose)

theorem reachable_handle (h : Channel.Reachable capacity e.channel) (step : Step α) :
    Channel.Reachable capacity (e.handle step).channel := by
  cases step with
  | start operation => exact reachable_start h operation
  | ask id => exact h.tail (.receive e.channel id)
  | see id =>
    rw [handle, channel_see]
    exact h

/-- Those who use a channel, consumers too, lead it to no other state than operations do. -/
theorem reachable_run (h : Channel.Reachable capacity e.channel) (steps : List (Step α)) :
    Channel.Reachable capacity (e.run steps).channel := by
  induction steps generalizing e with
  | nil => exact h
  | cons step steps ih => exact ih (reachable_handle h step)

end Exchange

namespace Channel

/-- **Nobody waits at a channel without need.**  In every state that operations lead to, the buffer
    keeps to the capacity; who waits to receive waits at an empty channel, who waits to send at a
    full one; and nobody waits at a closed one. -/
theorem waits_only_with_need {capacity : Nat} {c : Channel α} (h : Reachable capacity c) :
    c.buffer.length ≤ capacity
      ∧ (c.receivers ≠ [] → c.buffer = [] ∧ c.senders = [])
      ∧ (c.senders ≠ [] → c.buffer.length = capacity)
      ∧ (c.closed = true → c.senders = [] ∧ c.receivers = []) := by
  have hregular := h.regular
  exact ⟨hregular.length_buffer, hregular.starved, hregular.full, hregular.closed⟩

/-- Four sends and a receive with room for two values: the fourth send waits at a full channel. -/
theorem waits_only_with_need_full :
    let steps : List (Exchange.Step Nat) :=
      [.start (.send 1), .start (.send 2), .start (.send 3), .start .receive, .start (.send 4)]
    let c := ((Exchange.ofChannel (.empty 2)).run steps).channel
    Reachable 2 c ∧ c.senders = [(4, 4)] ∧ c.buffer.length = 2 := by
  intro steps c
  have hreachable : Reachable 2 c := Exchange.reachable_run .refl steps
  obtain ⟨-, -, hfull, -⟩ := waits_only_with_need hreachable
  have hsenders : c.senders = [(4, 4)] := rfl
  exact ⟨hreachable, hsenders, hfull (by simp [hsenders])⟩

end Channel

end ServedChain
