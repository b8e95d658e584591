/-
  The accounts of a channel: what was sent over it and what became of that.

  * `OpenLedger`: the values of the sends that were accepted are those that were
    received, and behind them the buffer; the other sends wait;
  * `ClosedLedger`: the same behind a close, where nobody waits;
  * `openLedger_afterCalls` and `closedLedger_afterCalls`: every run keeps them.
-/
import Mathlib.Data.List.Induction
import ServedChain.Proofs.Channel.Regular

namespace ServedChain.Exchange

variable {α : Type}

/-- Pairs stand at the places of their parts, if behind them one of the two lists ends. -/
theorem eq_zip_of_append {pairs : List (Nat × α)} {ids : List Nat} {values : List α}
    (h : ids = [] ∨ values = []) :
    pairs = (pairs.map Prod.fst ++ ids).zip (pairs.map Prod.snd ++ values) := by
  have hrest : ids.zip values = [] := by
    rcases h with rfl | rfl
    · exact List.zip_nil_left
    · exact List.zip_nil_right
  rw [List.zip_append (by simp), hrest, List.append_nil]
  exact List.zip_of_prod rfl rfl

/-- The sends in front, found by their numbers. -/
theorem filter_mem_fst_of_isPrefix {front sends : List (Nat × α)} (hfront : front <+: sends)
    (hsends : (sends.map Prod.fst).Nodup) :
    sends.filter (fun send => send.1 ∈ front.map Prod.fst) = front := by
  obtain ⟨back, rfl⟩ := hfront
  rw [List.map_append, List.nodup_append] at hsends
  have hall : front.filter (fun send => send.1 ∈ front.map Prod.fst) = front :=
    List.filter_eq_self.2 fun send hsend => decide_eq_true (List.mem_map_of_mem hsend)
  have hnone : back.filter (fun send => send.1 ∈ front.map Prod.fst) = [] := by
    refine List.filter_eq_nil_iff.2 fun send hsend hmem => ?_
    exact hsends.2.2 _ (of_decide_eq_true hmem) _ (List.mem_map_of_mem hsend) rfl
  rw [List.filter_append, hall, hnone, List.append_nil]

/-! ## An open channel -/

/-- The accounts of a channel that is open, with the sends that were accepted. -/
structure OpenLedger (capacity : Nat) (calls : List (Call α)) (e : Exchange α)
    (taken : List (Nat × α)) : Prop where
  consumers : e.consumers = []
  closed : e.channel.closed = false
  closeErrors : e.closeErrors = 0
  capacity_eq : e.channel.capacity = capacity
  next : e.next = (numbered calls).length
  /-- The sends that were accepted come first, and those that wait behind them -/
  sends : sends calls = taken ++ e.channel.senders
  receives : receives calls = e.received.map Prod.fst ++ e.channel.receivers
  accepted : e.accepted = taken.map Prod.fst
  /-- What was accepted was received, or is in the buffer -/
  values : taken.map Prod.snd = e.received.map Prod.snd ++ e.channel.buffer
  refused : e.refused = []
  finished : e.finished = []
  length_buffer : e.channel.buffer.length ≤ capacity
  /-- Nobody waits to send as long as there is room -/
  full : e.channel.senders ≠ [] → e.channel.buffer.length = capacity
  /-- Nobody waits to receive as long as there is a value -/
  starved : e.channel.receivers ≠ [] → e.channel.buffer = [] ∧ e.channel.senders = []

namespace OpenLedger
variable {capacity : Nat} {calls : List (Call α)} {e : Exchange α} {taken : List (Nat × α)}

theorem initial (capacity : Nat) :
    OpenLedger capacity [] (afterCalls capacity ([] : List (Call α))) [] where
  consumers := rfl
  closed := rfl
  closeErrors := rfl
  capacity_eq := rfl
  next := rfl
  sends := rfl
  receives := rfl
  accepted := rfl
  values := rfl
  refused := rfl
  finished := rfl
  length_buffer := Nat.zero_le _
  full := absurd rfl
  starved := absurd rfl

theorem regular (h : OpenLedger capacity calls e taken) : e.channel.Regular capacity where
  capacity_eq := h.capacity_eq
  length_buffer := h.length_buffer
  starved := h.starved
  full := h.full
  closed hclosed := by
    rw [h.closed] at hclosed
    cases hclosed

theorem send (h : OpenLedger capacity calls e taken) (value : α) :
    ∃ taken', OpenLedger capacity (calls ++ [.send value]) (e.start (.send value)) taken' := by
  have hregular := h.regular.send e.next value
  rcases hreceivers : e.channel.receivers with _ | ⟨receiver, receivers⟩
  · by_cases hroom : e.channel.buffer.length < e.channel.capacity
    · -- The value goes into the buffer
      have hsenders := h.regular.senders_eq_nil hroom
      have hsend : e.channel.send e.next value
          = ({ e.channel with buffer := e.channel.buffer ++ [value] }, [(e.next, .sent)]) := by
        simp [Channel.send, h.closed, hreceivers, hroom]
      refine ⟨taken ++ [(e.next, value)], ?_⟩
      rw [start_send h.consumers hsend]
      rw [hsend] at hregular
      exact { h with
        next := by simp [h.next]
        sends := by simp [h.sends, hsenders, h.next]
        receives := by simpa [received] using h.receives
        accepted := by simp [Exchange.accepted, ← h.accepted]
        values := by simp [received, h.values]
        refused := by simpa [Exchange.refused] using h.refused
        finished := by simpa [Exchange.finished] using h.finished
        length_buffer := hregular.length_buffer
        full := hregular.full
        starved := hregular.starved }
    · -- The send waits
      have hsend : e.channel.send e.next value
          = ({ e.channel with senders := e.channel.senders ++ [(e.next, value)] }, []) := by
        simp [Channel.send, h.closed, hreceivers, hroom]
      refine ⟨taken, ?_⟩
      rw [start_send h.consumers hsend]
      rw [hsend] at hregular
      exact { h with
        next := by simp [h.next]
        sends := by simp [h.sends, h.next]
        receives := by simpa [received] using h.receives
        accepted := by simpa [Exchange.accepted] using h.accepted
        values := by simpa [received] using h.values
        refused := by simpa [Exchange.refused] using h.refused
        finished := by simpa [Exchange.finished] using h.finished
        length_buffer := hregular.length_buffer
        full := hregular.full
        starved := hregular.starved }
  · -- The value goes to the receive that has waited longest
    obtain ⟨hbuffer, hsenders⟩ := h.starved (by simp [hreceivers])
    have hsend : e.channel.send e.next value
        = ({ e.channel with receivers }, [(receiver, .received value), (e.next, .sent)]) := by
      simp [Channel.send, h.closed, hreceivers]
    refine ⟨taken ++ [(e.next, value)], ?_⟩
    rw [start_send h.consumers hsend]
    rw [hsend] at hregular
    exact { h with
      next := by simp [h.next]
      sends := by simp [h.sends, hsenders, h.next]
      receives := by simpa [received, hreceivers] using h.receives
      accepted := by simp [Exchange.accepted, ← h.accepted]
      values := by simp [received, h.values, hbuffer]
      refused := by simpa [Exchange.refused] using h.refused
      finished := by simpa [Exchange.finished] using h.finished
      length_buffer := hregular.length_buffer
      full := hregular.full
      starved := hregular.starved }

theorem receive (h : OpenLedger capacity calls e taken) :
    ∃ taken', OpenLedger capacity (calls ++ [.receive]) (e.start .receive) taken' := by
  have hregular := h.regular.receive e.next
  rcases hbuffer : e.channel.buffer with _ | ⟨value, buffer⟩
  · rcases hsenders : e.channel.senders with _ | ⟨⟨sender, value⟩, senders⟩
    · -- The receive waits
      have hreceive : e.channel.receive e.next
          = ({ e.channel with receivers := e.channel.receivers ++ [e.next] }, []) := by
        simp [Channel.receive, hbuffer, hsenders, h.closed]
      refine ⟨taken, ?_⟩
      rw [start_receive h.consumers hreceive]
      rw [hreceive] at hregular
      exact { h with
        next := by simp [h.next]
        sends := by simpa using h.sends
        receives := by simp [h.receives, received, h.next]
        accepted := by simpa [Exchange.accepted] using h.accepted
        values := by simpa [received] using h.values
        refused := by simpa [Exchange.refused] using h.refused
        finished := by simpa [Exchange.finished] using h.finished
        length_buffer := hregular.length_buffer
        full := hregular.full
        starved := hregular.starved }
    · -- The value comes from the send that has waited longest
      have hwait := h.regular.receivers_eq_nil (Or.inr (by simp [hsenders]))
      have hreceive : e.channel.receive e.next
          = ({ e.channel with senders }, [(sender, .sent), (e.next, .received value)]) := by
        simp [Channel.receive, hbuffer, hsenders]
      refine ⟨taken ++ [(sender, value)], ?_⟩
      rw [start_receive h.consumers hreceive]
      rw [hreceive] at hregular
      exact { h with
        next := by simp [h.next]
        sends := by simp [h.sends, hsenders]
        receives := by simp [h.receives, received, hwait, h.next]
        accepted := by simp [Exchange.accepted, ← h.accepted]
        values := by simp [received, h.values, hbuffer]
        refused := by simpa [Exchange.refused] using h.refused
        finished := by simpa [Exchange.finished] using h.finished
        length_buffer := hregular.length_buffer
        full := hregular.full
        starved := hregular.starved }
  · have hwait := h.regular.receivers_eq_nil (Or.inl (by simp [hbuffer]))
    rcases hsenders : e.channel.senders with _ | ⟨⟨sender, next⟩, senders⟩
    · -- The value comes from the buffer
      have hreceive : e.channel.receive e.next
          = ({ e.channel with buffer }, [(e.next, .received value)]) := by
        simp [Channel.receive, hbuffer, hsenders]
      refine ⟨taken, ?_⟩
      rw [start_receive h.consumers hreceive]
      rw [hreceive] at hregular
      exact { h with
        next := by simp [h.next]
        sends := by simpa using h.sends
        receives := by simp [h.receives, received, hwait, h.next]
        accepted := by simpa [Exchange.accepted] using h.accepted
        values := by simp [received, h.values, hbuffer]
        refused := by simpa [Exchange.refused] using h.refused
        finished := by simpa [Exchange.finished] using h.finished
        length_buffer := hregular.length_buffer
        full := hregular.full
        starved := hregular.starved }
    · -- It does, and the value of the send that has waited longest takes its place
      have hreceive : e.channel.receive e.next
          = ({ e.channel with buffer := buffer ++ [next], senders },
            [(sender, .sent), (e.next, .received value)]) := by
        simp [Channel.receive, hbuffer, hsenders]
      refine ⟨taken ++ [(sender, next)], ?_⟩
      rw [start_receive h.consumers hreceive]
      rw [hreceive] at hregular
      exact { h with
        next := by simp [h.next]
        sends := by simp [h.sends, hsenders]
        receives := by simp [h.receives, received, hwait, h.next]
        accepted := by simp [Exchange.accepted, ← h.accepted]
        values := by simp [received, h.values, hbuffer]
        refused := by simpa [Exchange.refused] using h.refused
        finished := by simpa [Exchange.finished] using h.finished
        length_buffer := hregular.length_buffer
        full := hregular.full
        starved := hregular.starved }

theorem start_close_eq (h : OpenLedger capacity calls e taken) :
    e.start .close = { e with
      channel := { e.channel with closed := true, receivers := [], senders := [] }
      answers := e.answers ++ (e.channel.receivers.map (fun receiver => (receiver, .finished))
        ++ e.channel.senders.map fun (sender, _) => (sender, .refused)) } := by
  have hclose : e.channel.close? = some ({ e.channel with
        closed := true, receivers := [], senders := [] },
      e.channel.receivers.map (fun receiver => (receiver, .finished))
        ++ e.channel.senders.map fun (sender, _) => (sender, .refused)) := by
    simp [Channel.close?, h.closed]
  exact start_close h.consumers hclose

theorem closeErrors_start_close (h : OpenLedger capacity calls e taken) :
    (e.start .close).closeErrors = 0 := by
  rw [h.start_close_eq]
  exact h.closeErrors

end OpenLedger

theorem openLedger_afterCalls (capacity : Nat) {calls : List (Call α)} (h : .close ∉ calls) :
    ∃ taken, OpenLedger capacity calls (afterCalls capacity calls) taken := by
  induction calls using List.reverseRecOn with
  | nil => exact ⟨[], .initial capacity⟩
  | append_singleton calls call ih =>
    rw [List.mem_append, not_or, List.mem_singleton] at h
    obtain ⟨taken, hledger⟩ := ih h.1
    rw [afterCalls_concat]
    cases call with
    | send value => exact hledger.send value
    | receive => exact hledger.receive
    | close => exact absurd rfl h.2

/-! ## A closed channel -/

/-- The accounts of a channel that is closed, with the sends that were accepted. -/
structure ClosedLedger (calls : List (Call α)) (e : Exchange α) (taken : List (Nat × α)) :
    Prop where
  consumers : e.consumers = []
  closed : e.channel.closed = true
  next : e.next = (numbered calls).length
  taken_prefix : taken <+: sends calls
  receives : receives calls = e.received.map Prod.fst ++ e.finished
  accepted : e.accepted = taken.map Prod.fst
  /-- The other sends were refused -/
  refused : e.refused = ((sends calls).drop taken.length).map Prod.fst
  values : taken.map Prod.snd = e.received.map Prod.snd ++ e.channel.buffer
  senders : e.channel.senders = []
  receivers : e.channel.receivers = []
  /-- Nobody is told that there is nothing more as long as there is a value -/
  drained : e.finished ≠ [] → e.channel.buffer = []

namespace ClosedLedger
variable {capacity : Nat} {calls : List (Call α)} {e : Exchange α} {taken : List (Nat × α)}

/-- The accounts are closed: those who wait are told so. -/
theorem ofOpen (h : OpenLedger capacity calls e taken) :
    ClosedLedger (calls ++ [.close]) (e.start .close) taken := by
  have hstart := h.start_close_eq
  have hreceived : (e.start .close).received = e.received := by
    simp [hstart, received]
  have hfinished : (e.start .close).finished = e.channel.receivers := by
    have hnone := h.finished
    simp only [finished] at hnone
    simp only [hstart, finished, List.filterMap_append, hnone, List.filterMap_map,
      Function.comp_def]
    simp
  have hrefused : (e.start .close).refused = e.channel.senders.map Prod.fst := by
    have hnone := h.refused
    simp only [Exchange.refused] at hnone
    simp only [hstart, Exchange.refused, List.filterMap_append, hnone, List.filterMap_map,
      Function.comp_def]
    simp
  have haccepted : (e.start .close).accepted = e.accepted := by
    simp [hstart, Exchange.accepted]
  exact {
    consumers := by rw [hstart, h.consumers]
    closed := by rw [hstart]
    next := by simp [hstart, h.next]
    taken_prefix := by simp [h.sends]
    receives := by rw [receives_concat_close, h.receives, hreceived, hfinished]
    accepted := by rw [haccepted, h.accepted]
    refused := by rw [hrefused, sends_concat_close, h.sends, List.drop_left]
    values := by rw [h.values, hreceived, hstart]
    senders := by rw [hstart]
    receivers := by rw [hstart]
    drained := by
      rw [hfinished, hstart]
      exact fun hne => (h.starved hne).1 }

theorem send (h : ClosedLedger calls e taken) (value : α) :
    ClosedLedger (calls ++ [.send value]) (e.start (.send value)) taken := by
  have hsend : e.channel.send e.next value = (e.channel, [(e.next, .refused)]) := by
    simp [Channel.send, h.closed]
  rw [start_send h.consumers hsend]
  exact { h with
    next := by simp [h.next]
    taken_prefix := by simpa using h.taken_prefix.trans (List.prefix_append _ _)
    receives := by simpa [received, finished] using h.receives
    accepted := by simpa [Exchange.accepted] using h.accepted
    refused := by
      have hrefused := h.refused
      simp only [Exchange.refused] at hrefused
      simp [Exchange.refused, hrefused, List.drop_append_of_le_length h.taken_prefix.length_le,
        h.next]
    values := by simpa [received] using h.values
    drained := by simpa [finished] using h.drained }

theorem receive (h : ClosedLedger calls e taken) :
    ClosedLedger (calls ++ [.receive]) (e.start .receive) taken := by
  rcases hbuffer : e.channel.buffer with _ | ⟨value, buffer⟩
  · have hreceive : e.channel.receive e.next = (e.channel, [(e.next, .finished)]) := by
      simp [Channel.receive, hbuffer, h.senders, h.closed]
    rw [start_receive h.consumers hreceive]
    exact { h with
      next := by simp [h.next]
      taken_prefix := by simpa using h.taken_prefix
      receives := by simp [h.receives, received, finished, h.next]
      accepted := by simpa [Exchange.accepted] using h.accepted
      refused := by simpa [Exchange.refused] using h.refused
      values := by simpa [received] using h.values
      drained := fun _ => hbuffer }
  · have hreceive : e.channel.receive e.next
        = ({ e.channel with buffer }, [(e.next, .received value)]) := by
      simp [Channel.receive, hbuffer, h.senders]
    have hfinished : e.finished = [] := by
      by_contra hne
      rw [h.drained hne] at hbuffer
      cases hbuffer
    rw [start_receive h.consumers hreceive]
    exact { h with
      next := by simp [h.next]
      taken_prefix := by simpa using h.taken_prefix
      receives := by
        simp only [finished] at hfinished
        simp [h.receives, received, finished, hfinished, h.next]
      accepted := by simpa [Exchange.accepted] using h.accepted
      refused := by simpa [Exchange.refused] using h.refused
      values := by simp [received, h.values, hbuffer]
      drained := fun hne => absurd (by simpa [finished] using hfinished) hne }

/-- A channel is not closed twice. -/
theorem start_close_eq (h : ClosedLedger calls e taken) :
    e.start .close = { e with closeErrors := e.closeErrors + 1 } := by
  simp [start, Channel.close?, h.closed]

theorem close (h : ClosedLedger calls e taken) :
    ClosedLedger (calls ++ [.close]) (e.start .close) taken := by
  rw [h.start_close_eq]
  exact { h with
    next := by simp [h.next]
    taken_prefix := by simpa using h.taken_prefix
    receives := by rw [receives_concat_close]; exact h.receives
    refused := by rw [sends_concat_close]; exact h.refused }

end ClosedLedger

/-- **The accounts of a channel that was closed.**  Nothing is accepted after the close. -/
theorem closedLedger_afterCalls (capacity : Nat) {before : List (Call α)} (h : .close ∉ before)
    (rest : List (Call α)) :
    ∃ taken, OpenLedger capacity before (afterCalls capacity before) taken
      ∧ ClosedLedger (before ++ .close :: rest) (afterCalls capacity (before ++ .close :: rest))
        taken := by
  obtain ⟨taken, hopen⟩ := openLedger_afterCalls capacity h
  refine ⟨taken, hopen, ?_⟩
  induction rest using List.reverseRecOn with
  | nil =>
    rw [afterCalls_concat]
    exact .ofOpen hopen
  | append_singleton rest call ih =>
    rw [← List.cons_append, ← List.append_assoc, afterCalls_concat]
    cases call with
    | send value => exact ih.send value
    | receive => exact ih.receive
    | close => exact ih.close

end ServedChain.Exchange
