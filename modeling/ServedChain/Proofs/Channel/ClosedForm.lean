/-
  The closed form of an open channel.

  * `OpenLedger.length_taken` and `OpenLedger.length_received`: how many sends are
    accepted and how many receives get a value, counted from the calls alone;
  * `OpenLedger.received_eq` and `OpenLedger.buffer_eq`: which values these are;
  * `afterCalls_closed_form`: the whole, and that only the values in order and the
    number of receives matter.
-/
import ServedChain.Proofs.Channel.Ledger

namespace ServedChain.Exchange

variable {α : Type}

namespace OpenLedger
variable {capacity : Nat} {calls : List (Call α)} {e : Exchange α} {taken : List (Nat × α)}

theorem length_calls (h : OpenLedger capacity calls e taken) :
    (Exchange.sends calls).length = taken.length + e.channel.senders.length
      ∧ (Exchange.receives calls).length = e.received.length + e.channel.receivers.length
      ∧ taken.length = e.received.length + e.channel.buffer.length := by
  refine ⟨by rw [h.sends, List.length_append], ?_, ?_⟩
  · rw [h.receives, List.length_append, List.length_map]
  · simpa using congrArg List.length h.values

/-- As many sends are accepted as there are receives and places in the buffer. -/
theorem length_taken (h : OpenLedger capacity calls e taken) : taken.length
    = min (Exchange.sends calls).length ((Exchange.receives calls).length + capacity) := by
  obtain ⟨hsends, hreceives, htaken⟩ := h.length_calls
  have hbuffer := h.length_buffer
  rcases hs : e.channel.senders with _ | ⟨sender, senders⟩
  · rw [hs, List.length_nil] at hsends
    omega
  · have hfull := h.full (by simp [hs])
    have hwait : e.channel.receivers = [] := by
      by_contra hne
      rw [(h.starved hne).2] at hs
      cases hs
    rw [hwait, List.length_nil] at hreceives
    omega

/-- As many receives get a value as there are sends. -/
theorem length_received (h : OpenLedger capacity calls e taken) : e.received.length
    = min (Exchange.sends calls).length (Exchange.receives calls).length := by
  obtain ⟨hsends, hreceives, htaken⟩ := h.length_calls
  rcases hr : e.channel.receivers with _ | ⟨receiver, receivers⟩
  · rw [hr, List.length_nil] at hreceives
    omega
  · obtain ⟨hbuffer, hwait⟩ := h.starved (by simp [hr])
    rw [hbuffer, List.length_nil] at htaken
    rw [hwait, List.length_nil] at hsends
    omega

theorem sends_values (h : OpenLedger capacity calls e taken) :
    (Exchange.sends calls).map Prod.snd
      = e.received.map Prod.snd ++ (e.channel.buffer ++ e.channel.senders.map Prod.snd) := by
  rw [h.sends, List.map_append, h.values, List.append_assoc]

/-- Each receive gets the value of the send at its own place. -/
theorem received_eq (h : OpenLedger capacity calls e taken) :
    e.received = (Exchange.receives calls).zip ((Exchange.sends calls).map Prod.snd) := by
  rw [h.sends_values, h.receives]
  refine eq_zip_of_append ?_
  by_cases hne : e.channel.receivers = []
  · exact Or.inl hne
  · obtain ⟨hbuffer, hsenders⟩ := h.starved hne
    exact Or.inr (by rw [hbuffer, hsenders]; rfl)

theorem values_received (h : OpenLedger capacity calls e taken) :
    e.received.map Prod.snd = ((Exchange.sends calls).map Prod.snd).take
      (min (Exchange.sends calls).length (Exchange.receives calls).length) := by
  rw [← h.length_received, h.sends_values, List.take_left' (by simp)]

/-- The buffer holds the values behind those that were received, as far as there is room. -/
theorem buffer_eq (h : OpenLedger capacity calls e taken) :
    e.channel.buffer
      = (((Exchange.sends calls).map Prod.snd).drop e.received.length).take
        (min ((Exchange.sends calls).length - e.received.length) capacity) := by
  have hdrop : ((Exchange.sends calls).map Prod.snd).drop e.received.length
      = e.channel.buffer ++ e.channel.senders.map Prod.snd := by
    rw [h.sends_values, List.drop_left' (by simp)]
  obtain ⟨hsends, hreceives, htaken⟩ := h.length_calls
  have hlength := h.length_taken
  have hreceived := h.length_received
  rw [hdrop, List.take_left' (by omega)]

theorem taken_eq (h : OpenLedger capacity calls e taken) :
    taken = (Exchange.sends calls).take
      (min (Exchange.sends calls).length ((Exchange.receives calls).length + capacity)) := by
  rw [← h.length_taken, h.sends, List.take_left]

theorem senders_eq (h : OpenLedger capacity calls e taken) :
    e.channel.senders = (Exchange.sends calls).drop
      (min (Exchange.sends calls).length ((Exchange.receives calls).length + capacity)) := by
  rw [← h.length_taken, h.sends, List.drop_left]

theorem receivers_eq (h : OpenLedger capacity calls e taken) :
    e.channel.receivers = (Exchange.receives calls).drop
      (min (Exchange.sends calls).length (Exchange.receives calls).length) := by
  rw [← h.length_received, h.receives, List.drop_left' (by simp)]

end OpenLedger

/-- **An open channel, counted from the calls.**  The receives get the values in the order in which
    these were sent, and those behind them wait; as many sends are accepted as there are receives
    and places in the buffer, and those behind them wait.  Hence two runs with the same values in
    order and the same number of receives come to the same, however the calls are mixed, and the
    capacity does not matter to what is received. -/
theorem afterCalls_closed_form (capacity : Nat) (calls : List (Call α)) (h : .close ∉ calls) :
    let e := afterCalls capacity calls
    let values := (sends calls).map Prod.snd
    let count := min (sends calls).length (receives calls).length
    let room := min (sends calls).length ((receives calls).length + capacity)
    e.received = (receives calls).zip values
      ∧ e.channel.receivers = (receives calls).drop count
      ∧ e.finished = []
      ∧ e.channel.buffer = (values.drop count).take (min ((sends calls).length - count) capacity)
      ∧ e.accepted = ((sends calls).take room).map Prod.fst
      ∧ e.channel.senders = (sends calls).drop room
      ∧ e.refused = []
      ∧ ∀ (capacity' : Nat) (calls' : List (Call α)), .close ∉ calls' →
        (sends calls').map Prod.snd = values →
        (receives calls').length = (receives calls).length →
        let e' := afterCalls capacity' calls'
        e'.received.map Prod.snd = e.received.map Prod.snd
          ∧ e'.channel.receivers.length = e.channel.receivers.length
          ∧ (capacity' = capacity → e'.channel.buffer = e.channel.buffer
            ∧ e'.accepted.length = e.accepted.length
            ∧ e'.channel.senders.map Prod.snd = e.channel.senders.map Prod.snd) := by
  intro e values count room
  obtain ⟨taken, hledger⟩ := openLedger_afterCalls capacity h
  refine ⟨hledger.received_eq, hledger.receivers_eq, hledger.finished, ?_, ?_, hledger.senders_eq,
    hledger.refused, ?_⟩
  · rw [hledger.buffer_eq, hledger.length_received]
  · rw [hledger.accepted, hledger.taken_eq]
  · intro capacity' calls' h' hvalues hcount e'
    obtain ⟨taken', hledger'⟩ := openLedger_afterCalls capacity' h'
    have hlength : (sends calls').length = (sends calls).length := by
      simpa [values] using congrArg List.length hvalues
    refine ⟨?_, ?_, ?_⟩
    · rw [hledger.values_received, hledger'.values_received, hvalues, hlength, hcount]
    · rw [hledger.receivers_eq, hledger'.receivers_eq]
      simp [hlength, hcount]
    · rintro rfl
      refine ⟨?_, ?_, ?_⟩
      · rw [hledger.buffer_eq, hledger'.buffer_eq, hledger.length_received,
          hledger'.length_received, hlength, hcount, hvalues]
      · rw [hledger.accepted, hledger'.accepted]
        simp [hledger.length_taken, hledger'.length_taken, hlength, hcount]
      · rw [hledger.senders_eq, hledger'.senders_eq, List.map_drop, List.map_drop, hvalues, hlength,
          hcount]

/-- Five sends and two receives with room for two values, in two orders. -/
theorem afterCalls_closed_form_mixed :
    let calls : List (Call Nat) := [.receive, .send 1, .send 2, .send 3, .send 4, .receive, .send 5]
    let calls' : List (Call Nat) := [.send 1, .send 2, .send 3, .send 4, .send 5, .receive, .receive]
    .close ∉ calls ∧ .close ∉ calls'
      ∧ (afterCalls 2 calls).received = [(0, 1), (5, 2)]
      ∧ (afterCalls 2 calls).channel.buffer = [3, 4]
      ∧ (afterCalls 2 calls).channel.senders = [(6, 5)]
      ∧ (afterCalls 2 calls').channel.buffer = (afterCalls 2 calls).channel.buffer := by
  intro calls calls'
  have hopen : .close ∉ calls := by decide
  have hopen' : .close ∉ calls' := by decide
  obtain ⟨hreceived, -, -, hbuffer, -, hsenders, -, hsame⟩ := afterCalls_closed_form 2 calls hopen
  exact ⟨hopen, hopen', hreceived, hbuffer, hsenders,
    ((hsame 2 calls' hopen' rfl rfl).2.2 rfl).1⟩

end ServedChain.Exchange
