/-
  A channel loses nothing and duplicates nothing, also when it is closed.

  * `Accounts` is what the accounts of open and of closed channels have in common:
    the sends that were accepted, and behind them the others;
  * `Conserved` says what becomes of sends and receives in every run, and `Ended`
    what holds from the first close on;
  * `afterCalls_conserve`: both are so, whatever the calls are.
-/
import ServedChain.Proofs.Channel.Ledger

namespace ServedChain.Exchange

variable {α : Type}

/-! ## Accounts -/

/-- What the accounts of open and of closed channels have in common, with the sends that were
    accepted and the others. -/
structure Accounts (calls : List (Call α)) (e : Exchange α) (taken left : List (Nat × α)) :
    Prop where
  sends : sends calls = taken ++ left
  receives : e.received.map Prod.fst <+: receives calls
  accepted : e.accepted = taken.map Prod.fst
  refused : e.refused <+: left.map Prod.fst
  values : e.received.map Prod.snd <+: taken.map Prod.snd

theorem OpenLedger.accounts {capacity : Nat} {calls : List (Call α)} {e : Exchange α}
    {taken : List (Nat × α)} (h : OpenLedger capacity calls e taken) :
    Accounts calls e taken e.channel.senders where
  sends := h.sends
  receives := ⟨_, h.receives.symm⟩
  accepted := h.accepted
  refused := by rw [h.refused]; exact List.nil_prefix
  values := ⟨_, h.values.symm⟩

theorem ClosedLedger.accounts {calls : List (Call α)} {e : Exchange α} {taken : List (Nat × α)}
    (h : ClosedLedger calls e taken) :
    Accounts calls e taken ((Exchange.sends calls).drop taken.length) where
  sends := by
    obtain ⟨left, hleft⟩ := h.taken_prefix
    rw [← hleft, List.drop_left]
  receives := ⟨_, h.receives.symm⟩
  accepted := h.accepted
  refused := h.refused ▸ List.prefix_rfl
  values := ⟨_, h.values.symm⟩

theorem exists_accounts (capacity : Nat) (calls : List (Call α)) :
    ∃ taken left, Accounts calls (afterCalls capacity calls) taken left := by
  by_cases h : .close ∈ calls
  · obtain ⟨before, rest, rfl, hbefore⟩ := List.eq_append_cons_of_mem h
    obtain ⟨taken, -, hclosed⟩ := closedLedger_afterCalls capacity hbefore rest
    exact ⟨taken, _, hclosed.accounts⟩
  · obtain ⟨taken, hopen⟩ := openLedger_afterCalls capacity h
    exact ⟨taken, _, hopen.accounts⟩

/-- The sends that were accepted, in the order of the calls. -/
def acceptedSends (calls : List (Call α)) (e : Exchange α) : List (Nat × α) :=
  (sends calls).filter fun send => send.1 ∈ e.accepted

namespace Accounts
variable {calls : List (Call α)} {e : Exchange α} {taken left : List (Nat × α)}

theorem disjoint (h : Accounts calls e taken left) {send other : Nat × α} (hsend : send ∈ taken)
    (hother : other ∈ left) : send.1 ≠ other.1 := by
  have hnodup := nodup_sends calls
  rw [h.sends, List.map_append] at hnodup
  exact (List.nodup_append.1 hnodup).2.2 _ (List.mem_map_of_mem hsend) _
    (List.mem_map_of_mem hother)

theorem acceptedSends_eq (h : Accounts calls e taken left) : acceptedSends calls e = taken := by
  rw [acceptedSends, h.accepted]
  exact filter_mem_fst_of_isPrefix ⟨left, h.sends.symm⟩ (nodup_sends calls)

theorem settled (h : Accounts calls e taken left) :
    e.accepted ++ e.refused <+: (Exchange.sends calls).map Prod.fst := by
  rw [h.accepted, h.sends, List.map_append]
  exact (List.prefix_append_right_inj _).2 h.refused

end Accounts

/-! ## Runs -/

/-- What becomes of sends and receives. -/
structure Conserved (calls : List (Call α)) (e : Exchange α) : Prop where
  /-- Every send is settled once at most, and not both ways -/
  settled_once : (e.accepted ++ e.refused).Nodup
  settled_sends : e.accepted ++ e.refused ⊆ (sends calls).map Prod.fst
  /-- The receives are served in the order of the calls -/
  received_order : e.received.map Prod.fst <+: receives calls
  /-- They get the values that were accepted, in the order of the calls -/
  received_values : e.received.map Prod.snd <+: (acceptedSends calls e).map Prod.snd
  /-- No value is received twice -/
  received_once : ((sends calls).map Prod.snd).Nodup → (e.received.map Prod.snd).Nodup
  /-- No value that was refused is received -/
  refused_lost : ((sends calls).map Prod.snd).Nodup →
    ∀ send ∈ sends calls, send.1 ∈ e.refused → send.2 ∉ e.received.map Prod.snd
  /-- Without a close nothing is refused -/
  refused_closed : e.refused ≠ [] → .close ∈ calls

theorem conserved_afterCalls (capacity : Nat) (calls : List (Call α)) :
    Conserved calls (afterCalls capacity calls) := by
  obtain ⟨taken, left, h⟩ := exists_accounts capacity calls
  have hvalues : ∀ {value}, value ∈ (afterCalls capacity calls).received.map Prod.snd →
      value ∈ taken.map Prod.snd := fun hmem => h.values.subset hmem
  exact {
    settled_once := (nodup_sends calls).sublist h.settled.sublist
    settled_sends := h.settled.subset
    received_order := h.receives
    received_values := by rw [h.acceptedSends_eq]; exact h.values
    received_once := by
      intro hnodup
      rw [h.sends, List.map_append] at hnodup
      exact (List.nodup_append.1 hnodup).1.sublist h.values.sublist
    refused_lost := by
      intro hnodup send hsend hrefused hreceived
      rw [h.sends, List.map_append] at hnodup
      have hleft : send ∈ left := by
        refine (List.mem_append.1 (h.sends ▸ hsend)).resolve_left fun htaken => ?_
        obtain ⟨other, hother, heq⟩ := List.mem_map.1 (h.refused.subset hrefused)
        exact h.disjoint htaken hother heq.symm
      exact (List.nodup_append.1 hnodup).2.2 _ (hvalues hreceived) _
        (List.mem_map_of_mem hleft) rfl
    refused_closed := by
      intro hne
      by_contra hopen
      obtain ⟨_, hledger⟩ := openLedger_afterCalls capacity hopen
      exact hne hledger.refused }

/-! ## From the first close on -/

theorem zip_append_left {β γ : Type} (a b : List β) (l : List γ) :
    (a ++ b).zip l = a.zip l ++ b.zip (l.drop a.length) := by
  induction a generalizing l with
  | nil => rfl
  | cons x a ih =>
    cases l with
    | nil => simp
    | cons y l => simp [ih]

namespace ClosedLedger
variable {calls : List (Call α)} {e : Exchange α} {taken : List (Nat × α)}

theorem length_taken (h : ClosedLedger calls e taken) :
    taken.length = e.received.length + e.channel.buffer.length := by
  simpa using congrArg List.length h.values

/-- The receives get the values that were accepted, one after another. -/
theorem received_eq (h : ClosedLedger calls e taken) :
    e.received = (Exchange.receives calls).zip (taken.map Prod.snd) := by
  rw [h.values, h.receives]
  refine eq_zip_of_append ?_
  by_cases hne : e.finished = []
  · exact Or.inl hne
  · exact Or.inr (h.drained hne)

/-- The other receives get none. -/
theorem finished_eq (h : ClosedLedger calls e taken) :
    e.finished = (Exchange.receives calls).drop taken.length := by
  have hlength := h.length_taken
  by_cases hne : e.finished = []
  · rw [h.receives, hne, List.append_nil, List.drop_of_length_le (by simp; omega)]
  · rw [h.drained hne, List.length_nil] at hlength
    rw [h.receives, List.drop_left' (by simp; omega)]

theorem buffer_eq (h : ClosedLedger calls e taken) :
    e.channel.buffer = (taken.map Prod.snd).drop (Exchange.receives calls).length := by
  have hlength := h.length_taken
  by_cases hne : e.finished = []
  · rw [h.receives, hne, h.values, List.append_nil, List.drop_left' (by simp)]
  · have hdrained := h.drained hne
    rw [hdrained, List.length_nil] at hlength
    rw [hdrained, h.receives, List.drop_of_length_le (by simp; omega)]

end ClosedLedger

/-- What holds from the first close on, with the calls in front of it and what they led to. -/
structure Ended (before calls : List (Call α)) (last e : Exchange α) : Prop where
  /-- What was refused was waiting at the close or was sent after it -/
  refused : ∀ id ∈ e.refused,
    id ∈ last.channel.senders.map Prod.fst ∨ id ∉ (sends before).map Prod.fst
  /-- Nobody waits to send: every send is settled -/
  senders : e.channel.senders = []
  sends : e.accepted ++ e.refused = (sends calls).map Prod.fst
  /-- Nobody waits to receive: every receive is answered -/
  receivers : e.channel.receivers = []
  receives : e.received.map Prod.fst ++ e.finished = receives calls
  /-- Who is told that there is nothing more is told so when all that was accepted was received -/
  drained : e.finished ≠ [] →
    e.received.map Prod.snd = (acceptedSends calls e).map Prod.snd

theorem ended_afterCalls (capacity : Nat) {before : List (Call α)} (h : .close ∉ before)
    (rest : List (Call α)) :
    Ended before (before ++ .close :: rest) (afterCalls capacity before)
      (afterCalls capacity (before ++ .close :: rest)) := by
  obtain ⟨taken, hopen, hclosed⟩ := closedLedger_afterCalls capacity h rest
  have haccounts := hclosed.accounts
  exact {
    refused := by
      intro id hid
      by_cases hbefore : id ∈ (sends before).map Prod.fst
      · refine Or.inl ?_
        rw [hopen.sends, List.map_append] at hbefore
        refine (List.mem_append.1 hbefore).resolve_left fun htaken => ?_
        obtain ⟨send, hsend, rfl⟩ := List.mem_map.1 htaken
        obtain ⟨other, hother, heq⟩ := List.mem_map.1 (haccounts.refused.subset hid)
        exact haccounts.disjoint hsend hother heq.symm
      · exact Or.inr hbefore
    senders := hclosed.senders
    sends := by rw [hclosed.accepted, hclosed.refused, ← List.map_append, ← haccounts.sends]
    receivers := hclosed.receivers
    receives := hclosed.receives.symm
    drained := by
      intro hne
      rw [haccounts.acceptedSends_eq, hclosed.values, hclosed.drained hne, List.append_nil] }

/-- Later receives get what is left in the buffer, and then nothing more. -/
theorem received_afterCalls_append (capacity : Nat) {before : List (Call α)} (h : .close ∉ before)
    (rest more : List (Call α)) :
    let e := afterCalls capacity (before ++ .close :: rest)
    let later := (receives (before ++ .close :: rest ++ more)).drop
      (receives (before ++ .close :: rest)).length
    (afterCalls capacity (before ++ .close :: rest ++ more)).received
        = e.received ++ later.zip e.channel.buffer
      ∧ (afterCalls capacity (before ++ .close :: rest ++ more)).finished
        = e.finished ++ later.drop e.channel.buffer.length := by
  intro e later
  obtain ⟨taken, hopen, hclosed⟩ := closedLedger_afterCalls capacity h rest
  obtain ⟨taken', hopen', hclosed'⟩ := closedLedger_afterCalls capacity h (rest ++ more)
  rw [← List.cons_append, ← List.append_assoc] at hclosed'
  -- The sends that were accepted are those in front of the close
  obtain rfl : taken = taken' := List.append_cancel_right (hopen.sends.symm.trans hopen'.sends)
  have hreceives : receives (before ++ .close :: rest ++ more)
      = receives (before ++ .close :: rest) ++ later :=
    (List.prefix_iff_eq_append.1 (receives_isPrefix_append _ more)).symm
  have hbuffer := hclosed.buffer_eq
  refine ⟨?_, ?_⟩
  · rw [hclosed'.received_eq, hreceives, zip_append_left, ← hclosed.received_eq, ← hbuffer]
  · rw [hclosed'.finished_eq, hreceives, List.drop_append, ← hclosed.finished_eq, hbuffer,
      List.length_drop, List.length_map]

/-- **A channel loses nothing and duplicates nothing.**  Every send is settled at most once; what is
    received are the values of the sends that were accepted, in order; and what was refused was
    waiting at the close or came after it.  From the close on nobody waits, and what is left in the
    buffer is still received, before anybody is told that there is nothing more.  A second close
    fails and changes nothing. -/
theorem afterCalls_conserve (capacity : Nat) :
    (∀ calls : List (Call α), Conserved calls (afterCalls capacity calls))
    ∧ ∀ before rest : List (Call α), .close ∉ before →
      let calls := before ++ .close :: rest
      let e := afterCalls capacity calls
      Ended before calls (afterCalls capacity before) e
        ∧ (∀ more, let later := (receives (calls ++ more)).drop (receives calls).length
          (afterCalls capacity (calls ++ more)).received
              = e.received ++ later.zip e.channel.buffer
            ∧ (afterCalls capacity (calls ++ more)).finished
              = e.finished ++ later.drop e.channel.buffer.length)
        ∧ (afterCalls capacity (before ++ [.close])).closeErrors = 0
        ∧ afterCalls capacity (calls ++ [.close]) = { e with closeErrors := e.closeErrors + 1 } := by
  refine ⟨conserved_afterCalls capacity, fun before rest h => ?_⟩
  obtain ⟨taken, hopen, hclosed⟩ := closedLedger_afterCalls capacity h rest
  refine ⟨ended_afterCalls capacity h rest, received_afterCalls_append capacity h rest, ?_, ?_⟩
  · rw [afterCalls_concat]
    exact hopen.closeErrors_start_close
  · rw [afterCalls_concat]
    exact hclosed.start_close_eq

/-- A channel that is closed while two values are in its buffer and a third one waits. -/
theorem afterCalls_conserve_blocked :
    let before : List (Call Nat) := [.send 1, .send 2, .receive, .send 3, .send 4]
    let calls := before ++ .close :: [.receive, .send 5, .receive, .receive]
    .close ∉ before
      ∧ (afterCalls 2 calls).channel.senders = [] ∧ (afterCalls 2 calls).finished = [8]
      ∧ (afterCalls 2 calls).received.map Prod.snd = [1, 2, 3] := by
  intro before calls
  have hbefore : .close ∉ before := by decide
  obtain ⟨hended, -⟩ := (afterCalls_conserve 2).2 before _ hbefore
  exact ⟨hbefore, hended.senders, rfl, hended.drained (by decide)⟩

end ServedChain.Exchange
