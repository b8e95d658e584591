/-
  The accounts of a channel by its answers alone, under whatever numbers its callers have.

  * `Tally`: the first sends are accepted, and the first of those who ask get their values,
    one after another; the others who ask are told that there is nothing more, or wait;
  * `exists_tally`: so it is after any calls;
  * `Tally.rename`: the numbers do not matter, nor that each is used only once.
-/
import ServedChain.Proofs.Channel.Ledger
import ServedChain.Proofs.Channel.Steps

namespace ServedChain

open Channel (Answer)

variable {α : Type}

/-! ## Entries -/

section
variable {β : Type} {id other : Nat} {entry : Nat × β} {entries : List (Nat × β)}

/-- What stands under a number. -/
def under (id : Nat) (entries : List (Nat × β)) : List β :=
  (entries.filter fun entry => entry.1 == id).map Prod.snd

theorem under_append (id : Nat) (entries more : List (Nat × β)) :
    under id (entries ++ more) = under id entries ++ under id more := by
  simp [under]

theorem under_cons (id : Nat) (entry : Nat × β) (entries : List (Nat × β)) :
    under id (entry :: entries)
      = if entry.1 = id then entry.2 :: under id entries else under id entries := by
  by_cases h : entry.1 = id <;> simp [under, h]

theorem under_eq_nil_iff : under id entries = [] ↔ id ∉ entries.map Prod.fst := by
  simp only [under, List.map_eq_nil_iff, List.filter_eq_nil_iff, beq_iff_eq, List.mem_map,
    not_exists, not_and]

theorem mem_of_mem_under {value : β} (h : value ∈ under id entries) : (id, value) ∈ entries := by
  obtain ⟨⟨other, given⟩, hentry, rfl⟩ := List.mem_map.1 h
  obtain ⟨hmem, hother⟩ := List.mem_filter.1 hentry
  obtain rfl : other = id := by simpa using hother
  exact hmem

theorem under_filter_of_pos {p : Nat × β → Bool} (h : ∀ entry ∈ entries, entry.1 = id → p entry) :
    under id (entries.filter p) = under id entries := by
  rw [under, List.filter_filter]
  refine congrArg (List.map Prod.snd) (List.filter_congr fun entry hmem => ?_)
  by_cases hid : entry.1 = id
  · simp [hid, h entry hmem hid]
  · simp [hid]

/-- The first entry under a number, taken out. -/
theorem exists_find?_of_under (h : under id entries ≠ []) :
    ∃ value, entries.find? (fun entry => entry.1 == id) = some (id, value)
      ∧ under id entries = value :: under id (entries.eraseP fun entry => entry.1 == id) := by
  induction entries with
  | nil => exact absurd rfl h
  | cons first entries ih =>
    by_cases hfirst : first.1 = id
    · refine ⟨first.2, ?_, ?_⟩
      · rw [List.find?_cons_of_pos (by simpa using hfirst), ← hfirst]
      · rw [under_cons, if_pos hfirst, List.eraseP_cons_of_pos (by simpa using hfirst)]
    · rw [under_cons, if_neg hfirst] at h
      obtain ⟨value, hfind, hunder⟩ := ih h
      refine ⟨value, ?_, ?_⟩
      · rw [List.find?_cons_of_neg (by simpa using hfirst), hfind]
      · rw [under_cons, if_neg hfirst, List.eraseP_cons_of_neg (by simpa using hfirst), under_cons,
          if_neg hfirst, hunder]

theorem under_eraseP_of_ne (h : other ≠ id) (entries : List (Nat × β)) :
    under other (entries.eraseP fun entry => entry.1 == id) = under other entries := by
  induction entries with
  | nil => rfl
  | cons first entries ih =>
    by_cases hfirst : first.1 = id
    · rw [List.eraseP_cons_of_pos (by simpa using hfirst), under_cons,
        if_neg (hfirst ▸ Ne.symm h)]
    · rw [List.eraseP_cons_of_neg (by simpa using hfirst), under_cons, under_cons, ih]

end

/-! ## Renaming -/

namespace Channel

/-- A channel whose callers have other numbers. -/
def rename (f : Nat → Nat) (c : Channel α) : Channel α :=
  { c with senders := c.senders.map (Prod.map f id), receivers := c.receivers.map f }

/-- What an operation leads to if its callers have other numbers. -/
def renamed (f : Nat → Nat) (result : Channel α × List (Nat × Answer α)) :
    Channel α × List (Nat × Answer α) :=
  (result.1.rename f, result.2.map (Prod.map f id))

theorem send_rename (f : Nat → Nat) (c : Channel α) (sender : Nat) (value : α) :
    (c.rename f).send (f sender) value = renamed f (c.send sender value) := by
  fun_cases Channel.send c sender value <;> simp [rename, renamed, send, *]

theorem receive_rename (f : Nat → Nat) (c : Channel α) (receiver : Nat) :
    (c.rename f).receive (f receiver) = renamed f (c.receive receiver) := by
  fun_cases Channel.receive c receiver <;> simp [rename, renamed, receive, *]

theorem close?_rename (f : Nat → Nat) (c : Channel α) :
    (c.rename f).close? = c.close?.map (renamed f) := by
  fun_cases Channel.close? c <;> simp [rename, renamed, close?, Function.comp_def, *]

end Channel

namespace Exchange

/-- What single calls have led to, if the callers have other numbers. -/
def rename (f : Nat → Nat) (e : Exchange α) : Exchange α :=
  { e with channel := e.channel.rename f, answers := e.answers.map (Prod.map f id) }

theorem filterMap_map_of_comm {β β' γ γ' : Type} {h : β → β'} {k : γ → γ'} {g : β → Option γ}
    {g' : β' → Option γ'} (hcomm : ∀ b, g' (h b) = (g b).map k) (l : List β) :
    (l.map h).filterMap g' = (l.filterMap g).map k := by
  rw [List.filterMap_map, List.map_filterMap]
  exact congrArg (fun p => l.filterMap p) (funext hcomm)

section
variable (f : Nat → Nat) (e : Exchange α)

theorem accepted_rename : (e.rename f).accepted = e.accepted.map f :=
  filterMap_map_of_comm (fun ⟨id, answer⟩ => by cases answer <;> rfl) e.answers

theorem refused_rename : (e.rename f).refused = e.refused.map f :=
  filterMap_map_of_comm (fun ⟨id, answer⟩ => by cases answer <;> rfl) e.answers

theorem finished_rename : (e.rename f).finished = e.finished.map f :=
  filterMap_map_of_comm (fun ⟨id, answer⟩ => by cases answer <;> rfl) e.answers

theorem received_rename : (e.rename f).received = e.received.map (Prod.map f id) :=
  filterMap_map_of_comm (fun ⟨id, answer⟩ => by cases answer <;> rfl) e.answers

end

/-! ## Accounts -/

/-- The accounts of single calls under any numbers, with the sends that were accepted. -/
structure Tally (calls : List (Call α × Nat)) (e : Exchange α) (taken : List (Nat × α)) :
    Prop where
  /-- The first sends are accepted -/
  first : taken <+: offers calls
  accepted : e.accepted = taken.map Prod.fst
  refused : e.refused ⊆ (offers calls).map Prod.fst
  /-- Who asks gets a value, or is told that there is nothing more, or waits -/
  requests : requests calls = e.received.map Prod.fst ++ e.finished ++ e.channel.receivers
  /-- What was accepted was received, or is in the buffer -/
  values : taken.map Prod.snd = e.received.map Prod.snd ++ e.channel.buffer
  /-- Nobody waits after a close -/
  closed : e.channel.closed = true → e.channel.senders = [] ∧ e.channel.receivers = []
  /-- There is nothing more once a closed channel has no values left -/
  drained : e.finished ≠ [] → e.channel.closed = true ∧ e.channel.buffer = []

theorem OpenLedger.tally {capacity : Nat} {calls : List (Call α)} {e : Exchange α}
    {taken : List (Nat × α)} (h : OpenLedger capacity calls e taken) :
    Tally (numbered calls) e taken where
  first := ⟨_, h.sends.symm⟩
  accepted := h.accepted
  refused := by rw [h.refused]; exact List.nil_subset _
  requests := by rw [h.finished, List.append_nil]; exact h.receives
  values := h.values
  closed := by rw [h.closed]; exact fun hclosed => Bool.noConfusion hclosed
  drained := absurd h.finished

theorem ClosedLedger.tally {calls : List (Call α)} {e : Exchange α} {taken : List (Nat × α)}
    (h : ClosedLedger calls e taken) : Tally (numbered calls) e taken where
  first := h.taken_prefix
  accepted := h.accepted
  refused := by
    rw [h.refused]
    exact List.map_subset _ (List.drop_subset _ _)
  requests := by rw [h.receivers, List.append_nil]; exact h.receives
  values := h.values
  closed := fun _ => ⟨h.senders, h.receivers⟩
  drained := fun hend => ⟨h.closed, h.drained hend⟩

theorem exists_tally (capacity : Nat) (calls : List (Call α)) :
    ∃ taken, Tally (numbered calls) (afterCalls capacity calls) taken := by
  by_cases h : .close ∈ calls
  · obtain ⟨before, rest, rfl, hbefore⟩ := List.eq_append_cons_of_mem h
    obtain ⟨taken, -, hclosed⟩ := closedLedger_afterCalls capacity hbefore rest
    exact ⟨taken, hclosed.tally⟩
  · obtain ⟨taken, hopen⟩ := openLedger_afterCalls capacity h
    exact ⟨taken, hopen.tally⟩

theorem exists_of_mem_requests {calls : List (Call α × Nat)} {id : Nat} (h : id ∈ requests calls) :
    ∃ call ∈ calls, call.2 = id := by
  obtain ⟨⟨call, number⟩, hcall, hid⟩ := List.mem_filterMap.1 h
  cases call with
  | receive => exact ⟨_, hcall, Option.some.inj hid⟩
  | send | close => cases hid

theorem exists_of_mem_offers {calls : List (Call α × Nat)} {send : Nat × α}
    (h : send ∈ offers calls) : ∃ call ∈ calls, call.2 = send.1 := by
  obtain ⟨⟨call, number⟩, hcall, hid⟩ := List.mem_filterMap.1 h
  cases call with
  | send value => exact ⟨_, hcall, congrArg Prod.fst (Option.some.inj hid)⟩
  | receive | close => cases hid

section
variable (f : Nat → Nat) (calls : List (Call α × Nat))

theorem requests_rename : requests (calls.map (Prod.map id f)) = (requests calls).map f :=
  filterMap_map_of_comm (fun ⟨call, id⟩ => by cases call <;> rfl) calls

theorem offers_rename :
    offers (calls.map (Prod.map id f)) = (offers calls).map (Prod.map f id) :=
  filterMap_map_of_comm (fun ⟨call, id⟩ => by cases call <;> rfl) calls

end

/-- **The accounts do not depend on the numbers of the callers**, and several calls may have one. -/
theorem Tally.rename {calls : List (Call α × Nat)} {e : Exchange α} {taken : List (Nat × α)}
    (h : Tally calls e taken) (f : Nat → Nat) :
    Tally (calls.map (Prod.map id f)) (e.rename f) (taken.map (Prod.map f id)) where
  first := by rw [offers_rename]; exact h.first.map _
  accepted := by rw [accepted_rename, h.accepted]; simp
  refused := by
    rw [refused_rename, offers_rename]
    simpa [Function.comp_def] using List.map_subset f h.refused
  requests := by
    rw [requests_rename, h.requests, received_rename, finished_rename]
    simp [Exchange.rename, Channel.rename]
  values := by
    rw [received_rename, List.map_map, List.map_map]
    exact h.values
  closed := fun hclosed => by
    obtain ⟨hsenders, hreceivers⟩ := h.closed hclosed
    simp [Exchange.rename, Channel.rename, hsenders, hreceivers]
  drained := fun hend => h.drained fun hnone => hend (by rw [finished_rename, hnone]; rfl)

/-! ## Answers -/

theorem length_under_answers (id : Nat) (e : Exchange α) : (under id e.answers).length
    = (e.received.map Prod.fst).count id + e.finished.count id + e.accepted.count id
      + e.refused.count id := by
  simp only [received, finished, accepted, refused]
  generalize e.answers = log
  induction log with
  | nil => rfl
  | cons entry log ih =>
    obtain ⟨other, answer⟩ := entry
    rw [under_cons]
    by_cases hid : other = id
    · cases answer <;> simp [hid, ih] <;> omega
    · cases answer <;> simp [hid, ih]

section
variable {calls : List (Call α × Nat)} {e : Exchange α} {taken : List (Nat × α)} {id : Nat}

theorem Tally.accepted_subset (h : Tally calls e taken) :
    e.accepted ⊆ (offers calls).map Prod.fst := by
  rw [h.accepted]
  exact List.map_subset _ h.first.subset

/-- Who does not send is answered, or waits, as often as it asks. -/
theorem Tally.count_requests (h : Tally calls e taken) (hid : id ∉ (offers calls).map Prod.fst) :
    (Exchange.requests calls).count id
      = (under id e.answers).length + e.channel.receivers.count id := by
  have haccepted : e.accepted.count id = 0 := List.count_eq_zero.2 (mt (h.accepted_subset ·) hid)
  have hrefused : e.refused.count id = 0 := List.count_eq_zero.2 (mt (h.refused ·) hid)
  rw [h.requests, length_under_answers, List.count_append, List.count_append]
  omega

/-- Who does not send is answered with a value, or told that there is nothing more. -/
theorem Tally.answer_of_mem_under (h : Tally calls e taken)
    (hid : id ∉ (offers calls).map Prod.fst) {answer : Answer α}
    (hanswer : answer ∈ under id e.answers) :
    answer = .finished ∨ ∃ value, answer = .received value := by
  have hmem := mem_of_mem_under hanswer
  cases answer with
  | sent => exact absurd (h.accepted_subset (List.mem_filterMap.2 ⟨_, hmem, rfl⟩)) hid
  | received value => exact .inr ⟨value, rfl⟩
  | finished => exact .inl rfl
  | refused => exact absurd (h.refused (List.mem_filterMap.2 ⟨_, hmem, rfl⟩)) hid

/-- Only callers are answered. -/
theorem Tally.exists_call (h : Tally calls e taken) {entry : Nat × Answer α}
    (hentry : entry ∈ e.answers) : ∃ call ∈ calls, call.2 = entry.1 := by
  have hoffer : entry.1 ∈ (offers calls).map Prod.fst → ∃ call ∈ calls, call.2 = entry.1 := by
    intro hmem
    obtain ⟨send, hsend, hid⟩ := List.mem_map.1 hmem
    exact hid ▸ exists_of_mem_offers hsend
  have hrequest : entry.1 ∈ e.received.map Prod.fst ++ e.finished ++ e.channel.receivers →
      ∃ call ∈ calls, call.2 = entry.1 := fun hmem => exists_of_mem_requests (h.requests ▸ hmem)
  obtain ⟨id, answer⟩ := entry
  cases answer with
  | sent => exact hoffer (h.accepted_subset (List.mem_filterMap.2 ⟨_, hentry, rfl⟩))
  | received value =>
    refine hrequest (List.mem_append_left _ (List.mem_append_left _ ?_))
    exact List.mem_map.2 ⟨(id, value), List.mem_filterMap.2 ⟨_, hentry, rfl⟩, rfl⟩
  | finished =>
    refine hrequest (List.mem_append_left _ (List.mem_append_right _ ?_))
    exact List.mem_filterMap.2 ⟨_, hentry, rfl⟩
  | refused => exact hoffer (h.refused (List.mem_filterMap.2 ⟨_, hentry, rfl⟩))

end

end Exchange

end ServedChain
