/-
  Consumers share a channel without loss.

  * `resolved` are the values of the sends that were resolved, and `handed` those on their
    way to a consumer;
  * `Follows` puts the answers to single calls beside the consumers that get them;
  * `Shared` says what becomes of the values and of the consumers, and `exists_shared`
    that it is so after every course.
-/
import Mathlib.Data.List.Perm.Basic
import ServedChain.Proofs.Channel.Consumers

namespace ServedChain

open Channel (Answer)

variable {α : Type}

/-- The value that an answer comes with. -/
def Channel.Answer.value? : Answer α → Option α
  | .received value => some value
  | .sent | .finished | .refused => none

/-- The values of the answers that a consumer has seen are those that it has. -/
theorem Consumer.Told.values {c : Consumer α} {seen : List (Answer α)} (h : c.Told seen) :
    seen.filterMap Answer.value? = c.taken := by
  have htaken : (c.taken.map Answer.received).filterMap Answer.value? = c.taken := by
    rw [List.filterMap_map]
    exact List.filterMap_some
  cases h with
  | looping | full => exact htaken
  | ended =>
    rw [List.filterMap_append, htaken]
    exact List.append_nil _

namespace Exchange

/-- The values of the sends that were resolved, in the order of the sends. -/
def resolved (calls : List (Call α × Nat)) (e : Exchange α) : List α :=
  ((offers calls).filter fun send => send.1 ∈ e.accepted).map Prod.snd

/-- The values that a consumer was given and has not seen yet. -/
def handed (e : Exchange α) (id : Nat) : List α := (under id e.ready).filterMap Answer.value?

/-! ## Values by number -/

section
variable {β γ : Type}

/-- What stands under some numbers and under no one of them is everything. -/
theorem perm_under (entries : List (Nat × β)) {ids : List Nat} (h : ids.Nodup) :
    (entries.map Prod.snd).Perm
      ((entries.filter fun entry => entry.1 ∉ ids).map Prod.snd
        ++ ids.flatMap fun id => under id entries) := by
  induction ids with
  | nil => simp
  | cons id ids ih =>
    obtain ⟨hid, hids⟩ := List.nodup_cons.1 h
    have hunder : under id (entries.filter fun entry => entry.1 ∉ ids) = under id entries :=
      under_filter_of_pos fun entry _ heq => by simpa [heq] using hid
    have hothers : (entries.filter fun entry => entry.1 ∉ ids).filter (fun entry => !entry.1 == id)
        = entries.filter fun entry => entry.1 ∉ id :: ids := by
      rw [List.filter_filter]
      refine List.filter_congr fun entry _ => ?_
      by_cases heq : entry.1 = id <;> simp [heq]
    have hsplit := (List.filter_append_perm (fun entry => entry.1 == id)
      (entries.filter fun entry => entry.1 ∉ ids)).map Prod.snd
    rw [List.map_append, hothers] at hsplit
    refine (ih hids).trans ?_
    rw [List.flatMap_cons, ← List.append_assoc]
    refine (hsplit.symm.trans ?_).append_right _
    rw [← hunder]
    exact List.perm_append_comm

theorem filterMap_filter_fst (p : Nat → Bool) (number : γ → Nat) (entries : List (Nat × β))
    {g : Nat × β → Option γ} (hg : ∀ entry c, g entry = some c → number c = entry.1) :
    (entries.filter fun entry => p entry.1).filterMap g
      = (entries.filterMap g).filter fun c => p (number c) := by
  rw [List.filterMap_filter, List.filter_filterMap]
  refine congrArg (fun f => entries.filterMap f) (funext fun entry => ?_)
  cases hentry : g entry with
  | none => simp
  | some c => simp [hg entry c hentry, Option.filter]

end

theorem under_received (id : Nat) (e : Exchange α) :
    under id e.received = (under id e.answers).filterMap Answer.value? := by
  simp only [received]
  generalize e.answers = log
  induction log with
  | nil => rfl
  | cons entry log ih =>
    obtain ⟨other, answer⟩ := entry
    rw [under_cons]
    by_cases hid : other = id
    · cases answer <;> simp [hid, under_cons, Answer.value?, List.filterMap_cons, ih]
    · cases answer <;> simp [hid, under_cons, ih]

/-! ## Consumers and single calls -/

/-- Consumers and others beside single calls that make the same calls on the same channel. -/
structure Follows (calls : List (Call α × Nat)) (p e : Exchange α) (taken : List (Nat × α)) :
    Prop where
  channel : e.channel = p.channel
  tally : Tally calls p taken
  tracks : Tracks calls p.answers e

theorem exists_follows (capacity : Nat) {steps : List (Step α)}
    (h : Course (ofChannel (.empty capacity)) steps) :
    ∃ p taken, Follows (issued (ofChannel (.empty capacity)) steps) p
      ((ofChannel (.empty capacity)).run steps) taken := by
  obtain ⟨f, hissued⟩ := exists_issued_eq (ofChannel (.empty capacity)) steps
  obtain ⟨taken, htally⟩ := exists_tally capacity (steps.filterMap Step.call?)
  obtain ⟨hchannel, htracks⟩ := tracks_run capacity h hissued
  exact ⟨_, _, hchannel, hissued ▸ htally.rename f, htracks⟩

namespace Follows
variable {calls : List (Call α × Nat)} {p e : Exchange α} {taken : List (Nat × α)}
  {c : Consumer α}

/-- Consumers do not send, so all answers to sends are given to single calls. -/
theorem accepted (h : Follows calls p e taken) : e.accepted = p.accepted := by
  have hfilter : e.accepted = p.accepted.filter fun id => !e.isConsumer id := by
    rw [Exchange.accepted, h.tracks.answers]
    refine filterMap_filter_fst (fun id => !e.isConsumer id) id p.answers ?_
    rintro ⟨number, answer⟩ other hsome
    cases answer <;> cases hsome
    rfl
  rw [hfilter, List.filter_eq_self]
  intro id hid
  obtain ⟨send, hsend, rfl⟩ := List.mem_map.1 (h.tally.accepted_subset hid)
  simp [h.tracks.sends send hsend]

theorem received (h : Follows calls p e taken) :
    e.received = p.received.filter fun entry => !e.isConsumer entry.1 := by
  rw [Exchange.received, h.tracks.answers]
  refine filterMap_filter_fst (fun id => !e.isConsumer id) Prod.fst p.answers ?_
  rintro ⟨number, answer⟩ other hsome
  cases answer <;> cases hsome
  rfl

theorem resolved (h : Follows calls p e taken) :
    resolved calls e = p.received.map Prod.snd ++ e.channel.buffer := by
  rw [Exchange.resolved, h.accepted, h.tally.accepted,
    filter_mem_fst_of_isPrefix h.tally.first h.tracks.distinct, h.tally.values, h.channel]

theorem received_isPrefix (h : Follows calls p e taken) :
    p.received.map Prod.fst <+: requests calls :=
  ⟨_, by rw [h.tally.requests, List.append_assoc]⟩

theorem values (h : Follows calls p e taken) (hc : c ∈ e.consumers) :
    c.taken ++ e.handed c.id = under c.id p.received := by
  obtain ⟨seen, htold, hlog, -⟩ := h.tracks.consumers c hc
  rw [under_received, hlog, List.filterMap_append, htold.values, handed]

/-- A single receive gets one value at most. -/
theorem nodup_received (h : Follows calls p e taken) : (e.received.map Prod.fst).Nodup := by
  refine List.nodup_iff_count_le_one.2 fun id => ?_
  by_cases hmem : id ∈ e.received.map Prod.fst
  · obtain ⟨entry, hentry, rfl⟩ := List.mem_map.1 hmem
    have hsub : (e.received.map Prod.fst).Sublist (requests calls) := by
      rw [h.received]
      exact (List.filter_sublist.map Prod.fst).trans h.received_isPrefix.sublist
    rw [h.received] at hentry
    have hsingle := (List.mem_filter.1 hentry).2
    rw [Bool.not_eq_true'] at hsingle
    exact Nat.le_trans (hsub.count_le entry.1) (h.tracks.singles _ hsingle)
  · rw [List.count_eq_zero.2 hmem]
    exact Nat.zero_le 1

theorem perm_values (h : Follows calls p e taken) :
    (p.received.map Prod.snd).Perm
      (e.received.map Prod.snd ++ e.consumers.flatMap fun c => c.taken ++ e.handed c.id) := by
  have hsingle : (p.received.filter fun entry => entry.1 ∉ e.consumers.map Consumer.id)
      = e.received := by
    rw [h.received]
    refine List.filter_congr fun entry _ => ?_
    rw [Bool.eq_iff_iff, decide_eq_true_iff, Bool.not_eq_true', ← Bool.not_eq_true,
      isConsumer_iff, List.mem_map]
  have hall := perm_under p.received h.tracks.nodup
  rw [hsingle, List.flatMap_map] at hall
  rwa [List.flatMap_congr fun c hc => h.values hc]

/-- A consumer asks as often as it has seen an answer, is about to, or waits for one. -/
theorem count_requests (h : Follows calls p e taken) (hc : c ∈ e.consumers) :
    (requests calls).count c.id
      = (under c.id p.answers).length + e.channel.receivers.count c.id := by
  rw [h.channel]
  exact h.tally.count_requests
    (h.tracks.not_mem_offers ((e.isConsumer_iff c.id).2 ⟨c, hc, rfl⟩))

/-- Nobody waits after a close. -/
theorem closed (h : Follows calls p e taken) (hclosed : e.channel.closed = true) :
    e.channel.senders = [] ∧ e.channel.receivers = [] := by
  rw [h.channel] at hclosed ⊢
  exact h.tally.closed hclosed

end Follows

/-! ## Sharing -/

/-- What holds of a consumer that has left. -/
structure Left (calls : List (Call α × Nat)) (e : Exchange α) (c : Consumer α) : Prop where
  /-- It does not wait for a value -/
  receivers : c.id ∉ e.channel.receivers
  /-- None was given to it that it has not seen -/
  ready : c.id ∉ e.ready.map Prod.fst
  /-- It has as many as it wants, and asked for no more, or there was nothing more -/
  reason : (∃ limit, c.limit = some limit ∧ c.taken.length = max 1 limit
      ∧ (requests calls).count c.id = max 1 limit)
    ∨ c.Wants ∧ e.channel.closed = true ∧ e.channel.buffer = []

theorem Follows.left {calls : List (Call α × Nat)} {p e : Exchange α} {taken : List (Nat × α)}
    (h : Follows calls p e taken) {c : Consumer α} (hc : c ∈ e.consumers)
    (hfinished : c.finished = true) : Left calls e c := by
  obtain ⟨seen, htold, hlog, hasked⟩ := h.tracks.consumers c hc
  have hcount := h.count_requests hc
  have hlength := congrArg List.length hlog
  rw [List.length_append] at hlength
  rw [hfinished, Bool.not_true, Bool.toNat_false] at hasked
  exact {
    receivers := List.count_eq_zero.1 (by omega)
    ready := under_eq_nil_iff.1 (List.eq_nil_of_length_eq_zero (by omega))
    reason := by
      cases htold with
      | looping hgoing =>
        rw [hfinished] at hgoing
        cases hgoing
      | @full limit _ hlimit hfull =>
        rw [List.length_map] at hasked hlength
        exact .inl ⟨limit, hlimit, hfull, by omega⟩
      | ended _ hwants =>
        have hanswer : Answer.finished ∈ under c.id p.answers := by
          rw [hlog]
          simp
        have hend : c.id ∈ p.finished := List.mem_filterMap.2 ⟨_, mem_of_mem_under hanswer, rfl⟩
        rw [h.channel]
        exact .inr ⟨hwants, h.tally.drained (List.ne_nil_of_mem hend)⟩ }

/-- What becomes of the values on a channel, with those that were received in the order in which
    they were asked for, and of its consumers. -/
structure Shared (calls : List (Call α × Nat)) (e : Exchange α) (values : List (Nat × α)) :
    Prop where
  asked : values.map Prod.fst <+: requests calls
  /-- They are the first values of the sends that were resolved; the others are in the buffer -/
  resolved : resolved calls e = values.map Prod.snd ++ e.channel.buffer
  /-- A single receive gets one of them at most -/
  single : e.received = values.filter fun entry => !e.isConsumer entry.1
  single_once : (e.received.map Prod.fst).Nodup
  /-- A consumer gets those that it asked for, and no other -/
  consumers : ∀ c ∈ e.consumers, c.taken ++ e.handed c.id = under c.id values
  consumers_once : (e.consumers.map Consumer.id).Nodup
  /-- Each of them is given to someone, once -/
  once : (values.map Prod.snd).Perm
    (e.received.map Prod.snd ++ e.consumers.flatMap fun c => c.taken ++ e.handed c.id)
  /-- A consumer sees values in the order of the sends -/
  subsequence : ∀ c ∈ e.consumers, c.taken.Sublist (Exchange.resolved calls e)
  /-- Who loops has not reached its limit -/
  looping : ∀ c ∈ e.consumers, c.finished = false → c.Wants
  left : ∀ c ∈ e.consumers, c.finished = true → Left calls e c

theorem Follows.shared {calls : List (Call α × Nat)} {p e : Exchange α} {taken : List (Nat × α)}
    (h : Follows calls p e taken) : Shared calls e p.received where
  asked := h.received_isPrefix
  resolved := h.resolved
  single := h.received
  single_once := h.nodup_received
  consumers := fun _ hc => h.values hc
  consumers_once := h.tracks.nodup
  once := h.perm_values
  subsequence := by
    intro c hc
    refine (List.sublist_append_left c.taken (e.handed c.id)).trans ?_
    rw [h.values hc, h.resolved]
    exact (List.filter_sublist.map Prod.snd).trans (List.sublist_append_left _ _)
  looping := by
    intro c hc hgoing
    obtain ⟨seen, htold, -⟩ := h.tracks.consumers c hc
    cases htold with
    | looping _ hwants => exact hwants
    | full hfinished | ended hfinished =>
      rw [hgoing] at hfinished
      cases hfinished
  left := fun _ => h.left

theorem exists_shared (capacity : Nat) {steps : List (Step α)}
    (h : Course (ofChannel (.empty capacity)) steps) :
    ∃ values, Shared (issued (ofChannel (.empty capacity)) steps)
      ((ofChannel (.empty capacity)).run steps) values := by
  obtain ⟨p, taken, hfollows⟩ := exists_follows capacity h
  exact ⟨p.received, hfollows.shared⟩

end Exchange

end ServedChain
