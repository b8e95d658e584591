/-
  Consumers of a channel, by what their receives are answered.

  * `Consumer.Told`: what a consumer has, and whether it has left, by the answers that it
    has seen;
  * `Tracks`: the answers of a channel, as given to consumers and to single calls, with
    the calls that were made;
  * `tracks_run`: every course keeps to this, and its channel to what the same calls lead
    to as single calls.
-/
import Mathlib.Data.List.Induction
import Mathlib.Data.List.Nodup
import ServedChain.Proofs.Channel.Tally

namespace ServedChain

open Channel (Answer)

variable {α : Type}

/-! ## Consumers -/

/-- Whether a consumer wants another value.  One that wants none gets one all the same. -/
def Consumer.Wants (c : Consumer α) : Prop :=
  ∀ limit, c.limit = some limit → c.taken.length < max 1 limit

/-- A consumer by the answers that it has seen: it takes one value after another, and leaves with
    its last one, or when it is told that there is nothing more. -/
inductive Consumer.Told (c : Consumer α) : List (Answer α) → Prop
  | looping : c.finished = false → c.Wants → c.Told (c.taken.map .received)
  | full {limit : Nat} : c.finished = true → c.limit = some limit →
    c.taken.length = max 1 limit → c.Told (c.taken.map .received)
  | ended : c.finished = true → c.Wants → c.Told (c.taken.map .received ++ [.finished])

/-- A consumer that takes one more value leaves if that is its last one. -/
theorem Consumer.Wants.told_take {c : Consumer α} (h : c.Wants) (value : α) :
    Consumer.Told
      { c with
        taken := c.taken ++ [value]
        finished := c.limit.any (· ≤ c.taken.length + 1) }
      ((c.taken ++ [value]).map .received) := by
  have hlength : (c.taken ++ [value]).length = c.taken.length + 1 := List.length_append
  cases hlimit : c.limit with
  | none =>
    refine .looping rfl fun limit hsome => ?_
    cases hsome
  | some limit =>
    have hbefore := h limit hlimit
    by_cases hfull : limit ≤ c.taken.length + 1
    · refine .full (decide_eq_true hfull) rfl ?_
      simp only [hlength]
      omega
    · refine .looping (decide_eq_false hfull) fun limit' hsome => ?_
      obtain rfl := Option.some.inj hsome
      simp only [hlength]
      omega

namespace Exchange

theorem isConsumer_iff (e : Exchange α) (id : Nat) :
    e.isConsumer id = true ↔ ∃ c ∈ e.consumers, c.id = id := by
  simp [isConsumer]

theorem deliver_eq (e : Exchange α) (result : Channel α × List (Nat × Answer α)) :
    e.deliver result = { e with
      channel := result.1
      ready := e.ready ++ result.2.filter fun entry => e.isConsumer entry.1
      answers := e.answers ++ result.2.filter fun entry => !e.isConsumer entry.1 } := by
  simp only [deliver, List.partition_eq_filter_filter]
  rfl

/-- The answers of a channel, given to consumers and to single calls, with the calls made so far. -/
structure Tracks (calls : List (Call α × Nat)) (log : List (Nat × Answer α)) (e : Exchange α) :
    Prop where
  answers : e.answers = log.filter fun entry => !e.isConsumer entry.1
  ready : ∀ entry ∈ e.ready, e.isConsumer entry.1 = true
  nodup : (e.consumers.map Consumer.id).Nodup
  known : ∀ c ∈ e.consumers, c.id < e.next
  called : ∀ call ∈ calls, call.2 < e.next
  /-- A single receive asks once -/
  singles : ∀ id, e.isConsumer id = false → (requests calls).count id ≤ 1
  /-- No two sends have one number -/
  distinct : ((offers calls).map Prod.fst).Nodup
  /-- Consumers do not send -/
  sends : ∀ send ∈ offers calls, e.isConsumer send.1 = false
  /-- A consumer has seen its first answers; it asks for one more at most, and not once it has
      left -/
  consumers : ∀ c ∈ e.consumers, ∃ seen, c.Told seen
    ∧ under c.id log = seen ++ under c.id e.ready
    ∧ (requests calls).count c.id ≤ seen.length + (!c.finished).toNat

namespace Tracks
variable {calls : List (Call α × Nat)} {log : List (Nat × Answer α)} {e : Exchange α} {id : Nat}

theorem initial (channel : Channel α) : Tracks [] [] (ofChannel channel) where
  answers := rfl
  ready := fun _ hmem => absurd hmem List.not_mem_nil
  nodup := List.nodup_nil
  known := fun _ hmem => absurd hmem List.not_mem_nil
  called := fun _ hmem => absurd hmem List.not_mem_nil
  singles := fun _ _ => Nat.zero_le _
  distinct := List.nodup_nil
  sends := fun _ hmem => absurd hmem List.not_mem_nil
  consumers := fun _ hmem => absurd hmem List.not_mem_nil

/-- The next number is nobody's. -/
theorem isConsumer_next (h : Tracks calls log e) : e.isConsumer e.next = false := by
  refine Bool.eq_false_iff.2 fun hmem => ?_
  obtain ⟨c, hc, hid⟩ := (e.isConsumer_iff e.next).1 hmem
  exact absurd hid (Nat.ne_of_lt (h.known c hc))

theorem under_ready_next (h : Tracks calls log e) : under e.next e.ready = [] := by
  refine under_eq_nil_iff.2 fun hmem => ?_
  obtain ⟨entry, hentry, hid⟩ := List.mem_map.1 hmem
  have hconsumer := h.ready entry hentry
  rw [hid, h.isConsumer_next] at hconsumer
  cases hconsumer

theorem count_requests_next (h : Tracks calls log e) : (requests calls).count e.next = 0 := by
  refine List.count_eq_zero.2 fun hmem => ?_
  obtain ⟨call, hcall, hid⟩ := exists_of_mem_requests hmem
  exact absurd hid (Nat.ne_of_lt (h.called call hcall))

/-- A consumer does not send. -/
theorem not_mem_offers (h : Tracks calls log e) (hid : e.isConsumer id = true) :
    id ∉ (offers calls).map Prod.fst := by
  intro hmem
  obtain ⟨send, hsend, rfl⟩ := List.mem_map.1 hmem
  rw [h.sends send hsend] at hid
  cases hid

/-! ### Calls -/

theorem advance (h : Tracks calls log e) : Tracks calls log { e with next := e.next + 1 } :=
  { h with
    known := fun c hc => Nat.lt_succ_of_lt (h.known c hc)
    called := fun call hcall => Nat.lt_succ_of_lt (h.called call hcall) }

theorem issue_send (h : Tracks calls log e) (value : α) :
    Tracks (calls ++ [(.send value, e.next)]) log { e with next := e.next + 1 } := by
  have hoffers : offers (calls ++ [(.send value, e.next)]) = offers calls ++ [(e.next, value)] := by
    simp [offers, sendOf?]
  have hrequests : requests (calls ++ [(.send value, e.next)]) = requests calls := by
    simp [requests, receiveOf?]
  exact { h.advance with
    called := by
      intro call hcall
      rcases List.mem_append.1 hcall with hold | hnew
      · exact h.advance.called call hold
      · rw [List.mem_singleton.1 hnew]
        exact Nat.lt_succ_self _
    singles := by rw [hrequests]; exact h.singles
    distinct := by
      rw [hoffers, List.map_append, List.nodup_append]
      refine ⟨h.distinct, by simp, fun id hid other hother => ?_⟩
      obtain ⟨send, hsend, rfl⟩ := List.mem_map.1 hid
      obtain ⟨call, hcall, hnumber⟩ := exists_of_mem_offers hsend
      rw [List.mem_singleton.1 hother]
      exact Nat.ne_of_lt (hnumber ▸ h.called call hcall)
    sends := by
      intro send hsend
      rw [hoffers] at hsend
      rcases List.mem_append.1 hsend with hold | hnew
      · exact h.sends send hold
      · rw [List.mem_singleton.1 hnew]
        exact h.isConsumer_next
    consumers := by rw [hrequests]; exact h.consumers }

/-- A receive is asked for: by a single call, or by a consumer that has seen all its answers. -/
theorem issue_receive (h : Tracks calls log e) (hknown : id < e.next)
    (hready : under id e.ready = []) (hgoing : ∀ c ∈ e.consumers, c.id = id → c.finished = false)
    (hcount : (requests calls).count id ≤ (under id log).length)
    (hsingle : e.isConsumer id = false → (requests calls).count id = 0) :
    Tracks (calls ++ [(.receive, id)]) log e := by
  have hsends : offers (calls ++ [(.receive, id)]) = offers calls := by simp [offers, sendOf?]
  have hrequests : requests (calls ++ [(.receive, id)]) = requests calls ++ [id] := by
    simp [requests, receiveOf?]
  exact { h with
    called := by
      intro call hcall
      rcases List.mem_append.1 hcall with hold | hnew
      · exact h.called call hold
      · rw [List.mem_singleton.1 hnew]
        exact hknown
    singles := by
      intro other hother
      rw [hrequests, List.count_append, List.count_singleton]
      by_cases hid : other = id
      · subst hid
        simp [hsingle hother]
      · simpa [Ne.symm hid] using h.singles other hother
    distinct := by rw [hsends]; exact h.distinct
    sends := by rw [hsends]; exact h.sends
    consumers := by
      intro c hc
      obtain ⟨seen, htold, hlog, hasked⟩ := h.consumers c hc
      refine ⟨seen, htold, hlog, ?_⟩
      rw [hrequests, List.count_append, List.count_singleton]
      by_cases hid : c.id = id
      · rw [hid] at hlog ⊢
        rw [hlog, hready, List.append_nil] at hcount
        rw [hgoing c hc hid]
        simpa using hcount
      · simpa [Ne.symm hid] using hasked }

/-- A new consumer, which has not asked yet. -/
theorem join (h : Tracks calls log e) (hlog : ∀ entry ∈ log, entry.1 < e.next)
    (limit : Option Nat) :
    Tracks calls log
      { e with next := e.next + 1, consumers := e.consumers ++ [⟨e.next, limit, [], false⟩] } := by
  have hsame : ∀ other, other ≠ e.next → Exchange.isConsumer
      { e with
        next := e.next + 1
        consumers := e.consumers ++ [⟨e.next, limit, [], false⟩] } other
      = e.isConsumer other := by
    intro other hne
    simp [isConsumer, Ne.symm hne]
  exact {
    answers := by
      refine h.answers.trans (List.filter_congr fun entry hmem => ?_)
      rw [hsame entry.1 (Nat.ne_of_lt (hlog entry hmem))]
    ready := by
      intro entry hmem
      have hold := h.ready entry hmem
      simp only [isConsumer, List.any_append, Bool.or_eq_true] at hold ⊢
      exact .inl hold
    nodup := by
      rw [List.map_append, List.nodup_append]
      refine ⟨h.nodup, by simp, fun other hother last hlast => ?_⟩
      obtain ⟨c, hc, rfl⟩ := List.mem_map.1 hother
      rw [List.mem_singleton.1 hlast]
      exact Nat.ne_of_lt (h.known c hc)
    known := by
      intro c hc
      rcases List.mem_append.1 hc with hold | hnew
      · exact Nat.lt_succ_of_lt (h.known c hold)
      · rw [List.mem_singleton.1 hnew]
        exact Nat.lt_succ_self _
    called := h.advance.called
    singles := by
      intro id hid
      simp only [isConsumer, List.any_append, Bool.or_eq_false_iff] at hid
      exact h.singles id hid.1
    distinct := h.distinct
    sends := by
      intro send hsend
      obtain ⟨call, hcall, hid⟩ := exists_of_mem_offers hsend
      rw [hsame _ (Nat.ne_of_lt (hid ▸ h.called call hcall))]
      exact h.sends send hsend
    consumers := by
      intro c hc
      rcases List.mem_append.1 hc with hold | hnew
      · exact h.consumers c hold
      · rw [List.mem_singleton.1 hnew]
        have hseen : under e.next log = [] := by
          refine under_eq_nil_iff.2 fun hmem => ?_
          obtain ⟨entry, hentry, hid⟩ := List.mem_map.1 hmem
          exact absurd hid (Nat.ne_of_lt (hlog entry hentry))
        refine ⟨[], .looping rfl fun limit _ => ?_, ?_, ?_⟩
        · exact Nat.lt_of_lt_of_le Nat.one_pos (Nat.le_max_left 1 limit)
        · rw [hseen, h.under_ready_next]
          rfl
        · rw [h.count_requests_next]
          exact Nat.zero_le _ }

/-! ### Answers -/

/-- Answers are given to those whom they are for, behind those that they have not seen. -/
theorem deliver (h : Tracks calls log e) (channel : Channel α) (more : List (Nat × Answer α)) :
    Tracks calls (log ++ more) (e.deliver (channel, more)) := by
  rw [deliver_eq]
  exact { h with
    answers := by
      rw [List.filter_append]
      exact congrArg (· ++ _) h.answers
    ready := by
      intro entry hentry
      rcases List.mem_append.1 hentry with hold | hnew
      · exact h.ready entry hold
      · exact (List.mem_filter.1 hnew).2
    consumers := by
      intro c hc
      obtain ⟨seen, htold, hlog, hasked⟩ := h.consumers c hc
      refine ⟨seen, htold, ?_, hasked⟩
      have hall : under c.id (more.filter fun entry => e.isConsumer entry.1) = under c.id more :=
        under_filter_of_pos fun entry _ hid => (e.isConsumer_iff _).2 ⟨c, hc, hid.symm⟩
      rw [under_append, under_append, hall, hlog, List.append_assoc] }

/-- A consumer that has not seen an answer has not left. -/
theorem finished_of_ready (h : Tracks calls log e) {c : Consumer α} (hc : c ∈ e.consumers)
    (hcount : (under c.id log).length ≤ (requests calls).count c.id)
    (hready : under c.id e.ready ≠ []) : c.finished = false ∧ (under c.id e.ready).length = 1 := by
  obtain ⟨seen, -, hlog, hasked⟩ := h.consumers c hc
  have hpos := List.length_pos_iff.2 hready
  have hlength := congrArg List.length hlog
  rw [List.length_append] at hlength
  cases hfinished : c.finished with
  | true =>
    rw [hfinished] at hasked
    simp only [Bool.not_true, Bool.toNat_false] at hasked
    omega
  | false =>
    rw [hfinished] at hasked
    simp only [Bool.not_false, Bool.toNat_true] at hasked
    exact ⟨rfl, by omega⟩

theorem eq_of_id_eq (h : Tracks calls log e) {c other : Consumer α} (hc : c ∈ e.consumers)
    (hother : other ∈ e.consumers) (hid : other.id = c.id) : other = c :=
  List.inj_on_of_nodup_map h.nodup hother hc hid

theorem isLast_eq (h : Tracks calls log e) {c : Consumer α} (hc : c ∈ e.consumers) :
    e.isLast c.id = c.limit.any (· ≤ c.taken.length + 1) := by
  rw [Bool.eq_iff_iff, isLast, List.any_eq_true]
  constructor
  · rintro ⟨other, hother, hlast⟩
    rw [Bool.and_eq_true, beq_iff_eq] at hlast
    rw [h.eq_of_id_eq hc hother hlast.1] at hlast
    exact hlast.2
  · intro hlast
    exact ⟨c, hc, by simpa using hlast⟩

/-- The oldest answer to a consumer is seen, which changes only this one. -/
theorem update (h : Tracks calls log e) {f : Consumer α → Consumer α} (hid : ∀ c, (f c).id = c.id)
    (hseen : ∀ c ∈ e.consumers, c.id = id → ∃ seen, (f c).Told seen
      ∧ under id log = seen ++ under id (e.ready.eraseP fun entry => entry.1 == id)
      ∧ (requests calls).count id ≤ seen.length + (!(f c).finished).toNat) :
    Tracks calls log
      (Exchange.update { e with ready := e.ready.eraseP fun entry => entry.1 == id } id f) := by
  have hsame : ∀ c : Consumer α, (if c.id = id then f c else c).id = c.id := by
    intro c
    split
    · exact hid c
    · rfl
  have hconsumer : ∀ other, (Exchange.update
      { e with ready := e.ready.eraseP fun entry => entry.1 == id } id f).isConsumer other
      = e.isConsumer other := by
    intro other
    simp [isConsumer, Exchange.update, Function.comp_def, hsame]
  exact {
    answers := by
      refine h.answers.trans (List.filter_congr fun entry _ => ?_)
      rw [hconsumer]
    ready := by
      intro entry hentry
      rw [hconsumer]
      exact h.ready entry (List.mem_of_mem_eraseP hentry)
    nodup := by
      have hids : (e.consumers.map fun c => if c.id = id then f c else c).map Consumer.id
          = e.consumers.map Consumer.id := by
        simp [Function.comp_def, hsame]
      exact hids ▸ h.nodup
    known := by
      intro c hc
      obtain ⟨old, hold, rfl⟩ := List.mem_map.1 hc
      rw [hsame]
      exact h.known old hold
    called := h.called
    singles := fun other hother => h.singles other ((hconsumer other).symm.trans hother)
    distinct := h.distinct
    sends := fun send hsend => (hconsumer send.1).trans (h.sends send hsend)
    consumers := by
      intro c hc
      obtain ⟨old, hold, rfl⟩ := List.mem_map.1 hc
      rw [hsame]
      by_cases hthis : old.id = id
      · rw [if_pos hthis, hthis]
        exact hseen old hold hthis
      · rw [if_neg hthis]
        obtain ⟨seen, htold, hlog, hasked⟩ := h.consumers old hold
        refine ⟨seen, htold, ?_, hasked⟩
        rw [hlog]
        exact congrArg (seen ++ ·) (under_eraseP_of_ne hthis e.ready).symm }

/-- A consumer sees its oldest answer. -/
theorem see (h : Tracks calls log e) (hid : id ∈ e.ready.map Prod.fst)
    (hcount : (under id log).length ≤ (requests calls).count id)
    (hkind : ∀ answer ∈ under id log, answer = .finished ∨ ∃ value, answer = .received value) :
    Tracks calls log (e.see id) := by
  have hready : under id e.ready ≠ [] := mt under_eq_nil_iff.1 (not_not.2 hid)
  obtain ⟨answer, hfind, hfirst⟩ := exists_find?_of_under hready
  have hmem := h.ready _ (List.mem_of_find?_eq_some hfind)
  obtain ⟨c, hc, rfl⟩ := (e.isConsumer_iff id).1 hmem
  obtain ⟨hgoing, hone⟩ := h.finished_of_ready hc hcount hready
  obtain ⟨seen, htold, hlog, hasked⟩ := h.consumers c hc
  obtain ⟨hseen, hwants⟩ : seen = c.taken.map .received ∧ c.Wants := by
    cases htold with
    | looping _ hwants => exact ⟨rfl, hwants⟩
    | full hfinished | ended hfinished =>
      rw [hgoing] at hfinished
      cases hfinished
  -- What the consumer has seen then, and nothing else is left for it
  have hnext : under c.id log = (seen ++ [answer])
      ++ under c.id (e.ready.eraseP fun entry => entry.1 == c.id) := by
    rw [hlog, hfirst, List.append_assoc]
    rfl
  have hlength : (requests calls).count c.id ≤ (seen ++ [answer]).length := by
    rw [hgoing] at hasked
    rw [List.length_append]
    exact hasked
  have hanswer : answer ∈ under c.id log := by
    rw [hnext]
    simp
  unfold Exchange.see
  simp only [hfind]
  rcases hkind answer hanswer with rfl | ⟨value, rfl⟩
  · refine h.update (fun _ => rfl) fun other hother hid => ?_
    obtain rfl := h.eq_of_id_eq hc hother hid
    subst hseen
    exact ⟨_, .ended rfl hwants, hnext, hlength⟩
  · refine h.update (fun _ => rfl) fun other hother hid => ?_
    obtain rfl := h.eq_of_id_eq hc hother hid
    subst hseen
    rw [← List.map_singleton, ← List.map_append] at hnext hlength
    refine ⟨_, ?_, hnext, Nat.le_trans hlength (Nat.le_add_right _ _)⟩
    rw [h.isLast_eq hc]
    exact hwants.told_take value

/-! ### Steps -/

section
variable {f : Nat → Nat} {p q : Exchange α} {taken : List (Nat × α)}

theorem deliver_renamed (h : Tracks calls (p.rename f).answers e)
    {result : Channel α × List (Nat × Answer α)} (hchannel : q.channel = result.1)
    (hanswers : q.answers = p.answers ++ result.2) :
    (e.deliver (Channel.renamed f result)).channel = (q.rename f).channel
      ∧ Tracks calls (q.rename f).answers (e.deliver (Channel.renamed f result)) := by
  have hlog : (q.rename f).answers = (p.rename f).answers ++ (Channel.renamed f result).2 := by
    simp [Exchange.rename, Channel.renamed, hanswers]
  rw [hlog]
  refine ⟨?_, h.deliver _ _⟩
  rw [deliver_eq, Exchange.rename, hchannel]
  rfl

theorem receive_renamed (hchannel : e.channel = p.channel.rename f) (hnumber : f p.next = id) :
    e.channel.receive id = Channel.renamed f (p.channel.receive p.next) := by
  rw [hchannel, ← hnumber, Channel.receive_rename]

variable (hplain : p.consumers = []) (hchannel : e.channel = p.channel.rename f)
  (h : Tracks calls (p.rename f).answers e) (htally : Tally calls (p.rename f) taken)
include hplain hchannel h

theorem start_send (hnumber : f p.next = e.next) (value : α) :
    (e.start (.send value)).channel = ((p.start (.send value)).rename f).channel
      ∧ Tracks (calls ++ [(.send value, e.next)]) ((p.start (.send value)).rename f).answers
        (e.start (.send value)) := by
  have hsend : e.channel.send e.next value = Channel.renamed f (p.channel.send p.next value) := by
    rw [hchannel, ← hnumber, Channel.send_rename]
  rw [Exchange.start_send hplain rfl, start, hsend]
  exact (h.issue_send value).deliver_renamed rfl rfl

/-- A single call asks for a value. -/
theorem start_receive (hnumber : f p.next = e.next) :
    (e.start .receive).channel = ((p.start .receive).rename f).channel
      ∧ Tracks (calls ++ [(.receive, e.next)]) ((p.start .receive).rename f).answers
        (e.start .receive) := by
  rw [Exchange.start_receive hplain rfl, start, receive_renamed hchannel hnumber]
  refine (h.advance.issue_receive (Nat.lt_succ_self _) h.under_ready_next ?_ ?_
    fun _ => h.count_requests_next).deliver_renamed rfl rfl
  · intro c hc hid
    exact absurd hid (Nat.ne_of_lt (h.known c hc))
  · rw [h.count_requests_next]
    exact Nat.zero_le _

theorem start_close :
    (e.start .close).channel = ((p.start .close).rename f).channel
      ∧ Tracks calls ((p.start .close).rename f).answers (e.start .close) := by
  have hclose : e.channel.close? = p.channel.close?.map (Channel.renamed f) := by
    rw [hchannel, Channel.close?_rename]
  rw [start, hclose]
  cases hresult : p.channel.close? with
  | none =>
    rw [start, hresult]
    exact ⟨hchannel, { h with }⟩
  | some result =>
    rw [Exchange.start_close hplain hresult]
    exact h.deliver_renamed rfl rfl

include htally

/-- A new consumer asks for its first value. -/
theorem start_iterate (hnumber : f p.next = e.next) (limit : Option Nat) :
    (e.start (.iterate limit)).channel = ((p.start .receive).rename f).channel
      ∧ Tracks (calls ++ [(.receive, e.next)]) ((p.start .receive).rename f).answers
        (e.start (.iterate limit)) := by
  have hlog : ∀ entry ∈ (p.rename f).answers, entry.1 < e.next := by
    intro entry hentry
    obtain ⟨call, hcall, hid⟩ := htally.exists_call hentry
    exact hid ▸ h.called call hcall
  rw [Exchange.start_receive hplain rfl, start, receive_renamed hchannel hnumber]
  refine ((h.join hlog limit).issue_receive (Nat.lt_succ_self _) h.under_ready_next ?_ ?_
    fun _ => h.count_requests_next).deliver_renamed rfl rfl
  · intro c hc hid
    rcases List.mem_append.1 hc with hold | hnew
    · exact absurd hid (Nat.ne_of_lt (h.known c hold))
    · rw [List.mem_singleton.1 hnew]
  · rw [h.count_requests_next]
    exact Nat.zero_le _

/-- A consumer asks for its next value. -/
theorem ask (hawaits : e.Awaits (.ask id)) (hnumber : f p.next = id) :
    (e.ask id).channel = ((p.start .receive).rename f).channel
      ∧ Tracks (calls ++ [(.receive, id)]) ((p.start .receive).rename f).answers (e.ask id) := by
  obtain ⟨⟨c, hc, rfl, hgoing⟩, hreceivers, hready⟩ := hawaits
  have hconsumer := (e.isConsumer_iff c.id).2 ⟨c, hc, rfl⟩
  have hcount := htally.count_requests (h.not_mem_offers hconsumer)
  rw [show (p.rename f).channel = e.channel from hchannel.symm,
    List.count_eq_zero.2 hreceivers] at hcount
  rw [Exchange.start_receive hplain rfl, Exchange.ask,
    receive_renamed hchannel hnumber]
  refine (h.issue_receive (h.known c hc) (under_eq_nil_iff.2 hready) ?_
    (Nat.le_of_eq hcount) (absurd hconsumer ∘ Bool.eq_false_iff.1)).deliver_renamed rfl rfl
  intro other hother hid
  rw [h.eq_of_id_eq hc hother hid]
  exact hgoing

end

end Tracks

/-! ## Courses -/

/-- Single calls make no consumers, and take one number after another. -/
theorem plain_afterCalls (capacity : Nat) (calls : List (Call α)) :
    (afterCalls capacity calls).consumers = []
      ∧ (afterCalls capacity calls).next = (numbered calls).length := by
  induction calls using List.reverseRecOn with
  | nil => exact ⟨rfl, rfl⟩
  | append_singleton calls call ih =>
    obtain ⟨hplain, hnext⟩ := ih
    rw [afterCalls_concat]
    cases call with
    | send value =>
      rw [Call.operation, start_send hplain rfl, numbered_concat_send]
      exact ⟨hplain, by simp [hnext]⟩
    | receive =>
      rw [Call.operation, start_receive hplain rfl, numbered_concat_receive]
      exact ⟨hplain, by simp [hnext]⟩
    | close =>
      rw [Call.operation, numbered_concat_close]
      cases hclose : (afterCalls capacity calls).channel.close? with
      | none =>
        rw [start, hclose]
        exact ⟨hplain, hnext⟩
      | some result =>
        rw [start_close hplain hclose]
        exact ⟨hplain, hnext⟩

/-- The numbers of the calls up to the last step, and at it. -/
theorem issued_concat {e : Exchange α} {steps : List (Step α)} {step : Step α} {f : Nat → Nat}
    (h : issued e (steps ++ [step])
      = (numbered ((steps ++ [step]).filterMap Step.call?)).map (Prod.map id f)) :
    issued e steps = (numbered (steps.filterMap Step.call?)).map (Prod.map id f)
      ∧ ∀ call ∈ (e.run steps).issue step,
        f (numbered (steps.filterMap Step.call?)).length = call.2 := by
  generalize hcalls : steps.filterMap Step.call? = calls at h
  have hmore : numbered ((steps ++ [step]).filterMap Step.call?) = numbered calls
      ++ (step.call?.toList.filter fun call => !call.isClose).map (·, (numbered calls).length) := by
    rw [List.filterMap_append, hcalls, List.filterMap_cons, List.filterMap_nil]
    rcases step.call? with _ | _ | _ | _ <;> simp [Call.isClose]
  rw [hmore, issued_append, issued_singleton, List.map_append] at h
  obtain ⟨hbefore, hlast⟩ := List.append_inj' h (by simp [issue])
  refine ⟨hbefore, fun call hcall => ?_⟩
  rw [hlast] at hcall
  obtain ⟨_, hnumbered, rfl⟩ := List.mem_map.1 hcall
  obtain ⟨_, -, rfl⟩ := List.mem_map.1 hnumbered
  rfl

/-- **Every course gives its consumers what single calls are answered**, as far as those make the
    same calls under numbers of their own. -/
theorem tracks_run (capacity : Nat) {f : Nat → Nat} {steps : List (Step α)}
    (hcourse : Course (ofChannel (.empty capacity)) steps)
    (hcalls : issued (ofChannel (.empty capacity)) steps
      = (numbered (steps.filterMap Step.call?)).map (Prod.map id f)) :
    let e := (ofChannel (.empty capacity)).run steps
    let p := (afterCalls capacity (steps.filterMap Step.call?)).rename f
    e.channel = p.channel
      ∧ Tracks (issued (ofChannel (.empty capacity)) steps) p.answers e := by
  induction steps using List.reverseRecOn with
  | nil => exact ⟨rfl, .initial _⟩
  | append_singleton steps step ih =>
    obtain ⟨hbefore, hlast⟩ := issued_concat hcalls
    obtain ⟨hcourse, hawaits, -⟩ := course_append.1 hcourse
    obtain ⟨hchannel, htracks⟩ := ih hcourse hbefore
    obtain ⟨hplain, hnext⟩ := plain_afterCalls capacity (steps.filterMap Step.call?)
    obtain ⟨taken, htally⟩ := exists_tally capacity (steps.filterMap Step.call?)
    have htally := htally.rename f
    rw [← hbefore] at htally
    rw [← hnext] at hlast
    rw [issued_append, issued_singleton, run_append]
    generalize (ofChannel (.empty capacity)).run steps = e at *
    generalize issued (ofChannel (.empty capacity)) steps = calls at *
    have hstep : ∀ call, step.call? = some call →
        afterCalls capacity ((steps ++ [step]).filterMap Step.call?)
          = (afterCalls capacity (steps.filterMap Step.call?)).start call.operation := by
      intro call hcall
      rw [List.filterMap_append, List.filterMap_cons, hcall]
      exact afterCalls_concat ..
    cases step with
    | start operation =>
      cases operation with
      | send value =>
        rw [hstep _ rfl]
        exact htracks.start_send hplain hchannel (hlast _ List.mem_cons_self) value
      | receive =>
        rw [hstep _ rfl]
        exact htracks.start_receive hplain hchannel (hlast _ List.mem_cons_self)
      | close =>
        rw [hstep _ rfl, show e.issue (.start .close) = [] from rfl, List.append_nil]
        exact htracks.start_close hplain hchannel
      | iterate limit =>
        rw [hstep _ rfl]
        exact htracks.start_iterate hplain hchannel htally (hlast _ List.mem_cons_self) limit
    | see id =>
      have hsame : (steps ++ [Step.see id]).filterMap Step.call? = steps.filterMap Step.call? := by
        simp [Step.call?]
      obtain ⟨entry, hentry, hid⟩ := List.mem_map.1 hawaits
      have hoffers := htracks.not_mem_offers (hid ▸ htracks.ready entry hentry)
      have hcount := htally.count_requests hoffers
      rw [hsame, show e.issue (.see id) = [] from rfl, List.append_nil]
      refine ⟨(channel_see e id).trans hchannel, htracks.see hawaits ?_ ?_⟩
      · rw [hcount]
        exact Nat.le_add_right _ _
      · exact fun answer hanswer => htally.answer_of_mem_under hoffers hanswer
    | ask id =>
      rw [hstep _ rfl]
      exact htracks.ask hplain hchannel htally hawaits (hlast _ List.mem_cons_self)

end Exchange

end ServedChain
