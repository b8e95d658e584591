/-
  Runs of a channel: single sends, receives and closes, and the answers to them.

  * `Call` is a call by someone who is not a consumer, and `afterCalls` what some
    calls lead to;
  * `sends` and `receives` are the calls with the numbers by which they are known;
  * `accepted`, `refused`, `received` and `finished` are the answers.
-/
import ServedChain.Channel.Exchange

namespace ServedChain.Exchange

open Channel (Answer)

variable {α : Type}

/-! ## Calls -/

/-- A call by someone who is not a consumer. -/
inductive Call (α : Type) where
  | send (value : α)
  | receive
  | close
  deriving DecidableEq, Repr

def Call.operation : Call α → Operation α
  | send value => .send value
  | receive => .receive
  | close => .close

def Call.isClose : Call α → Bool
  | close => true
  | send _ | receive => false

/-- What some calls lead to on a channel that nobody has used. -/
def afterCalls (capacity : Nat) (calls : List (Call α)) : Exchange α :=
  (calls.map Call.operation).foldl start (ofChannel (.empty capacity))

theorem afterCalls_concat (capacity : Nat) (calls : List (Call α)) (call : Call α) :
    afterCalls capacity (calls ++ [call]) = (afterCalls capacity calls).start call.operation := by
  simp only [afterCalls, List.map_append, List.map_cons, List.map_nil, List.foldl_append,
    List.foldl_cons, List.foldl_nil]

/-- The sends and receives with their numbers. -/
def numbered (calls : List (Call α)) : List (Call α × Nat) :=
  (calls.filter fun call => !call.isClose).zipIdx

/-- The number of a send and its value. -/
def sendOf? : Call α × Nat → Option (Nat × α)
  | (.send value, id) => some (id, value)
  | _ => none

/-- The number of a receive. -/
def receiveOf? : Call α × Nat → Option Nat
  | (.receive, id) => some id
  | _ => none

/-- The numbers of the sends with their values, in the order of the calls. -/
def sends (calls : List (Call α)) : List (Nat × α) := (numbered calls).filterMap sendOf?

/-- The numbers of the receives, in the order of the calls. -/
def receives (calls : List (Call α)) : List Nat := (numbered calls).filterMap receiveOf?

section
variable (calls : List (Call α)) (value : α)

@[simp] theorem numbered_concat_send : numbered (calls ++ [.send value])
    = numbered calls ++ [(.send value, (numbered calls).length)] := by
  simp [numbered, Call.isClose, List.zipIdx_append]

@[simp] theorem numbered_concat_receive : numbered (calls ++ [.receive])
    = numbered calls ++ [(.receive, (numbered calls).length)] := by
  simp [numbered, Call.isClose, List.zipIdx_append]

@[simp] theorem numbered_concat_close : numbered (calls ++ [.close]) = numbered calls := by
  simp [numbered, Call.isClose]

@[simp] theorem sends_concat_send :
    sends (calls ++ [.send value]) = sends calls ++ [((numbered calls).length, value)] := by
  simp [sends, sendOf?]

@[simp] theorem sends_concat_receive : sends (calls ++ [.receive]) = sends calls := by
  simp [sends, sendOf?]

@[simp] theorem sends_concat_close : sends (calls ++ [.close]) = sends calls := by
  simp [sends]

@[simp] theorem receives_concat_send : receives (calls ++ [.send value]) = receives calls := by
  simp [receives, receiveOf?]

@[simp] theorem receives_concat_receive :
    receives (calls ++ [.receive]) = receives calls ++ [(numbered calls).length] := by
  simp [receives, receiveOf?]

@[simp] theorem receives_concat_close : receives (calls ++ [.close]) = receives calls := by
  simp [receives]

end

theorem receives_isPrefix_append (calls more : List (Call α)) :
    receives calls <+: receives (calls ++ more) := by
  rw [receives, receives, numbered, numbered, List.filter_append, List.zipIdx_append,
    List.filterMap_append]
  exact List.prefix_append _ _

/-- No two sends have one number. -/
theorem nodup_sends (calls : List (Call α)) : ((sends calls).map Prod.fst).Nodup := by
  have hids : (sends calls).map Prod.fst
      = (numbered calls).filterMap fun call => (sendOf? call).map Prod.fst := by
    rw [sends, List.map_filterMap]
  have hsub : ((numbered calls).filterMap fun call => (sendOf? call).map Prod.fst).Sublist
      ((numbered calls).map Prod.snd) := by
    generalize numbered calls = l
    induction l with
    | nil => exact .slnil
    | cons first l ih =>
      obtain ⟨_ | _ | _, id⟩ := first
      · exact ih.cons_cons id
      · exact ih.cons id
      · exact ih.cons id
  rw [hids]
  refine hsub.nodup ?_
  rw [numbered, List.zipIdx_map_snd]
  exact List.nodup_range'

/-! ## Answers -/

/-- The sends that were accepted, in the order of the answers. -/
def accepted (e : Exchange α) : List Nat :=
  e.answers.filterMap fun
    | (id, .sent) => some id
    | _ => none

/-- The sends that were refused, in the order of the answers. -/
def refused (e : Exchange α) : List Nat :=
  e.answers.filterMap fun
    | (id, .refused) => some id
    | _ => none

/-- The receives that were answered with a value, in the order of the answers. -/
def received (e : Exchange α) : List (Nat × α) :=
  e.answers.filterMap fun
    | (id, .received value) => some (id, value)
    | _ => none

/-- The receives that were told that there is nothing more, in the order of the answers. -/
def finished (e : Exchange α) : List Nat :=
  e.answers.filterMap fun
    | (id, .finished) => some id
    | _ => none

theorem deliver_of_no_consumer {e : Exchange α} (h : e.consumers = [])
    (result : Channel α × List (Nat × Answer α)) :
    e.deliver result
      = { e with channel := result.1, answers := e.answers ++ result.2 } := by
  simp [deliver, isConsumer, h, List.partition_eq_filter_filter]

section
variable {e : Exchange α} (h : e.consumers = []) {channel : Channel α}
  {answers : List (Nat × Answer α)}
include h

theorem start_send {value : α} (hs : e.channel.send e.next value = (channel, answers)) :
    e.start (.send value)
      = { e with channel, next := e.next + 1, answers := e.answers ++ answers } := by
  rw [start, deliver_of_no_consumer (by exact h), hs]

theorem start_receive (hr : e.channel.receive e.next = (channel, answers)) :
    e.start .receive
      = { e with channel, next := e.next + 1, answers := e.answers ++ answers } := by
  rw [start, deliver_of_no_consumer (by exact h), hr]

theorem start_close (hc : e.channel.close? = some (channel, answers)) :
    e.start .close = { e with channel, answers := e.answers ++ answers } := by
  rw [start, hc]
  exact deliver_of_no_consumer h _

end

end ServedChain.Exchange
