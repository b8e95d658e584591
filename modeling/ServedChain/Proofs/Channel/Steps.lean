/-
  The steps of those who use a channel, one at a time.

  Between a value and the next one a consumer lets others go on: that it sees an
  answer and that it asks again are steps of their own.

  * `Step` is a step, `Awaits` says when it can happen, and a `Course` is made of steps
    that can;
  * `issued` are the sends and receives that steps make on the channel, each with the
    number of whoever makes it; a consumer makes many of them under its one number.
-/
import ServedChain.Proofs.Channel.Calls

namespace ServedChain.Exchange

open Channel (Answer)

variable {α : Type}

/-! ## Steps -/

inductive Step (α : Type) where
  | start (operation : Operation α)
  /-- A consumer sees the oldest answer that it has not seen -/
  | see (id : Nat)
  /-- A consumer asks for its next value -/
  | ask (id : Nat)
  deriving DecidableEq, Repr

/-- Whether a step is one that a consumer takes on its own. -/
def Step.isOf (id : Nat) : Step α → Bool
  | start _ => false
  | see other | ask other => other == id

/-- A consumer takes a value that it was given, and leaves if that is its last one; it also leaves
    if it was told that there is nothing more. -/
def see (e : Exchange α) (id : Nat) : Exchange α :=
  let rest := { e with ready := e.ready.eraseP fun entry => entry.1 == id }
  match e.ready.find? fun entry => entry.1 == id with
  | none => e
  | some (_, .received value) =>
    rest.update id fun c => { c with taken := c.taken ++ [value], finished := e.isLast id }
  | some _ => rest.update id fun c => { c with finished := true }

theorem channel_see (e : Exchange α) (id : Nat) : (e.see id).channel = e.channel := by
  unfold see
  split <;> rfl

def ask (e : Exchange α) (id : Nat) : Exchange α := e.deliver (e.channel.receive id)

def handle (e : Exchange α) : Step α → Exchange α
  | .start operation => e.start operation
  | .see id => e.see id
  | .ask id => e.ask id

def run (e : Exchange α) (steps : List (Step α)) : Exchange α := steps.foldl handle e

/-- Whether a step can happen: operations always can, and a consumer asks once it has seen all
    answers, unless it has left. -/
def Awaits (e : Exchange α) : Step α → Prop
  | .start _ => True
  | .see id => id ∈ e.ready.map Prod.fst
  | .ask id => (∃ c ∈ e.consumers, c.id = id ∧ c.finished = false)
      ∧ id ∉ e.channel.receivers ∧ id ∉ e.ready.map Prod.fst

/-- Steps each of which can happen when it is its turn. -/
def Course : Exchange α → List (Step α) → Prop
  | _, [] => True
  | e, step :: steps => e.Awaits step ∧ Course (e.handle step) steps

instance (e : Exchange α) : (step : Step α) → Decidable (e.Awaits step)
  | .start _ => isTrue trivial
  | .see id => inferInstanceAs (Decidable (id ∈ e.ready.map Prod.fst))
  | .ask id => inferInstanceAs (Decidable ((∃ c ∈ e.consumers, c.id = id ∧ c.finished = false)
      ∧ id ∉ e.channel.receivers ∧ id ∉ e.ready.map Prod.fst))

instance Course.decidable : (e : Exchange α) → (steps : List (Step α)) → Decidable (Course e steps)
  | _, [] => isTrue trivial
  | e, step :: steps =>
    have := Course.decidable (e.handle step) steps
    inferInstanceAs (Decidable (e.Awaits step ∧ Course _ steps))

theorem run_append (e : Exchange α) (steps more : List (Step α)) :
    e.run (steps ++ more) = (e.run steps).run more := List.foldl_append ..

theorem course_append {e : Exchange α} {steps more : List (Step α)} :
    Course e (steps ++ more) ↔ Course e steps ∧ Course (e.run steps) more := by
  induction steps generalizing e with
  | nil => exact ⟨fun h => ⟨trivial, h⟩, And.right⟩
  | cons step steps ih =>
    rw [List.cons_append, Course, ih, Course, and_assoc]
    rfl

/-! ## Calls -/

/-- The call that a step makes on the channel. -/
def Step.call? : Step α → Option (Call α)
  | start (.send value) => some (.send value)
  | start .receive | start (.iterate _) | ask _ => some .receive
  | start .close => some .close
  | see _ => none

/-- The number of whoever makes a step. -/
def caller (e : Exchange α) : Step α → Nat
  | .start _ => e.next
  | .see id | .ask id => id

/-- The send or receive that a step makes on the channel, with the number of whoever makes it. -/
def issue (e : Exchange α) (step : Step α) : List (Call α × Nat) :=
  (step.call?.toList.filter fun call => !call.isClose).map fun call => (call, e.caller step)

/-- The sends and receives that steps make on the channel, in order. -/
def issued : Exchange α → List (Step α) → List (Call α × Nat)
  | _, [] => []
  | e, step :: steps => e.issue step ++ issued (e.handle step) steps

/-- The numbers of those who ask for a value, in the order in which they do. -/
def requests (calls : List (Call α × Nat)) : List Nat := calls.filterMap receiveOf?

/-- The values sent with the numbers of the sends, in the order of the sends. -/
def offers (calls : List (Call α × Nat)) : List (Nat × α) := calls.filterMap sendOf?

theorem issued_append (e : Exchange α) (steps more : List (Step α)) :
    issued e (steps ++ more) = issued e steps ++ issued (e.run steps) more := by
  induction steps generalizing e with
  | nil => rfl
  | cons step steps ih =>
    rw [List.cons_append, issued, ih, issued, List.append_assoc]
    rfl

theorem issued_singleton (e : Exchange α) (step : Step α) : issued e [step] = e.issue step :=
  List.append_nil _

theorem map_fst_issued (e : Exchange α) (steps : List (Step α)) :
    (issued e steps).map Prod.fst
      = (steps.filterMap Step.call?).filter fun call => !call.isClose := by
  induction steps generalizing e with
  | nil => rfl
  | cons step steps ih =>
    rw [issued, List.map_append, ih, issue, List.map_map, List.filterMap_cons]
    cases hcall : step.call? with
    | none => simp
    | some call => cases hclose : call.isClose <;> simp [hclose]

/-- The calls that steps make are calls of their own, made under other numbers. -/
theorem exists_issued_eq (e : Exchange α) (steps : List (Step α)) :
    ∃ f : Nat → Nat,
      issued e steps = (numbered (steps.filterMap Step.call?)).map (Prod.map id f) := by
  refine ⟨fun place => ((issued e steps).map Prod.snd).getD place 0, ?_⟩
  rw [numbered, ← map_fst_issued e]
  refine List.ext_getElem (by simp) fun place hplace _ => ?_
  simp [hplace]

end ServedChain.Exchange
