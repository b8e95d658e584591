/-
  ServedChain — a channel with those who use it: single sends and receives, and
  consumers that receive one value after another.

  Operations that are started together come before any consumer goes on.  Then
  the consumers go on in the order in which they were answered: a consumer takes
  its value and asks for the next one, unless it has as many as it wants.

  * `Exchange.start` starts an operation, `Exchange.resume` lets one consumer go
    on, and `Exchange.settle` all of them as long as one can.
-/
import ServedChain.Channel.Basic

namespace ServedChain

open Channel (Answer)

/-- Someone who receives one value after another. -/
structure Consumer (α : Type) where
  id : Nat
  /-- How many values it wants -/
  limit : Option Nat
  /-- The values that it has, the oldest first -/
  taken : List α
  finished : Bool
  deriving DecidableEq, Repr

/-- A channel with those who use it. -/
structure Exchange (α : Type) where
  channel : Channel α
  /-- The number of the next operation -/
  next : Nat
  consumers : List (Consumer α)
  /-- Answers that consumers have not seen yet, the oldest first -/
  ready : List (Nat × Answer α)
  /-- The answers to single sends and receives -/
  answers : List (Nat × Answer α)
  /-- How often a closed channel was to be closed -/
  closeErrors : Nat
  deriving DecidableEq, Repr

inductive Exchange.Operation (α : Type) where
  | send (value : α)
  | receive
  | close
  /-- A consumer that wants so many values -/
  | iterate (limit : Option Nat)
  deriving DecidableEq, Repr

namespace Exchange

variable {α : Type}

/-- A channel that nobody has used. -/
def ofChannel (channel : Channel α) : Exchange α := ⟨channel, 0, [], [], [], 0⟩

/-- Whether a number belongs to a consumer. -/
def isConsumer (e : Exchange α) (id : Nat) : Bool := e.consumers.any (·.id == id)

/-- The next state of the channel, with its answers given to whom they are for. -/
def deliver (e : Exchange α) (result : Channel α × List (Nat × Answer α)) : Exchange α :=
  let (forConsumers, others) := result.2.partition fun (id, _) => e.isConsumer id
  { e with
    channel := result.1
    ready := e.ready ++ forConsumers
    answers := e.answers ++ others }

def start (e : Exchange α) : Operation α → Exchange α
  | .send value => { e with next := e.next + 1 }.deliver (e.channel.send e.next value)
  | .receive => { e with next := e.next + 1 }.deliver (e.channel.receive e.next)
  | .close =>
    match e.channel.close? with
    | none => { e with closeErrors := e.closeErrors + 1 }
    | some result => e.deliver result
  | .iterate limit =>
    let consumer : Consumer α := ⟨e.next, limit, [], false⟩
    { e with next := e.next + 1, consumers := e.consumers ++ [consumer] }.deliver
      (e.channel.receive e.next)

/-- The consumers, one of them changed. -/
def update (e : Exchange α) (id : Nat) (f : Consumer α → Consumer α) : Exchange α :=
  { e with consumers := e.consumers.map fun c => if c.id = id then f c else c }

/-- Whether a consumer with one more value has as many as it wants. -/
def isLast (e : Exchange α) (id : Nat) : Bool :=
  e.consumers.any fun c => c.id == id && c.limit.any (· ≤ c.taken.length + 1)

/-- The consumer that was answered first goes on. -/
def resume (e : Exchange α) : Exchange α :=
  match e.ready with
  | [] => e
  | (id, .received value) :: ready =>
    let last := e.isLast id
    let e := { e with ready }.update id fun c =>
      { c with taken := c.taken ++ [value], finished := last }
    if last then e else e.deliver (e.channel.receive id)
  | (id, _) :: ready => { e with ready }.update id fun c => { c with finished := true }

/-- The consumers go on so many times, or as long as one can. -/
def resumeTimes : (count : Nat) → Exchange α → Exchange α
  | 0, e => e
  | count + 1, e => if e.ready.isEmpty then e else resumeTimes count e.resume

/-- How many times consumers can go on at most: once for each value, and once more to find that
    there is none. -/
def load (e : Exchange α) : Nat :=
  2 * (e.channel.buffer.length + e.channel.senders.length + e.ready.length)

/-- The consumers go on as long as one can. -/
def settle (e : Exchange α) : Exchange α := resumeTimes e.load e

/-- Operations started together, and what follows from them. -/
def perform (e : Exchange α) (operations : List (Operation α)) : Exchange α :=
  (operations.foldl start e).settle

end Exchange

end ServedChain
