/-
  ServedChain — bounded channels: first in, first out, between those who send
  values and those who receive them.

  A send waits while the buffer is full, a receive while it is empty; with a
  capacity of zero each send waits for a receive.  After a channel is closed what
  is left can still be received.

  * `Channel.send`, `Channel.receive` and `Channel.close` are the operations; each
    gives the next state and what was answered to whom;
  * whoever starts an operation is known by a number.
-/
import ServedChain.Number.Shortest

namespace ServedChain

structure Channel (α : Type) where
  /-- How many values the buffer holds -/
  capacity : Nat
  /-- The values that were sent and not yet received, the oldest first -/
  buffer : List α
  /-- The sends that wait, the oldest first -/
  senders : List (Nat × α)
  /-- The receives that wait, the oldest first -/
  receivers : List Nat
  closed : Bool
  deriving DecidableEq, Repr

namespace Channel

/-! ## Creation -/

/-- A channel that nobody has used. -/
def empty {α : Type} (capacity : Nat) : Channel α := ⟨capacity, [], [], [], false⟩

/-- The text of the error about a capacity that is no natural number. -/
def capacityMessage (capacity : Binary64) : String :=
  "channel capacity must be a non-negative integer (got " ++ capacity.toText ++ ")"

/-- A channel with a capacity, if that is a natural number. -/
def ofCapacity {α : Type} (capacity : Binary64) : Except String (Channel α) :=
  match capacity.toInt? with
  | some (.ofNat n) => .ok (empty n)
  | _ => .error (capacityMessage capacity)

/-! ## Operations -/

inductive Answer (α : Type) where
  /-- The value was taken over -/
  | sent
  | received (value : α)
  /-- There is nothing more to receive -/
  | finished
  /-- The channel was closed before the value was taken over -/
  | refused
  deriving DecidableEq, Repr

/-- The code of the error that a closed channel answers with. -/
def closedCode : String := "CHANNEL_CLOSED"

/-- The text of the error that a closed channel answers with. -/
def closedMessage : String := "Channel is closed"

variable {α : Type}

def send (c : Channel α) (sender : Nat) (value : α) : Channel α × List (Nat × Answer α) :=
  if c.closed then (c, [(sender, .refused)])
  else match c.receivers with
    | receiver :: receivers =>
      ({ c with receivers }, [(receiver, .received value), (sender, .sent)])
    | [] =>
      if c.buffer.length < c.capacity then
        ({ c with buffer := c.buffer ++ [value] }, [(sender, .sent)])
      else ({ c with senders := c.senders ++ [(sender, value)] }, [])

/-- A value asked for.  It makes room for the oldest send that waits. -/
def receive (c : Channel α) (receiver : Nat) : Channel α × List (Nat × Answer α) :=
  match c.buffer, c.senders with
  | value :: buffer, (sender, next) :: senders =>
    ({ c with buffer := buffer ++ [next], senders },
      [(sender, .sent), (receiver, .received value)])
  | value :: buffer, [] => ({ c with buffer }, [(receiver, .received value)])
  | [], (sender, value) :: senders =>
    ({ c with senders }, [(sender, .sent), (receiver, .received value)])
  | [], [] =>
    if c.closed then (c, [(receiver, .finished)])
    else ({ c with receivers := c.receivers ++ [receiver] }, [])

/-- The channel closed, unless it already is. -/
def close? (c : Channel α) : Option (Channel α × List (Nat × Answer α)) :=
  if c.closed then none
  else some ({ c with closed := true, receivers := [], senders := [] },
    c.receivers.map (fun receiver => (receiver, .finished))
      ++ c.senders.map fun (sender, _) => (sender, .refused))

end Channel

end ServedChain
