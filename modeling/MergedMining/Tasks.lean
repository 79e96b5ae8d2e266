/-
Tasks: the queues they hand things on through, and how they end.

What is sent into a queue waits in order until it is received. There is room for so many;
when the queue is full the sender has to wait. Either end can go away: then there is nobody
to send to.
-/
namespace MergedMining

-- =================================================================== queues

/-- A bounded queue. -/
structure Channel (α : Type) where
  capacity : Nat
  /-- What waits, the first sent first. -/
  queued : List α
  isOpen : Bool
  deriving DecidableEq, Repr

namespace Channel

variable {α : Type}

/-- What becomes of an item that is sent. -/
inductive Sent (α : Type) where
  | queued (channel : Channel α)
  | full
  | closed
  deriving DecidableEq, Repr

/-- A channel with nothing in it. -/
def create (capacity : Nat) : Channel α := ⟨capacity, [], true⟩

/-- Sends an item, if somebody can receive it and there is room. -/
def send (c : Channel α) (item : α) : Sent α :=
  if !c.isOpen then .closed
  else if c.queued.length < c.capacity then .queued { c with queued := c.queued ++ [item] }
  else .full

/-- Receives what was sent first. -/
def receive? (c : Channel α) : Option (α × Channel α) :=
  match c.queued with
  | [] => none
  | item :: rest => some (item, { c with queued := rest })

/-- Receives all that waits at once. -/
def drain (c : Channel α) : List α × Channel α := (c.queued, { c with queued := [] })

/-- The receiver goes away, and with it all that waits. -/
def dropReceiver (c : Channel α) : Channel α := { c with queued := [], isOpen := false }

end Channel

-- ===================================================================== ends

/-- How a task ended. -/
inductive TaskEnd where
  | finished
  | panicked
  | aborted
  deriving DecidableEq, Repr

/-- How many tasks failed; one that panicked or was aborted counts. -/
def TaskEnd.failed (ends : List TaskEnd) : Nat := ends.countP (· ≠ .finished)

end MergedMining
