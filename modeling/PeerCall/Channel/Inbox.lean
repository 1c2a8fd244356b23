import PeerCall.Message

/-!
# Inboxes

A subscriber's queue of bounded length. The producer never waits: when the queue is full the oldest
entry is lost, and the subscriber is told how many it lost before it reads on.
-/

namespace PeerCall

/-- What a subscriber reads. -/
inductive Receipt (α : Type)
  | item (a : α)
  /-- So many entries were lost. -/
  | lagged (count : Nat)
  deriving DecidableEq

/-- A subscriber's queue. -/
structure Inbox (α : Type) where
  /-- The most entries that wait. -/
  capacity : Nat
  /-- What waits, oldest first. -/
  waiting : List α
  /-- Entries lost since the last reading. -/
  lost : Nat

namespace Inbox

variable {α : Type}

/-- A new subscription. -/
def empty (capacity : Nat) : Inbox α := ⟨capacity, [], 0⟩

/-- Entries arrive; only the latest stay. -/
def append (as : List α) (i : Inbox α) : Inbox α :=
  let all := i.waiting ++ as
  let excess := all.length - i.capacity
  { i with waiting := all.drop excess, lost := i.lost + excess }

/-- An entry arrives. -/
def push (a : α) (i : Inbox α) : Inbox α := i.append [a]

/-- All that a subscriber reads when it reads until nothing waits. -/
def receipts (i : Inbox α) : List (Receipt α) :=
  (if i.lost = 0 then [] else [.lagged i.lost]) ++ i.waiting.map .item

/-- The queue after that. -/
def cleared (i : Inbox α) : Inbox α := .empty i.capacity

end Inbox

/-- How many messages wait for a channel's subscriber. -/
def messageCapacity : Nat := 256

/-- Copies of a message, told apart by a number behind the sender. -/
def Message.burst (count : Nat) (m : Message) : List Message :=
  (List.range count).map fun i => { m with sender := m.sender ++ toString i }

end PeerCall
