/-!
# Channel states

What a signaling channel says about itself, and published values in general: a reader remembers
which version it saw last and so notices a change, but never how many there were.
-/

namespace PeerCall

/-- Connection states of a signaling channel. -/
inductive ChannelState
  | idle
  | connecting
  | connected
  | disconnected
  | error
  deriving DecidableEq, Repr

/-- A published value. -/
structure Watched (α : Type) where
  value : α
  /-- How often a value was published since the first. -/
  version : Nat
  deriving DecidableEq

namespace Watched

variable {α : Type}

/-- A first value. -/
def start (a : α) : Watched α := ⟨a, 0⟩

/-- Publish a value, even the current one. -/
def publish (a : α) (w : Watched α) : Watched α := ⟨a, w.version + 1⟩

/-- Publish a value unless it is the current one. -/
def set [DecidableEq α] (a : α) (w : Watched α) : Watched α :=
  if w.value = a then w else w.publish a

/-- Whether anything was published since a version. -/
def changedSince (seen : Nat) (w : Watched α) : Bool := w.version != seen

@[simp] theorem value_set [DecidableEq α] (a : α) (w : Watched α) : (w.set a).value = a := by
  unfold set
  split <;> simp_all [publish]

/-- Publishing the current value again shows to nobody. -/
@[simp] theorem set_value [DecidableEq α] (w : Watched α) : w.set w.value = w := by simp [set]

end Watched

end PeerCall
