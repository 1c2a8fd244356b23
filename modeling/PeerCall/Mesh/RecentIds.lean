import PeerCall.Duration
import PeerCall.Packet

/-!
# Recently handled packets

A node remembers the packets that it has handled, so that it handles none twice. The memory is
bounded by age and by count: an id is forgotten once a clock reading finds it at the front of the
queue with the window's age, or when a newer one needs its place.

The set answers questions and the queue decides what is forgotten; both are kept because readings of
the clock need not increase, so the queue is not sorted by age.
-/

namespace PeerCall.Mesh

/-- The ids handled lately. -/
structure RecentIds where
  /-- The most ids remembered. -/
  capacity : Nat
  /-- The age at which an id is forgotten. -/
  window : Duration
  /-- The ids remembered. -/
  ids : List PacketId
  /-- The same ids in the order of their arrival, with the reading of the clock then. -/
  order : List (PacketId × Instant)

namespace RecentIds

/-- Nothing remembered; room for one id at least. -/
def empty (capacity : Nat) (window : Duration) : RecentIds := ⟨max capacity 1, window, [], []⟩

/-- Whether an entry has the window's age. An arrival in the future has no age. -/
def stale (window : Duration) (now : Instant) (entry : PacketId × Instant) : Bool :=
  window ≤ now - entry.2

/-- Forget stale entries from the front of the queue up to the first that is not. -/
def expire (now : Instant) (r : RecentIds) : RecentIds :=
  { r with
    order := r.order.dropWhile (stale r.window now)
    ids := (r.order.takeWhile (stale r.window now)).foldl (fun ids e => ids.erase e.1) r.ids }

/-- Forget from the front of the queue until there is room for one more. -/
def evict (capacity : Nat) :
    List (PacketId × Instant) → List PacketId → List PacketId × List (PacketId × Instant)
  | [], ids => (ids, [])
  | e :: order, ids =>
    if ids.length < capacity then (ids, e :: order) else evict capacity order (ids.erase e.1)

/-- Whether an id is remembered. -/
def contains (id : PacketId) (r : RecentIds) : Bool := r.ids.contains id

/-- Remember an id; false if it was remembered already. Stale entries are forgotten first. -/
def insert (id : PacketId) (now : Instant) (r : RecentIds) : Bool × RecentIds :=
  let r := r.expire now
  if r.contains id then (false, r)
  else
    let (ids, order) := evict r.capacity r.order r.ids
    (true, { r with ids := ids ++ [id], order := order ++ [(id, now)] })

/-- How many ids are remembered. -/
def size (r : RecentIds) : Nat := r.ids.length

/-- Whether no id is remembered. -/
def isEmpty (r : RecentIds) : Bool := r.ids.isEmpty

end RecentIds

end PeerCall.Mesh
