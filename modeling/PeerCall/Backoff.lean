import PeerCall.Duration

/-!
# Growing delays

The delays between attempts of a transport that retries until told to stop: each twice the one
before, up to a limit, from the start again after a success.
-/

namespace PeerCall

/-- A sequence of delays under way. -/
structure Backoff where
  initial : Duration
  limit : Duration
  /-- The delay due next. -/
  next : Duration
  deriving DecidableEq, Repr

namespace Backoff

/-- A sequence at its start. -/
def start (initial limit : Duration) : Backoff := ⟨initial, limit, initial⟩

/-- One second, doubled up to thirty. -/
def standard : Backoff := start (Duration.ofSecs 1) (Duration.ofSecs 30)

/-- The delay before the next attempt, and the sequence after it. -/
def take (b : Backoff) : Duration × Backoff :=
  (b.next, { b with next := min b.next.doubled b.limit })

/-- Back at the start. -/
def reset (b : Backoff) : Backoff := { b with next := b.initial }

end Backoff

end PeerCall
