/-!
# Lengths of time

Lengths of time are whole nanoseconds, up to the longest one that 64 bits of seconds and a
nanosecond part can hold. Points of time are counted in the same unit from a fixed start.
-/

namespace PeerCall

/-- A length of time in nanoseconds. -/
abbrev Duration := Nat

/-- A point of time, in nanoseconds from a fixed start. -/
abbrev Instant := Nat

namespace Duration

/-- The longest length of time. -/
def longest : Duration := 0xffffffffffffffff * 1000000000 + 999999999

def ofSecs (n : Nat) : Duration := n * 1000000000

def ofMillis (n : Nat) : Duration := n * 1000000

/-- Whole seconds. -/
def secs (d : Duration) : Nat := d / 1000000000

/-- What is over whole seconds. -/
def subsecNanos (d : Duration) : Nat := d % 1000000000

/-- Twice as long, but no longer than the longest. -/
def doubled (d : Duration) : Duration := min (2 * d) longest

/-- So many times as long, if that is a length of time. -/
def times? (n : Nat) (d : Duration) : Option Duration :=
  if n * d ≤ longest then some (n * d) else none

theorem times?_eq_some_iff {n : Nat} {d d' : Duration} :
    times? n d = some d' ↔ n * d ≤ longest ∧ n * d = d' := by
  simp [times?]

theorem times?_eq_none_iff {n : Nat} {d : Duration} :
    times? n d = none ↔ longest < n * d := by
  simp [times?]

end Duration

end PeerCall
