import Mathlib.Algebra.Group.Nat.Defs
import Mathlib.Data.List.Induction
import PeerCall.Backoff

/-!
# Delays double up to their limit

A machine holds a length of time in two parts, whole seconds in 64 bits and the nanoseconds that are
over. Doubling carries from the nanoseconds into the seconds, and stays at the longest length where
the seconds have no room. So nothing ever wraps, and a delay is what exact arithmetic makes it: the
initial one, doubled for each delay taken since the last success, or the limit if that is less.
-/
namespace PeerCall

/-! ## Lengths of time in two parts -/

/-- A length of time as whole seconds and what is over. -/
structure Duration.Parts where
  secs : UInt64
  nanos : Fin 1000000000
  deriving DecidableEq

namespace Duration.Parts

variable {p q : Parts}

/-- The parts together, in nanoseconds. -/
def total (p : Parts) : Duration := p.secs.toNat * 1000000000 + p.nanos

/-- The greatest parts that there are. -/
def longest : Parts := ⟨0xffffffffffffffff, 999999999⟩

/-- Twice as long. Full seconds of the doubled nanoseconds are carried; seconds beyond 64 bits make
the longest length. -/
def doubled (p : Parts) : Parts :=
  let nanos := 2 * p.nanos.val
  let secs := 2 * p.secs.toNat + nanos / 1000000000
  if secs < 2 ^ 64 then ⟨.ofNat secs, ⟨nanos % 1000000000, Nat.mod_lt _ (by decide)⟩⟩ else longest

/-- The shorter of two lengths: seconds count before nanoseconds. -/
def shorter (p q : Parts) : Parts :=
  if q.secs < p.secs ∨ (q.secs = p.secs ∧ q.nanos < p.nanos) then q else p

/-- The parts are the whole seconds of a length of time and what is over. -/
theorem total_eq_iff (p : Parts) {d : Duration} :
    p.total = d ↔ d.secs = p.secs.toNat ∧ d.subsecNanos = p.nanos.val := by
  have hnanos := p.nanos.isLt
  simp only [total, Duration.secs, Duration.subsecNanos, Duration]
  omega

theorem total_le_longest (p : Parts) : p.total ≤ Duration.longest := by
  have hsecs := p.secs.toNat_lt
  have hnanos := p.nanos.isLt
  simp only [total, Duration.longest, Duration]
  omega

/-- Doubling in parts is doubling in nanoseconds. -/
theorem total_doubled (p : Parts) : p.doubled.total = Duration.doubled p.total := by
  have hnanos := p.nanos.isLt
  rw [doubled, Duration.doubled]
  split
  · rename_i hroom
    have hsecs : (UInt64.ofNat (2 * p.secs.toNat + 2 * p.nanos.val / 1000000000)).toNat =
        2 * p.secs.toNat + 2 * p.nanos.val / 1000000000 := UInt64.toNat_ofNat_of_lt' hroom
    simp only [total, hsecs, Duration.longest, Duration]
    omega
  · rename_i hfull
    have hlongest : longest.total = Duration.longest := rfl
    rw [hlongest, total]
    simp only [Duration.longest, Duration]
    omega

theorem total_shorter (p q : Parts) : (p.shorter q).total = min p.total q.total := by
  have hp := p.nanos.isLt
  have hq := q.nanos.isLt
  rw [shorter]
  simp only [UInt64.lt_iff_toNat_lt, ← UInt64.toNat_inj, Fin.lt_def]
  split
  · simp only [total, Duration]
    omega
  · simp only [total, Duration]
    omega

end Duration.Parts

open Duration (Parts)

/-! ## Any delays and successes -/

namespace Backoff

/-- What is done with a sequence of delays. -/
inductive Call
  /-- The next delay is taken. -/
  | take
  /-- A success: it starts again. -/
  | reset
  deriving DecidableEq

/-- The sequence after calls in turn. -/
def after (b : Backoff) (calls : List Call) : Backoff :=
  calls.foldl (fun
    | b, .take => b.take.2
    | b, .reset => b.reset) b

/-- How many delays were taken since the start or the last success. -/
def taken (calls : List Call) : Nat :=
  calls.foldl (fun
    | k, .take => k + 1
    | _, .reset => 0) 0

/-- The delay due after calls, held in parts. -/
def dueParts (initial limit : Parts) (calls : List Call) : Parts :=
  calls.foldl (fun
    | due, .take => due.doubled.shorter limit
    | _, .reset => initial) initial

variable {initial limit : Duration} {calls more : List Call}

theorem after_concat (b : Backoff) (calls : List Call) (c : Call) :
    b.after (calls ++ [c]) = match c with
      | .take => (b.after calls).take.2
      | .reset => (b.after calls).reset := by
  rw [after, List.foldl_append]
  cases c <;> rfl

theorem taken_concat (calls : List Call) (c : Call) :
    taken (calls ++ [c]) = match c with
      | .take => taken calls + 1
      | .reset => 0 := by
  rw [taken, List.foldl_append]
  cases c <;> rfl

theorem dueParts_concat (initial limit : Parts) (calls : List Call) (c : Call) :
    dueParts initial limit (calls ++ [c]) = match c with
      | .take => (dueParts initial limit calls).doubled.shorter limit
      | .reset => initial := by
  rw [dueParts, List.foldl_append]
  cases c <;> rfl

/-- Without a success more and more delays are taken. -/
theorem taken_le_append (calls : List Call) (hmore : Call.reset ∉ more) :
    taken calls ≤ taken (calls ++ more) := by
  induction more using List.reverseRecOn with
  | nil => simp only [List.append_nil, Nat.le_refl]
  | append_singleton more c ih =>
      rw [List.mem_append, not_or] at hmore
      rw [← List.append_assoc, taken_concat]
      cases c with
      | take => exact Nat.le_succ_of_le (ih hmore.1)
      | reset => exact absurd (List.mem_singleton_self _) hmore.2

theorem bounds_after (initial limit : Duration) (calls : List Call) :
    ((start initial limit).after calls).initial = initial ∧
      ((start initial limit).after calls).limit = limit := by
  induction calls using List.reverseRecOn with
  | nil => exact ⟨rfl, rfl⟩
  | append_singleton calls c ih =>
      rw [after_concat]
      cases c <;> exact ih

/-- No doubling of a delay is cut anywhere but at the limit. -/
theorem doubled_cut (hlimit : limit ≤ Duration.longest) (x : Duration) :
    min (Duration.doubled x) limit = min (2 * x) limit := by
  simp only [Duration.doubled, Duration] at hlimit ⊢
  omega

theorem next_after (hle : initial ≤ limit) (hlimit : limit ≤ Duration.longest)
    (calls : List Call) :
    ((start initial limit).after calls).next = min (initial * 2 ^ taken calls) limit := by
  have hstart : initial = min (initial * 2 ^ 0) limit := by
    rw [Nat.pow_zero, Nat.mul_one, Nat.min_eq_left hle]
  induction calls using List.reverseRecOn with
  | nil => exact hstart
  | append_singleton calls c ih =>
      obtain ⟨hinitial, hkept⟩ := bounds_after initial limit calls
      rw [after_concat, taken_concat]
      cases c with
      | take =>
          simp only [Backoff.take, ih, hkept]
          calc min (Duration.doubled (min (initial * 2 ^ taken calls) limit)) limit
              = min (2 * min (initial * 2 ^ taken calls) limit) limit :=
                doubled_cut hlimit _
            _ = min (2 * (initial * 2 ^ taken calls)) limit := by
                simp only [Duration]
                omega
            _ = min (initial * 2 ^ (taken calls + 1)) limit := by
                rw [Nat.pow_succ, Nat.mul_comm 2, Nat.mul_assoc]
      | reset =>
          simp only [Backoff.reset, hinitial]
          exact hstart

/-- Held in parts, the delays are the same. -/
theorem total_dueParts (initial limit : Parts) (calls : List Call) :
    (dueParts initial limit calls).total =
      ((start initial.total limit.total).after calls).next := by
  induction calls using List.reverseRecOn with
  | nil => rfl
  | append_singleton calls c ih =>
      obtain ⟨hinitial, hkept⟩ := bounds_after initial.total limit.total calls
      rw [dueParts_concat, after_concat]
      cases c with
      | take => simp only [Parts.total_shorter, Parts.total_doubled, ih, Backoff.take, hkept]
      | reset => simp only [Backoff.reset, hinitial]

/-- **A delay is a power of two times the initial one, or the limit if that is less**, in exact
arithmetic, whatever was taken and reset before and whatever lengths the two are. So between
successes no delay is shorter than one before it, none is longer than the limit, and each doubling
is exact; and that is what comes out when seconds and nanoseconds are held apart. -/
theorem delays_double_up_to_limit (initial limit : Parts) (hle : initial.total ≤ limit.total)
    (calls : List Call) :
    let b := (start initial.total limit.total).after calls
    b.take.1 = min (initial.total * 2 ^ taken calls) limit.total ∧
      b.take.1 = (dueParts initial limit calls).total ∧
      b.take.1 ≤ limit.total ∧
      (b.after [.take]).take.1 = min (2 * b.take.1) limit.total ∧
      ∀ more, Call.reset ∉ more → b.take.1 ≤ (b.after more).take.1 := by
  have hlimit := limit.total_le_longest
  have hnext := next_after hle hlimit
  have hlater : ∀ more, ((start initial.total limit.total).after calls).after more =
      (start initial.total limit.total).after (calls ++ more) := by
    intro more
    rw [after, after, after, List.foldl_append]
  refine ⟨hnext calls, (total_dueParts initial limit calls).symm, ?_, ?_, ?_⟩
  · rw [Backoff.take, hnext]
    exact Nat.min_le_right _ _
  · change min (Duration.doubled ((start initial.total limit.total).after calls).next)
      ((start initial.total limit.total).after calls).limit = _
    rw [(bounds_after initial.total limit.total calls).2]
    exact doubled_cut hlimit _
  · intro more hmore
    have hpow := Nat.pow_le_pow_right Nat.two_pos (taken_le_append calls hmore)
    have hpower := Nat.mul_le_mul_left initial.total hpow
    rw [hlater, Backoff.take, Backoff.take, hnext, hnext]
    exact Nat.le_min.mpr ⟨Nat.le_trans (Nat.min_le_left _ _) hpower, Nat.min_le_right _ _⟩

/-- Close to the longest length the nanoseconds carry first, and the next doubling has no room. -/
theorem delays_double_up_to_limit_longest :
    let initial : Parts := ⟨0x4000000000000000, 600000000⟩
    let b := (start initial.total Parts.longest.total).after [.take, .reset, .take, .take]
    initial.total ≤ Parts.longest.total ∧ Call.reset ∉ [Call.take] ∧
      b.take.1 = min (initial.total * 2 ^ 2) Parts.longest.total ∧
      b.take.1 = Parts.longest.total ∧ b.take.1.secs = 0xffffffffffffffff ∧
      b.take.1.subsecNanos = 999999999 ∧ b.take.1 ≤ (b.after [.take]).take.1 ∧
      dueParts initial .longest [.take] = ⟨0x8000000000000001, 200000000⟩ := by
  have hle : (⟨0x4000000000000000, 600000000⟩ : Parts).total ≤ Parts.longest.total := by decide
  obtain ⟨hpower, hparts, -, -, hrises⟩ := delays_double_up_to_limit
    ⟨0x4000000000000000, 600000000⟩ .longest hle [.take, .reset, .take, .take]
  have htop : dueParts ⟨0x4000000000000000, 600000000⟩ .longest [.take, .reset, .take, .take] =
      Parts.longest := by decide +kernel
  rw [htop] at hparts
  obtain ⟨hsecs, hnanos⟩ := Parts.longest.total_eq_iff.mp hparts.symm
  exact ⟨hle, by decide, hpower, hparts, hsecs, hnanos, hrises [.take] (by decide),
    by decide +kernel⟩

end Backoff

end PeerCall
