import Mathlib.Data.List.TakeWhile
import PeerCall.Proofs.Mesh.PlainMemory

/-!
# Nothing is forgotten early

The clock of a memory may go back, so its queue need not be sorted by age and an entry may stand
behind one that is younger. Still an id is forgotten only at the front: by age, which takes a late
reading for itself as for all before it, or for room, which takes as many ids behind it as there are
places. Without a late reading and with fewer ids since, it stays. Only a window of no length
forgets at every reading, also at one before the id came.
-/
namespace PeerCall.Mesh.RecentIds

/-! ## Any calls -/

/-- The memory after calls in turn. -/
def after (r : RecentIds) (calls : List MemoryCall) : RecentIds :=
  calls.foldl (fun r c => (kind.call r c).2) r

/-- The id that a call remembers anew. -/
def accepted? (r : RecentIds) : MemoryCall → Option PacketId
  | .insert id now => if (r.insert id now).1 then some id else none
  | .contains _ | .expire _ => none

/-- The ids that calls remember anew, in turn. -/
def accepted (r : RecentIds) : List MemoryCall → List PacketId
  | [] => []
  | c :: calls => (r.accepted? c).toList ++ accepted (kind.call r c).2 calls

variable {r : RecentIds} {c : MemoryCall} {calls : List MemoryCall}
  {entry : PacketId × Instant} {later : List PacketId}

theorem Sound.call (h : Sound r) (c : MemoryCall) : Sound (kind.call r c).2 := by
  cases c with
  | insert id now => exact h.insert
  | contains id => exact h
  | expire now => exact h.expire

/-- A call changes neither the window nor the number of places. -/
theorem limits_call (h : Sound r) (c : MemoryCall) :
    (kind.call r c).2.window = r.window ∧ (kind.call r c).2.capacity = r.capacity := by
  cases c with
  | insert id now => exact ⟨window_insert h, capacity_insert h⟩
  | contains id | expire now => exact ⟨rfl, rfl⟩

theorem Sound.after (h : Sound r) (calls : List MemoryCall) :
    Sound (r.after calls) ∧ (r.after calls).window = r.window ∧
      (r.after calls).capacity = r.capacity := by
  induction calls generalizing r with
  | nil => exact ⟨h, rfl, rfl⟩
  | cons c calls ih =>
      obtain ⟨hsound, hwindow, hcapacity⟩ := ih (h.call c)
      obtain ⟨hwindow', hcapacity'⟩ := limits_call h c
      exact ⟨hsound, hwindow.trans hwindow', hcapacity.trans hcapacity'⟩

/-! ## Staying through calls -/

/-- A call that comes before the window's end keeps an entry, and puts the id that it remembers
behind all others, if there is room for it. -/
theorem Holds.call (h : Holds r entry later) (hs : Sound r) (hwindow : r.window ≠ 0)
    (hreading : ∀ now, c.reading? = some now → now < entry.2 + r.window)
    {all : List PacketId} (hall : later ++ (r.accepted? c).toList ⊆ all)
    (hfew : (all.toFinset.erase entry.1).card < r.capacity) :
    Holds (kind.call r c).2 entry (later ++ (r.accepted? c).toList) := by
  cases c with
  | insert id now =>
      have hfresh : stale r.window now entry = false := stale_eq_false hwindow (hreading now rfl)
      change Holds (r.insert id now).2 entry _
      cases hnew : (r.insert id now).1 with
      | false =>
          have hrefused : r.accepted? (.insert id now) = none := by rw [accepted?, hnew]; rfl
          rw [hrefused, Option.toList_none, List.append_nil]
          exact h.insert_refused hs hfresh hnew
      | true =>
          have haccepted : r.accepted? (.insert id now) = some id := by rw [accepted?, hnew]; rfl
          rw [haccepted, Option.toList_some] at hall ⊢
          have hlength := (h.expire hfresh).length_lt hs.expire (not_mem_of_insert hs hnew) hall
          exact h.insert_accepted hs hfresh hnew (Nat.lt_of_le_of_lt hlength hfew)
  | contains id =>
      change Holds r entry (later ++ [])
      rw [List.append_nil]
      exact h
  | expire now =>
      change Holds (r.expire now) entry (later ++ [])
      rw [List.append_nil]
      exact h.expire (stale_eq_false hwindow (hreading now rfl))

/-- Through calls that all come before the window's end an entry stays, with all ids accepted since
behind it, as long as these are fewer than the places. -/
theorem Holds.after (h : Holds r entry later) (hs : Sound r) (hwindow : r.window ≠ 0)
    (hreadings : ∀ now ∈ calls.filterMap MemoryCall.reading?, now < entry.2 + r.window)
    (hfew : ((later ++ r.accepted calls).toFinset.erase entry.1).card < r.capacity) :
    Holds (r.after calls) entry (later ++ r.accepted calls) := by
  induction calls generalizing r later with
  | nil =>
      rw [accepted, List.append_nil]
      exact h
  | cons c calls ih =>
      have hsplit : later ++ r.accepted (c :: calls) =
          (later ++ (r.accepted? c).toList) ++ accepted (kind.call r c).2 calls := by
        rw [accepted, List.append_assoc]
      obtain ⟨hfirst, hrest⟩ := forall_readings_cons.mp hreadings
      obtain ⟨hkept, hplaces⟩ := limits_call hs c
      rw [hsplit] at hfew ⊢
      have hstep := h.call hs hwindow hfirst (List.subset_append_left _ _) hfew
      refine ih hstep (hs.call c) (hkept ▸ hwindow) (hkept ▸ hrest) ?_
      rw [hplaces]
      exact hfew

/-- So an id that is accepted stays remembered. -/
theorem contains_after (hs : Sound r) (hwindow : r.window ≠ 0) {id : PacketId} {t : Instant}
    (hnew : (r.insert id t).1 = true)
    (hreadings : ∀ now ∈ calls.filterMap MemoryCall.reading?, now < t + r.window)
    (hfew : (((r.insert id t).2.accepted calls).toFinset.erase id).card < r.capacity) :
    ((r.insert id t).2.after calls).contains id = true := by
  have hkept : (r.insert id t).2.window = r.window := window_insert hs
  have hplaces : (r.insert id t).2.capacity = r.capacity := capacity_insert hs
  have hholds : Holds ((r.insert id t).2.after calls) (id, t)
      ([] ++ (r.insert id t).2.accepted calls) :=
    (holds_new hs hnew).after hs.insert (by rw [hkept]; exact hwindow)
      (by rw [hkept]; exact hreadings) (by rw [hplaces]; exact hfew)
  rw [contains, List.contains_iff_mem, (hs.insert.after calls).1.ids_eq]
  exact hholds.mem

/-- Without a window a call that reads the clock leaves no id but the one that it remembers. -/
theorem ids_call_windowless (hs : Sound r) (hwindow : r.window = 0) {now : Instant}
    (hnow : c.reading? = some now) : (kind.call r c).2.ids = (r.accepted? c).toList := by
  have hall : ∀ now, (r.expire now).order = [] := by
    intro now
    rw [order_expire, hwindow, List.dropWhile_eq_nil_iff]
    exact fun e _ => decide_eq_true (Nat.zero_le _)
  cases c with
  | insert id now =>
      have hnew : id ∉ (r.expire now).order.map Prod.fst := by
        rw [hall]
        exact List.not_mem_nil
      have hinsert := insert_of_not_mem hs hnew
      have hkept : r.kept now = [] := by rw [kept, hall, List.drop_nil]
      change (r.insert id now).2.ids = _
      rw [accepted?, hinsert, hkept]
      rfl
  | contains id => cases hnow
  | expire now =>
      change (r.expire now).ids = []
      rw [ids_expire hs.ids_eq, hall]
      rfl

/-- **No id is forgotten early**, whatever the clock does. The set and the queue always hold the
same ids, each once and no more of them than there are places. With a window of any length an id is
remembered until a reading comes that is the window later, or as many other ids are accepted as
there are places; without one it is remembered until the next reading, whatever that is. -/
theorem never_forgets_early (capacity : Nat) (window : Duration) (calls : List MemoryCall) :
    let r := (empty capacity window).after calls
    (r.ids = r.order.map Prod.fst ∧ r.ids.Nodup ∧ r.size ≤ max capacity 1) ∧
    (window ≠ 0 → ∀ (id : PacketId) (t : Instant) (later : List MemoryCall),
      (r.insert id t).1 = true →
      (∀ now ∈ later.filterMap MemoryCall.reading?, now < t + window) →
      (((r.insert id t).2.accepted later).toFinset.erase id).card < max capacity 1 →
      ((empty capacity window).after (calls ++ .insert id t :: later)).contains id = true) ∧
    (window = 0 → ∀ (c : MemoryCall) (now : Instant), c.reading? = some now →
      (kind.call r c).2.ids = (r.accepted? c).toList) := by
  obtain ⟨hs, hwindow, hcapacity⟩ := (sound_empty capacity window).after calls
  refine ⟨⟨hs.ids_eq, hs.ids_eq ▸ hs.nodup, ?_⟩, ?_, ?_⟩
  · rw [size, hs.ids_eq, List.length_map]
    exact Nat.le_trans hs.length_le (Nat.le_of_eq hcapacity)
  · intro hlong id t later hnew hreadings hfew
    have hafter : (empty capacity window).after (calls ++ .insert id t :: later) =
        (((empty capacity window).after calls).insert id t).2.after later := by
      rw [after, List.foldl_append]
      rfl
    rw [hafter]
    exact contains_after hs (by rw [hwindow]; exact hlong) hnew (by rw [hwindow]; exact hreadings)
      (by rw [hcapacity]; exact hfew)
  · intro hzero c now hnow
    exact ids_call_windowless hs (hwindow.trans hzero) hnow

/-- Two ids for two places, the second from a clock that went back. -/
def backwardCalls : List MemoryCall :=
  [.insert (.numbered 1) 5, .expire 0, .insert (.numbered 0) 19, .contains (.numbered 1)]

/-- An id of time 10 is there until the end of its window, whatever the clock shows meanwhile;
without a window only the id that came with the last reading is there. -/
theorem never_forgets_early_backwards :
    ((empty 2 10).insert (.numbered 0) 10).1 = true ∧
      ((empty 2 10).after (.insert (.numbered 0) 10 :: backwardCalls)).contains (.numbered 0) =
        true ∧
      (kind.call (empty 2 0) (.insert (.numbered 0) 10)).2.ids = [.numbered 0] := by
  have hnew : (((empty 2 10).after []).insert (.numbered 0) 10).1 = true := by decide
  have hlong := (never_forgets_early 2 10 []).2.1 (by decide) (.numbered 0) 10 backwardCalls hnew
    (by decide) (by decide +kernel)
  have hshort := (never_forgets_early 2 0 []).2.2 rfl (.insert (.numbered 0) 10) 10 rfl
  exact ⟨hnew, hlong, hshort⟩

/-- Without a window an id is forgotten at a reading before it came, though no later one came and no
other id was accepted. -/
theorem windowless_forgets_early :
    ((empty 3 0).insert (.numbered 0) 10).1 = true ∧
      (∀ now ∈ [MemoryCall.expire 5].filterMap MemoryCall.reading?, now < 10 + 0) ∧
      (accepted ((empty 3 0).insert (.numbered 0) 10).2 [.expire 5]).length < max 3 1 ∧
      ((empty 3 0).after [.insert (.numbered 0) 10, .expire 5]).contains (.numbered 0) = false := by
  decide

end PeerCall.Mesh.RecentIds
