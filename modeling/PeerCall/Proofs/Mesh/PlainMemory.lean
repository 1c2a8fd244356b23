import PeerCall.Proofs.Mesh.Memory

/-!
# The memory as a plain list

A list of ids with the times of their arrival needs no queue and no set: whenever it reads the clock
it looks at all its entries, and it keeps the latest of them. While the clock never goes back, a
node's memory answers every call as this list does. Its entries are then sorted by their times, so
the stale ones are all at the front, which is the only place where the memory looks for them.
-/
namespace PeerCall.Mesh

/-! ## Memories and what they answer -/

/-- A call to a memory of ids. -/
inductive MemoryCall
  | insert (id : PacketId) (now : Instant)
  | contains (id : PacketId)
  | expire (now : Instant)

/-- The reading of the clock that comes with a call. -/
def MemoryCall.reading? : MemoryCall → Option Instant
  | .insert _ now | .expire now => some now
  | .contains _ => none

/-- What holds of all readings holds of the first call's, if it has one, and of all others. -/
theorem forall_readings_cons {c : MemoryCall} {calls : List MemoryCall} {P : Instant → Prop} :
    (∀ now ∈ (c :: calls).filterMap MemoryCall.reading?, P now) ↔
      (∀ now, c.reading? = some now → P now) ∧
        ∀ now ∈ calls.filterMap MemoryCall.reading?, P now := by
  rw [List.forall_mem_filterMap, List.forall_mem_cons, List.forall_mem_filterMap]

/-- The operations of a memory, whatever it is made of. -/
structure MemoryKind (σ : Type) where
  insert : PacketId → Instant → σ → Bool × σ
  contains : PacketId → σ → Bool
  expire : Instant → σ → σ
  size : σ → Nat
  isEmpty : σ → Bool

/-- What shows after a call. -/
structure MemoryAnswer where
  result : Option Bool
  size : Nat
  isEmpty : Bool
  deriving DecidableEq

namespace MemoryKind

variable {σ : Type}

/-- The result of a call, if it has one, and the memory after it. -/
def call (M : MemoryKind σ) (s : σ) : MemoryCall → Option Bool × σ
  | .insert id now => ((M.insert id now s).1, (M.insert id now s).2)
  | .contains id => (M.contains id s, s)
  | .expire now => (none, M.expire now s)

/-- The answers to calls in turn. -/
def answers (M : MemoryKind σ) : σ → List MemoryCall → List MemoryAnswer
  | _, [] => []
  | s, c :: calls =>
    let next := (M.call s c).2
    ⟨(M.call s c).1, M.size next, M.isEmpty next⟩ :: M.answers next calls

end MemoryKind

/-- The memory of a node. -/
def RecentIds.kind : MemoryKind RecentIds :=
  ⟨RecentIds.insert, RecentIds.contains, RecentIds.expire, RecentIds.size, RecentIds.isEmpty⟩

/-! ## The plain list -/

/-- Ids with the readings of the clock at their arrival, the latest last. -/
structure PlainMemory where
  capacity : Nat
  window : Duration
  entries : List (PacketId × Instant)

namespace PlainMemory

/-- Nothing remembered. -/
def empty (capacity : Nat) (window : Duration) : PlainMemory := ⟨capacity, window, []⟩

/-- Remove every entry whose age is the window or more. -/
def expire (now : Instant) (m : PlainMemory) : PlainMemory :=
  { m with entries := m.entries.filter fun e => now - e.2 < m.window }

def contains (id : PacketId) (m : PlainMemory) : Bool := m.entries.any (·.1 = id)

/-- So many of the latest entries. -/
def latest (count : Nat) (entries : List (PacketId × Instant)) : List (PacketId × Instant) :=
  entries.drop (entries.length - count)

/-- Remember an id unless it is there once all stale entries are gone; one place there always is. -/
def insert (id : PacketId) (now : Instant) (m : PlainMemory) : Bool × PlainMemory :=
  let m := m.expire now
  if m.contains id then (false, m)
  else (true, { m with entries := latest (max m.capacity 1) (m.entries ++ [(id, now)]) })

def size (m : PlainMemory) : Nat := m.entries.length

def isEmpty (m : PlainMemory) : Bool := m.entries.isEmpty

def kind : MemoryKind PlainMemory := ⟨insert, contains, expire, size, isEmpty⟩

variable {m : PlainMemory} {r : RecentIds} {id : PacketId} {now : Instant}

theorem contains_iff : m.contains id = true ↔ id ∈ m.entries.map Prod.fst := by
  simp [contains]

/-- A new last entry takes the place of the first ones that are too many. -/
theorem latest_concat {count : Nat} (hcount : 0 < count) (entries : List (PacketId × Instant))
    (e : PacketId × Instant) :
    latest count (entries ++ [e]) = entries.drop (entries.length + 1 - count) ++ [e] := by
  rw [latest, List.length_append, List.length_singleton, List.drop_append_of_le_length (by omega)]

/-! ## The memory follows the list -/

/-- A memory holds what a plain list holds, sorted by time. -/
structure Models (m : PlainMemory) (r : RecentIds) : Prop where
  sound : r.Sound
  capacity : r.capacity = max m.capacity 1
  window : r.window = m.window
  order : r.order = m.entries
  sorted : m.entries.Pairwise (·.2 ≤ ·.2)

theorem models_empty (capacity : Nat) (window : Duration) :
    Models (empty capacity window) (.empty capacity window) :=
  ⟨RecentIds.sound_empty capacity window, rfl, rfl, rfl, List.Pairwise.nil⟩

/-- In a list sorted by time the stale entries are those at the front. -/
theorem dropWhile_stale {window : Duration} {entries : List (PacketId × Instant)}
    (hsorted : entries.Pairwise (·.2 ≤ ·.2)) :
    entries.dropWhile (RecentIds.stale window now) =
      entries.filter fun e => now - e.2 < window := by
  induction entries with
  | nil => rfl
  | cons e entries ih =>
      obtain ⟨hfirst, hrest⟩ := List.pairwise_cons.mp hsorted
      by_cases hstale : window ≤ now - e.2
      · have hgone : ¬ now - e.2 < window := Nat.not_lt.mpr hstale
        simp [RecentIds.stale, hstale, hgone, ← ih hrest]
      · -- The others came later, so none of them is stale either.
        have hkept : ∀ e' ∈ e :: entries, now - e'.2 < window := by
          intro e' he'
          refine Nat.lt_of_le_of_lt (Nat.sub_le_sub_left ?_ now) (Nat.not_le.mp hstale)
          rcases List.mem_cons.mp he' with rfl | he'
          · exact Nat.le_refl _
          · exact hfirst e' he'
        rw [List.dropWhile_cons_of_neg (by simp [RecentIds.stale, hstale])]
        exact (List.filter_eq_self.mpr fun e' he' => decide_eq_true (hkept e' he')).symm

namespace Models

theorem order_expire (h : Models m r) : (r.expire now).order = (m.expire now).entries := by
  rw [RecentIds.order_expire, h.order, h.window, dropWhile_stale h.sorted, PlainMemory.expire]

theorem expire (h : Models m r) (now : Instant) : Models (m.expire now) (r.expire now) :=
  ⟨h.sound.expire, h.capacity, h.window, h.order_expire, h.sorted.filter _⟩

theorem ids_eq (h : Models m r) : r.ids = m.entries.map Prod.fst := by
  rw [h.sound.ids_eq, h.order]

theorem contains_eq (h : Models m r) (id : PacketId) : r.contains id = m.contains id := by
  rw [Bool.eq_iff_iff, contains_iff, ← h.ids_eq, RecentIds.contains, List.contains_iff_mem]

theorem size_eq (h : Models m r) : r.size = m.size := by
  rw [RecentIds.size, h.ids_eq, List.length_map, PlainMemory.size]

theorem isEmpty_eq (h : Models m r) : r.isEmpty = m.isEmpty := by
  rw [RecentIds.isEmpty, h.ids_eq, List.isEmpty_map, PlainMemory.isEmpty]

/-- An id is accepted by both or by none, and both still hold the same. -/
theorem insert (h : Models m r) (id : PacketId) (hnow : ∀ e ∈ m.entries, e.2 ≤ now) :
    (r.insert id now).1 = (m.insert id now).1 ∧
      Models (m.insert id now).2 (r.insert id now).2 := by
  have hexpired := h.expire now
  by_cases hmem : id ∈ (m.expire now).entries.map Prod.fst
  · have hrefused : m.insert id now = (false, m.expire now) := by
      simp only [PlainMemory.insert, contains_iff.mpr hmem, if_true]
    rw [hrefused, RecentIds.insert_of_mem h.sound (by rwa [h.order_expire])]
    exact ⟨rfl, hexpired⟩
  · have hkept : r.kept now ++ [(id, now)] =
        latest (max m.capacity 1) ((m.expire now).entries ++ [(id, now)]) := by
      rw [latest_concat (by omega), RecentIds.kept, h.order_expire, h.capacity]
    have haccepted : m.insert id now = (true, { m with
        entries := latest (max m.capacity 1) ((m.expire now).entries ++ [(id, now)]) }) := by
      simp only [PlainMemory.insert, contains_iff, hmem, if_false]
      rfl
    have hsound : (r.insert id now).2.Sound := h.sound.insert
    rw [RecentIds.insert_of_not_mem h.sound (by rwa [h.order_expire])] at hsound ⊢
    rw [haccepted]
    refine ⟨rfl, hsound, h.capacity, h.window, hkept, ?_⟩
    refine List.Pairwise.sublist (List.drop_sublist _ _) (List.pairwise_append.mpr
      ⟨hexpired.sorted, List.pairwise_singleton _ _, ?_⟩)
    intro e he e' he'
    rw [List.mem_singleton.mp he']
    exact hnow e (List.mem_of_mem_filter he)

end Models

/-- What is remembered after a call came before it or with it. -/
theorem mem_entries_call {c : MemoryCall} {e : PacketId × Instant}
    (he : e ∈ (kind.call m c).2.entries) : e ∈ m.entries ∨ c.reading? = some e.2 := by
  cases c with
  | insert id now =>
      change e ∈ (m.insert id now).2.entries at he
      rw [PlainMemory.insert] at he
      split at he
      · exact Or.inl (List.mem_of_mem_filter he)
      · rcases List.mem_append.mp (List.mem_of_mem_drop he) with he | he
        · exact Or.inl (List.mem_of_mem_filter he)
        · rw [List.mem_singleton.mp he]
          exact Or.inr rfl
  | contains id => exact Or.inl he
  | expire now => exact Or.inl (List.mem_of_mem_filter he)

/-- **One call has the same result for both**, and both still hold the same. -/
theorem Models.call (h : Models m r) (c : MemoryCall)
    (hnow : ∀ e ∈ m.entries, ∀ now, c.reading? = some now → e.2 ≤ now) :
    (RecentIds.kind.call r c).1 = (kind.call m c).1 ∧
      Models (kind.call m c).2 (RecentIds.kind.call r c).2 := by
  cases c with
  | insert id now =>
      obtain ⟨hresult, hmodels⟩ := h.insert id fun e he => hnow e he now rfl
      exact ⟨congrArg some hresult, hmodels⟩
  | contains id => exact ⟨congrArg some (h.contains_eq id), h⟩
  | expire now => exact ⟨rfl, h.expire now⟩

theorem Models.answers_eq (h : Models m r) {calls : List MemoryCall}
    (hclock : (calls.filterMap MemoryCall.reading?).Pairwise (· ≤ ·))
    (hnow : ∀ e ∈ m.entries, ∀ now ∈ calls.filterMap MemoryCall.reading?, e.2 ≤ now) :
    RecentIds.kind.answers r calls = kind.answers m calls := by
  induction calls generalizing m r with
  | nil => rfl
  | cons c calls ih =>
      have hrest : (calls.filterMap MemoryCall.reading?).Pairwise (· ≤ ·) :=
        hclock.sublist ((List.sublist_cons_self c calls).filterMap _)
      obtain ⟨hresult, hmodels⟩ :=
        h.call c fun e he => (forall_readings_cons.mp (hnow e he)).1
      rw [MemoryKind.answers, MemoryKind.answers, hresult]
      refine congrArg₂ List.cons ?_ (ih hmodels hrest ?_)
      · exact congrArg₂ (MemoryAnswer.mk _) hmodels.size_eq hmodels.isEmpty_eq
      · intro e he now hmem
        rcases mem_entries_call he with he | hreading
        · exact (forall_readings_cons.mp (hnow e he)).2 now hmem
        · rw [List.filterMap_cons, hreading] at hclock
          exact (List.pairwise_cons.mp hclock).1 now hmem

end PlainMemory

/-- **A node's memory answers as a plain list**, whatever its capacity and window and whatever it is
asked, while the clock never goes back. -/
theorem RecentIds.answers_as_plain_list (capacity : Nat) (window : Duration)
    (calls : List MemoryCall)
    (hclock : (calls.filterMap MemoryCall.reading?).Pairwise (· ≤ ·)) :
    kind.answers (.empty capacity window) calls =
      PlainMemory.kind.answers (.empty capacity window) calls :=
  (PlainMemory.models_empty capacity window).answers_eq hclock fun _ he => nomatch he

/-- Four ids for two places, one of them again, and the clock at the end of a window. -/
def crowdedCalls : List MemoryCall :=
  [.insert (.numbered 0) 0, .insert (.numbered 1) 4, .insert (.numbered 0) 9,
    .insert (.numbered 2) 10, .contains (.numbered 1), .insert (.numbered 3) 13,
    .contains (.numbered 1), .expire 23]

/-- The first id is refused within the window and gone at its end; the second one makes room. -/
theorem RecentIds.answers_as_plain_list_crowded :
    (crowdedCalls.filterMap MemoryCall.reading?).Pairwise (· ≤ ·) ∧
      kind.answers (.empty 2 10) crowdedCalls =
        [⟨some true, 1, false⟩, ⟨some true, 2, false⟩, ⟨some false, 2, false⟩,
          ⟨some true, 2, false⟩, ⟨some true, 2, false⟩, ⟨some true, 2, false⟩,
          ⟨some false, 2, false⟩, ⟨none, 0, true⟩] := by
  have hclock : (crowdedCalls.filterMap MemoryCall.reading?).Pairwise (· ≤ ·) := by decide
  refine ⟨hclock, ?_⟩
  rw [answers_as_plain_list 2 10 crowdedCalls hclock]
  decide +kernel

end PeerCall.Mesh
