import Mathlib.Data.Finset.Card
import PeerCall.Mesh.RecentIds
import PeerCall.Proofs.Entries

/-!
# What a node remembers

The set and the queue hold the same ids, each once, and never more of them than there is room for.
An id leaves only at the front of the queue: by age, when a reading of the clock is late enough, or
because later ids need its place. Until one of the two happens it stays, whatever else the clock
shows, so it is refused whenever it comes again.
-/
namespace PeerCall.Mesh.RecentIds

variable {r : RecentIds} {id : PacketId} {now : Instant} {entry : PacketId × Instant}
  {later : List PacketId}

/-- The set is the queue without its times; each id stands in it once, and there is room. -/
structure Sound (r : RecentIds) : Prop where
  ids_eq : r.ids = r.order.map Prod.fst
  nodup : (r.order.map Prod.fst).Nodup
  length_le : r.order.length ≤ r.capacity
  pos : 0 < r.capacity

theorem sound_empty (capacity : Nat) (window : Duration) : Sound (empty capacity window) :=
  ⟨rfl, List.nodup_nil, Nat.zero_le _, Nat.le_max_right capacity 1⟩

/-! ## Forgetting by age -/

@[simp] theorem order_expire (r : RecentIds) (now : Instant) :
    (r.expire now).order = r.order.dropWhile (stale r.window now) := rfl

@[simp] theorem capacity_expire (r : RecentIds) (now : Instant) :
    (r.expire now).capacity = r.capacity := rfl

@[simp] theorem window_expire (r : RecentIds) (now : Instant) :
    (r.expire now).window = r.window := rfl

/-- Ids taken out in the order of the queue are taken off its front. -/
theorem foldl_erase_front (front back : List (PacketId × Instant)) :
    front.foldl (fun ids e => ids.erase e.1) ((front ++ back).map Prod.fst) =
      back.map Prod.fst := by
  induction front with
  | nil => rfl
  | cons e front ih => simpa using ih

theorem ids_expire (h : r.ids = r.order.map Prod.fst) :
    (r.expire now).ids = (r.expire now).order.map Prod.fst := by
  have hsplit := List.takeWhile_append_dropWhile (p := stale r.window now) (l := r.order)
  have hfold := foldl_erase_front (r.order.takeWhile (stale r.window now))
    (r.order.dropWhile (stale r.window now))
  rw [hsplit, ← h] at hfold
  exact hfold

theorem Sound.expire (h : Sound r) : Sound (r.expire now) := by
  have hsub : ((r.expire now).order).Sublist r.order := List.dropWhile_sublist _
  refine ⟨ids_expire h.ids_eq, h.nodup.sublist (hsub.map _), ?_, h.pos⟩
  exact Nat.le_trans hsub.length_le h.length_le

/-- An entry that is not stale keeps its place, with all that stands behind it. -/
theorem dropWhile_append_cons {α : Type} {p : α → Bool} {a : α} (ha : p a = false)
    (front back : List α) :
    (front ++ a :: back).dropWhile p = front.dropWhile p ++ a :: back := by
  induction front with
  | nil => simp [ha]
  | cons b front ih =>
      by_cases hb : p b = true
      · simp [hb, ih]
      · simp [hb]

/-! ## Forgetting for room -/

/-- Room is made by forgetting as many of the oldest ids as there are too many. -/
theorem evict_map (capacity : Nat) (order : List (PacketId × Instant)) :
    evict capacity order (order.map Prod.fst) =
      ((order.drop (order.length + 1 - capacity)).map Prod.fst,
        order.drop (order.length + 1 - capacity)) := by
  induction order with
  | nil => simp [evict]
  | cons e order ih =>
      by_cases hroom : order.length + 1 < capacity
      · have hnone : order.length + 1 + 1 - capacity = 0 := by omega
        simp [evict, hroom, hnone]
      · have hone : order.length + 1 + 1 - capacity = (order.length + 1 - capacity) + 1 := by omega
        simp only [evict, List.length_map, List.length_cons, hroom, if_false, List.map_cons,
          List.erase_cons_head, hone, List.drop_succ_cons]
        exact ih

/-- What is left once stale entries are gone and there is room for one more. -/
def kept (r : RecentIds) (now : Instant) : List (PacketId × Instant) :=
  (r.expire now).order.drop ((r.expire now).order.length + 1 - r.capacity)

/-- Remembering an id: one that is there is refused, another one takes the last place. -/
theorem insert_eq (h : Sound r) (id : PacketId) (now : Instant) :
    r.insert id now =
      if id ∈ (r.expire now).order.map Prod.fst then (false, r.expire now)
      else (true, { r with
        ids := (r.kept now).map Prod.fst ++ [id], order := r.kept now ++ [(id, now)] }) := by
  have hids : (r.expire now).ids = (r.expire now).order.map Prod.fst := ids_expire h.ids_eq
  by_cases hmem : id ∈ (r.expire now).order.map Prod.fst
  · rw [if_pos hmem]
    simp only [insert, contains, hids, List.contains_iff_mem, hmem, if_true]
  · rw [if_neg hmem]
    simp only [insert, contains, hids, List.contains_iff_mem, hmem, if_false, evict_map]
    rfl

theorem insert_of_mem (h : Sound r) (hmem : id ∈ (r.expire now).order.map Prod.fst) :
    r.insert id now = (false, r.expire now) := by
  rw [insert_eq h, if_pos hmem]

theorem not_mem_of_insert (h : Sound r) (hnew : (r.insert id now).1 = true) :
    id ∉ (r.expire now).order.map Prod.fst := by
  intro hmem
  simp [insert_of_mem h hmem] at hnew

theorem insert_of_not_mem (h : Sound r) (hmem : id ∉ (r.expire now).order.map Prod.fst) :
    r.insert id now = (true, { r with
      ids := (r.kept now).map Prod.fst ++ [id], order := r.kept now ++ [(id, now)] }) := by
  rw [insert_eq h, if_neg hmem]

/-- A refused id changes nothing but what age takes away. -/
theorem insert_refused (h : Sound r) (hold : (r.insert id now).1 = false) :
    (r.insert id now).2 = r.expire now := by
  by_cases hmem : id ∈ (r.expire now).order.map Prod.fst
  · rw [insert_of_mem h hmem]
  · simp [insert_of_not_mem h hmem] at hold

theorem Sound.insert (h : Sound r) : Sound (r.insert id now).2 := by
  by_cases hmem : id ∈ (r.expire now).order.map Prod.fst
  · rw [insert_of_mem h hmem]
    exact h.expire
  · rw [insert_of_not_mem h hmem]
    have hsub : (r.kept now).Sublist (r.expire now).order := List.drop_sublist _ _
    have hpos := h.pos
    refine ⟨by simp, ?_, ?_, hpos⟩
    · refine nodup_concat (h.expire.nodup.sublist (hsub.map _)) ?_ now
      exact fun hkept => hmem ((hsub.map _).subset hkept)
    · simp only [List.length_append, List.length_singleton, kept, List.length_drop]
      omega

theorem mem_of_mem_expire {a : PacketId} (ha : a ∈ (r.expire now).order.map Prod.fst) :
    a ∈ r.order.map Prod.fst :=
  ((List.dropWhile_sublist _).map Prod.fst).subset ha

/-- What is remembered afterwards was remembered before, or is the new id. -/
theorem mem_of_mem_insert (h : Sound r) {a : PacketId}
    (ha : a ∈ (r.insert id now).2.order.map Prod.fst) :
    a ∈ r.order.map Prod.fst ∨ (a = id ∧ (r.insert id now).1 = true) := by
  by_cases hmem : id ∈ (r.expire now).order.map Prod.fst
  · rw [insert_of_mem h hmem] at ha
    exact Or.inl (mem_of_mem_expire ha)
  · rw [insert_of_not_mem h hmem] at ha ⊢
    rw [List.map_append, List.mem_append] at ha
    rcases ha with ha | ha
    · have hsub : (r.kept now).Sublist (r.expire now).order := List.drop_sublist _ _
      exact Or.inl (mem_of_mem_expire ((hsub.map Prod.fst).subset ha))
    · exact Or.inr ⟨List.mem_singleton.mp ha, rfl⟩

@[simp] theorem capacity_insert (h : Sound r) : (r.insert id now).2.capacity = r.capacity := by
  rw [insert_eq h]
  split <;> rfl

@[simp] theorem window_insert (h : Sound r) : (r.insert id now).2.window = r.window := by
  rw [insert_eq h]
  split <;> rfl

/-! ## Staying -/

/-- An entry is remembered, and `later` are the ids remembered behind it. -/
def Holds (r : RecentIds) (entry : PacketId × Instant) (later : List PacketId) : Prop :=
  ∃ front back, r.order = front ++ entry :: back ∧ back.map Prod.fst = later

theorem Holds.mem (h : Holds r entry later) : entry.1 ∈ r.order.map Prod.fst := by
  obtain ⟨front, back, horder, -⟩ := h
  rw [horder]
  simp

theorem Holds.subset (h : Holds r entry later) : later ⊆ r.order.map Prod.fst := by
  obtain ⟨front, back, horder, rfl⟩ := h
  rw [horder, List.map_append, List.map_cons]
  exact fun _ hx => List.mem_append_right _ (List.mem_cons_of_mem _ hx)

/-- The ids behind an entry differ from it and from each other. -/
theorem Holds.nodup (h : Holds r entry later) (hs : Sound r) : (entry.1 :: later).Nodup := by
  obtain ⟨front, back, horder, rfl⟩ := h
  have hnodup := hs.nodup
  rw [horder, List.map_append, List.nodup_append] at hnodup
  simpa using hnodup.2.1

/-- The ids behind an entry and a new one are no more than the other ids among any that hold them. -/
theorem Holds.length_lt (h : Holds r entry later) (hs : Sound r) {new : PacketId}
    (hnew : new ∉ r.order.map Prod.fst) {all : List PacketId} (hall : later ++ [new] ⊆ all) :
    later.length < (all.toFinset.erase entry.1).card := by
  obtain ⟨hself, hdistinct⟩ := List.nodup_cons.mp (h.nodup hs)
  have hnodup : (later ++ [new]).Nodup := by
    rw [List.nodup_append_comm]
    exact List.nodup_cons.mpr ⟨fun hmem => hnew (h.subset hmem), hdistinct⟩
  have hother : ∀ a ∈ later ++ [new], a ≠ entry.1 := by
    rintro a ha rfl
    rcases List.mem_append.mp ha with ha | ha
    · exact hself ha
    · exact hnew (List.mem_singleton.mp ha ▸ h.mem)
  have hsub : (later ++ [new]).toFinset ⊆ all.toFinset.erase entry.1 := by
    intro a ha
    rw [List.mem_toFinset] at ha
    rw [Finset.mem_erase, List.mem_toFinset]
    exact ⟨hother a ha, hall ha⟩
  have hcard := Finset.card_le_card hsub
  rw [List.toFinset_card_of_nodup hnodup, List.length_append, List.length_singleton] at hcard
  exact hcard

theorem Holds.expire (h : Holds r entry later) (hfresh : stale r.window now entry = false) :
    Holds (r.expire now) entry later := by
  obtain ⟨front, back, horder, hlater⟩ := h
  refine ⟨front.dropWhile (stale r.window now), back, ?_, hlater⟩
  rw [order_expire, horder, dropWhile_append_cons hfresh]

/-- What is remembered and not stale is refused. -/
theorem Holds.insert_self (h : Holds r entry later) (hs : Sound r)
    (hfresh : stale r.window now entry = false) : (r.insert entry.1 now).1 = false := by
  rw [insert_of_mem hs (h.expire hfresh).mem]

theorem Holds.insert_refused (h : Holds r entry later) (hs : Sound r)
    (hfresh : stale r.window now entry = false) (hold : (r.insert id now).1 = false) :
    Holds (r.insert id now).2 entry later := by
  rw [RecentIds.insert_refused hs hold]
  exact h.expire hfresh

/-- An entry stays while the ids behind it and the new one leave a place for it. -/
theorem Holds.insert_accepted (h : Holds r entry later) (hs : Sound r)
    (hfresh : stale r.window now entry = false) (hnew : (r.insert id now).1 = true)
    (hroom : later.length + 1 < r.capacity) :
    Holds (r.insert id now).2 entry (later ++ [id]) := by
  obtain ⟨front, back, horder, hlater⟩ := h.expire hfresh
  rw [insert_of_not_mem hs (not_mem_of_insert hs hnew)]
  have hlength : back.length = later.length := by rw [← hlater, List.length_map]
  have hdrop : (r.expire now).order.length + 1 - r.capacity ≤ front.length := by
    rw [horder, List.length_append, List.length_cons]
    omega
  refine ⟨front.drop ((r.expire now).order.length + 1 - r.capacity), back ++ [(id, now)], ?_,
    by simp [hlater]⟩
  change r.kept now ++ [(id, now)] = _
  have hkept : r.kept now =
      front.drop ((r.expire now).order.length + 1 - r.capacity) ++ entry :: back := by
    unfold kept
    rw [horder, List.drop_append_of_le_length (by rw [← horder]; exact hdrop)]
  rw [hkept]
  simp

theorem holds_new (hs : Sound r) (hnew : (r.insert id now).1 = true) :
    Holds (r.insert id now).2 (id, now) [] := by
  rw [insert_of_not_mem hs (not_mem_of_insert hs hnew)]
  exact ⟨r.kept now, [], rfl, rfl⟩

/-- With a window of any length, an entry is stale only once the window has passed. -/
theorem stale_eq_false {window : Duration} (hwindow : window ≠ 0)
    (hnow : now < entry.2 + window) : stale window now entry = false := by
  have hage : ∀ t w n : Nat, w ≠ 0 → n < t + w → ¬ w ≤ n - t := by omega
  exact decide_eq_false (hage entry.2 window now hwindow hnow)

end PeerCall.Mesh.RecentIds
