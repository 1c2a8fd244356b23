import Mathlib.Data.List.Nodup

/-!
# Tables as lists of entries

A table is kept as a list of keys with their values. As long as no key stands there twice, looking a
key up finds just what stands there, and putting an entry in place of the old one keeps it so.
-/
namespace PeerCall

variable {α β : Type} {l : List (α × β)} {a : α} {b : β}

/-- An entry with a new key is put behind the others. -/
theorem nodup_concat (h : (l.map Prod.fst).Nodup) (ha : a ∉ l.map Prod.fst) (b : β) :
    ((l ++ [(a, b)]).map Prod.fst).Nodup := by
  rw [List.map_append, List.nodup_append_comm]
  exact List.nodup_cons.mpr ⟨ha, h⟩

variable [DecidableEq α]

/-- An entry takes the place of the one with its key. -/
theorem nodup_replaced (h : (l.map Prod.fst).Nodup) (a : α) (b : β) :
    ((l.filter (·.1 ≠ a) ++ [(a, b)]).map Prod.fst).Nodup := by
  refine nodup_concat (h.sublist (List.filter_sublist.map _)) ?_ b
  intro hmem
  obtain ⟨x, hx, hxa⟩ := List.mem_map.mp hmem
  exact of_decide_eq_true (List.mem_filter.mp hx).2 hxa

theorem isSome_lookup_iff : (l.lookup a).isSome = true ↔ a ∈ l.map Prod.fst := by
  rw [List.lookup_isSome_iff, List.mem_map]
  simp only [beq_iff_eq, @eq_comm _ a]

theorem lookup_eq_some_iff_mem (h : (l.map Prod.fst).Nodup) :
    l.lookup a = some b ↔ (a, b) ∈ l := by
  constructor
  · intro hlookup
    obtain ⟨front, back, hl, -⟩ := List.lookup_eq_some_iff.mp hlookup
    rw [hl]
    exact List.mem_append_right _ List.mem_cons_self
  · intro hmem
    obtain ⟨front, back, hl⟩ := List.append_of_mem hmem
    refine List.lookup_eq_some_iff.mpr ⟨front, back, hl, ?_⟩
    intro x hx
    rw [hl, List.map_append, List.map_cons] at h
    have hdisjoint := (List.nodup_append.mp h).2.2 x.1 (List.mem_map_of_mem hx) a List.mem_cons_self
    simpa using Ne.symm hdisjoint

/-- Entries taken out by their keys do not show any more, and all others do. -/
theorem lookup_filter_key (p : α → Bool) (l : List (α × β)) (a : α) :
    (l.filter fun x => p x.1).lookup a = if p a then l.lookup a else none := by
  induction l with
  | nil => simp
  | cons x l ih =>
      obtain ⟨k, v⟩ := x
      by_cases hk : a = k
      · subst hk
        by_cases hp : p a = true
        · simp [hp]
        · simpa [hp] using ih
      · have hne : (a == k) = false := beq_false_of_ne hk
        by_cases hp : p k = true
        · simpa [hp, List.lookup_cons, hne] using ih
        · simpa [hp, List.lookup_cons, hne] using ih

end PeerCall
