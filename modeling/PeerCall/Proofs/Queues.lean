import Mathlib.Data.List.Forall2

/-!
# Queues that are served in any order

What is on its way waits in a list, and whatever arrives is taken out at its place.
-/
namespace PeerCall

variable {α β : Type} {place : Nat}

/-- What is not taken out stays. -/
theorem mem_eraseIdx_of_ne {l : List α} {a b : α} (hb : l[place]? = some b) (ha : a ∈ l)
    (hne : a ≠ b) : a ∈ l.eraseIdx place := by
  obtain ⟨k, hk⟩ := List.getElem?_of_mem ha
  rw [List.mem_eraseIdx_iff_getElem?]
  refine ⟨k, ?_, hk⟩
  rintro rfl
  rw [hk, Option.some.injEq] at hb
  exact hne hb

/-- Two queues that match stay so if both are served at the same place. -/
theorem forall₂_eraseIdx {R : α → β → Prop} {l : List α} {l' : List β} (h : List.Forall₂ R l l')
    (place : Nat) : List.Forall₂ R (l.eraseIdx place) (l'.eraseIdx place) := by
  rw [List.eraseIdx_eq_take_drop_succ, List.eraseIdx_eq_take_drop_succ]
  exact List.rel_append (List.forall₂_take place h) (List.forall₂_drop (place + 1) h)

/-- What they hold at one place matches. -/
theorem forall₂_getElem? {R : α → β → Prop} {l : List α} {l' : List β} (h : List.Forall₂ R l l')
    (place : Nat) : (l[place]? = none ∧ l'[place]? = none) ∨
      ∃ a b, l[place]? = some a ∧ l'[place]? = some b ∧ R a b := by
  by_cases hlt : place < l.length
  · have hlt' : place < l'.length := h.length_eq ▸ hlt
    have hR := h.get hlt hlt'
    rw [List.get_eq_getElem, List.get_eq_getElem] at hR
    exact Or.inr ⟨_, _, List.getElem?_eq_getElem hlt, List.getElem?_eq_getElem hlt', hR⟩
  · have hle : l'.length ≤ place := h.length_eq ▸ Nat.le_of_not_lt hlt
    exact Or.inl ⟨List.getElem?_eq_none (Nat.le_of_not_lt hlt), List.getElem?_eq_none hle⟩

end PeerCall
