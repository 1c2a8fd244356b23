import Mathlib.Data.List.DropRight
import Mathlib.Data.List.Forall2
import PeerCall.Text.Blank

/-!
# Splitting and joining

The pieces of a text hold no separator, and joined by the separator they are the text again; pieces
without a separator that are joined are split as they were. A joined text from which pieces are left
out, or parts of pieces, is what is left of the text.
-/
namespace PeerCall.Text

variable {sep : Char} {cs piece : List Char} {pieces : List (List Char)}

theorem split_ne_nil (sep : Char) (cs : List Char) : split sep cs ≠ [] := by
  cases cs with
  | nil => exact List.cons_ne_nil _ _
  | cons c rest =>
      rw [split]
      split
      · exact List.cons_ne_nil _ _
      · split <;> exact List.cons_ne_nil _ _

/-- Another character goes on with the first piece. -/
theorem split_cons {c : Char} (hc : c ≠ sep) (cs : List Char) :
    ∃ first pieces, split sep cs = first :: pieces ∧
      split sep (c :: cs) = (c :: first) :: pieces := by
  obtain ⟨first, pieces, heq⟩ := List.exists_cons_of_ne_nil (split_ne_nil sep cs)
  refine ⟨first, pieces, heq, ?_⟩
  rw [split, if_neg hc, heq]

theorem split_cons_sep (cs : List Char) : split sep (sep :: cs) = [] :: split sep cs := by
  rw [split, if_pos rfl]

theorem intercalate_split (sep : Char) (cs : List Char) :
    [sep].intercalate (split sep cs) = cs := by
  induction cs with
  | nil => rfl
  | cons c cs ih =>
      by_cases hc : c = sep
      · subst hc
        rw [split_cons_sep, List.intercalate_cons_of_ne_nil (split_ne_nil c cs), ih]
        rfl
      · obtain ⟨first, pieces, heq, heq'⟩ := split_cons hc cs
        rw [heq', List.intercalate_cons_cons_left, ← heq, ih]

theorem not_mem_of_mem_split (h : piece ∈ split sep cs) : sep ∉ piece := by
  induction cs generalizing piece with
  | nil =>
      rw [List.mem_singleton.mp h]
      exact List.not_mem_nil
  | cons c cs ih =>
      by_cases hc : c = sep
      · subst hc
        rw [split_cons_sep] at h
        rcases List.mem_cons.mp h with rfl | h
        · exact List.not_mem_nil
        · exact ih h
      · obtain ⟨first, pieces, heq, heq'⟩ := split_cons hc cs
        rw [heq] at ih
        rw [heq'] at h
        rcases List.mem_cons.mp h with rfl | h
        · intro hmem
          rcases List.mem_cons.mp hmem with hsep | hmem
          · exact hc hsep.symm
          · exact ih (List.mem_cons_self ..) hmem
        · exact ih (List.mem_cons_of_mem _ h)

theorem split_append (h : sep ∉ piece) (cs : List Char) :
    split sep (piece ++ sep :: cs) = piece :: split sep cs := by
  induction piece with
  | nil => exact split_cons_sep cs
  | cons c piece ih =>
      have hc : c ≠ sep := fun heq => h (heq ▸ List.mem_cons_self ..)
      obtain ⟨first, pieces, heq, heq'⟩ := split_cons hc (piece ++ sep :: cs)
      rw [ih fun hmem => h (List.mem_cons_of_mem _ hmem)] at heq
      cases heq
      exact heq'

theorem split_of_not_mem (h : sep ∉ cs) : split sep cs = [cs] := by
  induction cs with
  | nil => rfl
  | cons c cs ih =>
      have hc : c ≠ sep := fun heq => h (heq ▸ List.mem_cons_self ..)
      obtain ⟨first, pieces, heq, heq'⟩ := split_cons hc cs
      rw [ih fun hmem => h (List.mem_cons_of_mem _ hmem)] at heq
      cases heq
      exact heq'

/-- **What was joined is split as it was.** -/
theorem split_intercalate (hne : pieces ≠ []) (h : ∀ piece ∈ pieces, sep ∉ piece) :
    split sep ([sep].intercalate pieces) = pieces := by
  induction pieces with
  | nil => exact absurd rfl hne
  | cons piece pieces ih =>
      have hpiece : sep ∉ piece := h piece (List.mem_cons_self ..)
      by_cases hlast : pieces = []
      · rw [hlast, List.intercalate_singleton, split_of_not_mem hpiece]
      · rw [List.intercalate_cons_of_ne_nil hlast, List.append_assoc, List.singleton_append,
          split_append hpiece, ih hlast fun x hx => h x (List.mem_cons_of_mem _ hx)]

/-- Pieces left out, and parts of pieces, are left out of the text. -/
theorem intercalate_sublist (sep : List Char) {xs ys : List (List Char)}
    (h : List.SublistForall₂ List.Sublist xs ys) :
    (sep.intercalate xs).Sublist (sep.intercalate ys) := by
  induction h with
  | nil => exact List.nil_sublist _
  | @cons a b xs ys hab hrest ih =>
      have hfirst : b.Sublist (sep.intercalate (b :: ys)) := by
        by_cases hys : ys = []
        · rw [hys, List.intercalate_singleton]
        · rw [List.intercalate_cons_of_ne_nil hys, List.append_assoc]
          exact List.sublist_append_left _ _
      by_cases hxs : xs = []
      · rw [hxs, List.intercalate_singleton]
        exact hab.trans hfirst
      · have hys : ys ≠ [] := by
          rintro rfl
          cases hrest
          exact hxs rfl
        rw [List.intercalate_cons_of_ne_nil hxs, List.intercalate_cons_of_ne_nil hys]
        exact (hab.append (List.Sublist.refl sep)).append ih
  | @cons_right b xs ys hrest ih =>
      by_cases hys : ys = []
      · subst hys
        cases hrest
        exact List.nil_sublist _
      · rw [List.intercalate_cons_of_ne_nil hys]
        exact ih.trans (List.sublist_append_right _ _)

theorem sublistForall₂_of_sublist {xs ys : List (List Char)} (h : xs.Sublist ys) :
    List.SublistForall₂ List.Sublist xs ys :=
  have : Std.Refl (List.Sublist (α := Char)) := ⟨List.Sublist.refl⟩
  h.sublistForall₂

/-! ## Blanks at the end -/

theorem trimEnd_isPrefixOf (cs : List Char) : trimEnd cs <+: cs := by
  rw [trimEnd, ← List.reverse_suffix, List.reverse_reverse]
  exact List.dropWhile_suffix isBlank

/-- Trimmed once is trimmed. -/
theorem trimEnd_trimEnd (cs : List Char) : trimEnd (trimEnd cs) = trimEnd cs := by
  rw [trimEnd, trimEnd, List.reverse_reverse, List.dropWhile_idempotent]

/-- A text that ends in no blank is trimmed already. -/
theorem trimEnd_concat {c : Char} (h : isBlank c = false) (cs : List Char) :
    trimEnd (cs ++ [c]) = cs ++ [c] := by
  rw [trimEnd, List.reverse_append, List.reverse_singleton, List.singleton_append,
    List.dropWhile_cons_of_neg (by rw [h]; exact Bool.false_ne_true), List.reverse_cons,
    List.reverse_reverse]

theorem trimEnd_concat_blank {c : Char} (h : isBlank c = true) (cs : List Char) :
    trimEnd (cs ++ [c]) = trimEnd cs := by
  rw [trimEnd, List.reverse_append, List.reverse_singleton, List.singleton_append,
    List.dropWhile_cons_of_pos h, trimEnd]

/-- What is trimmed ends in no blank. -/
theorem isBlank_of_trimEnd_concat {c : Char} {cs : List Char}
    (h : trimEnd (cs ++ [c]) = cs ++ [c]) :
    isBlank c = false := by
  by_contra hblank
  rw [trimEnd_concat_blank (by simpa using hblank)] at h
  have hlength := (trimEnd_isPrefixOf cs).length_le
  rw [h, List.length_append, List.length_singleton] at hlength
  omega

/-- A text without blanks is trimmed already. -/
theorem trim_of_forall {cs : List Char} (h : ∀ c ∈ cs, isBlank c = false) : trim cs = cs := by
  have hstart : trimStart cs = cs := by
    rw [trimStart, List.dropWhile_eq_self_iff]
    intro hpos
    rw [h _ (List.getElem_mem hpos)]
    exact Bool.false_ne_true
  rw [trim, hstart]
  rcases List.eq_nil_or_concat cs with rfl | ⟨front, c, rfl⟩
  · rfl
  · rw [List.concat_eq_append] at h ⊢
    exact trimEnd_concat (h c (List.mem_append_right _ (List.mem_singleton_self c))) front

end PeerCall.Text
