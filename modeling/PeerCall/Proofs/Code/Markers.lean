import PeerCall.Code.Marker
import PeerCall.Proofs.Text.Utf8

/-!
# Markers are taken back

Each token has a letter of its own, which is no tilde, and a tilde never stands alone in a text with
markers. So what follows a tilde there tells what it stands for, whatever the text was before: texts
that look like markers, tokens that overlap and tokens that are cut off come back as they were.
-/
namespace PeerCall.Code

open Text

variable {cs rest text : List Char} {letter : Char} {skip : Nat}

/-! ## Tokens -/

/-- A letter stands for one token only, and no token is as short as its marker. -/
theorem lookup_of_mem_tokens : ∀ t ∈ tokens,
    tokens.lookup t.1 = some t.2 ∧ t.1 ≠ '~' ∧ Utf8.size ['~', t.1] ≤ Utf8.size t.2 ∧ t.2 ≠ [] := by
  decide

theorem foldl_longer_mem {ts : List (Char × List Char)} {best : Option (Char × List Char)}
    {t : Char × List Char} (h : ts.foldl longer best = some t) : best = some t ∨ t ∈ ts := by
  induction ts generalizing best with
  | nil => exact .inl h
  | cons x ts ih =>
      rcases ih h with hbest | hmem
      · have hchoice : longer best x = some x ∨ longer best x = best := by
          cases best with
          | none => exact .inl rfl
          | some b =>
              rw [longer]
              split
              · exact .inl rfl
              · exact .inr rfl
        rcases hchoice with hx | hkeeps
        · rw [hx] at hbest
          cases hbest
          exact .inr (List.mem_cons_self ..)
        · exact .inl (hkeeps.symm.trans hbest)
      · exact .inr (List.mem_cons_of_mem _ hmem)

/-- What is written as a marker is a token, and the text starts with it. -/
theorem mem_of_longestToken? (h : longestToken? cs = some (letter, text)) :
    (letter, text) ∈ tokens ∧ text <+: cs := by
  rcases foldl_longer_mem h with hnone | hmem
  · cases hnone
  · obtain ⟨htoken, hfront⟩ := List.mem_filter.mp hmem
    exact ⟨htoken, List.isPrefixOf_iff_prefix.mp hfront⟩

/-! ## Both ways -/

theorem restore_cons {c : Char} (h : c ≠ '~') (cs : List Char) :
    restore (c :: cs) = (restore cs).map (c :: ·) := by
  rw [restore]
  · rintro rfl
    exact absurd rfl h
  · rintro _ _ rfl
    exact absurd rfl h

/-- Skipped characters are left out. -/
theorem substituteFrom_eq (skip : Nat) (cs : List Char) :
    substituteFrom skip cs = substituteFrom 0 (cs.drop skip) := by
  induction skip generalizing cs with
  | zero => rfl
  | succ skip ih =>
      cases cs with
      | nil => rfl
      | cons c rest => exact ih rest

theorem substitute_tilde (rest : List Char) :
    substitute ('~' :: rest) = '~' :: '~' :: substitute rest := by
  rw [substitute, substituteFrom, if_pos rfl]
  rfl

theorem substitute_plain {c : Char} (hc : c ≠ '~') (hnone : longestToken? (c :: rest) = none) :
    substitute (c :: rest) = c :: substitute rest := by
  rw [substitute, substituteFrom, if_neg hc, hnone]
  rfl

/-- A token at the front is written at once, and the text goes on behind it. -/
theorem substitute_token {c : Char} (hc : c ≠ '~')
    (htoken : longestToken? (c :: rest) = some (letter, text)) :
    ∃ left, c :: rest = text ++ left ∧ left.length ≤ rest.length ∧
      substitute (c :: rest) = '~' :: letter :: substitute left := by
  obtain ⟨hmem, left, heq⟩ := mem_of_longestToken? htoken
  obtain ⟨-, -, -, hne⟩ := lookup_of_mem_tokens _ hmem
  obtain ⟨d, tail, rfl⟩ := List.exists_cons_of_ne_nil hne
  have htail : tail ++ left = rest := (List.cons.inj heq).2
  refine ⟨left, heq.symm, ?_, ?_⟩
  · rw [← htail, List.length_append]
    exact Nat.le_add_left _ _
  · rw [substitute, substituteFrom, if_neg hc, htoken]
    simp only [List.length_cons, Nat.add_sub_cancel]
    rw [substituteFrom_eq, ← htail, List.drop_left]
    rfl

/-- How a text is written with markers, from the front. -/
inductive Marked : List Char → List Char → Prop
  | nil : Marked [] []
  | tilde {cs out} (h : Marked cs out) : Marked ('~' :: cs) ('~' :: '~' :: out)
  | token {letter text cs out} (htoken : (letter, text) ∈ tokens) (h : Marked cs out) :
      Marked (text ++ cs) ('~' :: letter :: out)
  | plain {c cs out} (hc : c ≠ '~') (h : Marked cs out) : Marked (c :: cs) (c :: out)

theorem marked_substitute (cs : List Char) : Marked cs (substitute cs) := by
  -- A token is written at once, so the induction is on the length of what is left.
  induction h : cs.length using Nat.strongRecOn generalizing cs with
  | ind n ih =>
      subst h
      cases cs with
      | nil => exact .nil
      | cons c rest =>
          by_cases hc : c = '~'
          · subst hc
            rw [substitute_tilde]
            exact .tilde (ih _ (Nat.lt_succ_self _) rest rfl)
          · cases htoken : longestToken? (c :: rest) with
            | none =>
                rw [substitute_plain hc htoken]
                exact .plain hc (ih _ (Nat.lt_succ_self _) rest rfl)
            | some t =>
                obtain ⟨letter, text⟩ := t
                obtain ⟨left, hsplit, hshorter, hwritten⟩ := substitute_token hc htoken
                have hleft := ih left.length (Nat.lt_succ_of_le hshorter) left rfl
                rw [hwritten, hsplit]
                exact .token (mem_of_longestToken? htoken).1 hleft

theorem Marked.restore_eq {out : List Char} (h : Marked cs out) : restore out = .ok cs := by
  induction h with
  | nil => rfl
  | tilde _ ih => rw [restore, if_pos rfl, ih]; rfl
  | token htoken _ ih =>
      obtain ⟨hlookup, hletter, -⟩ := lookup_of_mem_tokens _ htoken
      rw [restore, if_neg hletter, hlookup, ih]
      rfl
  | plain hc _ ih => rw [restore_cons hc, ih]; rfl

/-- **What markers stand for is what was substituted.** -/
theorem restore_substitute (cs : List Char) : restore (substitute cs) = .ok cs :=
  (marked_substitute cs).restore_eq

/-- Only a tilde takes more with markers than without. -/
theorem Marked.size_le {out : List Char} (h : Marked cs out) :
    Utf8.size out ≤ 2 * Utf8.size cs := by
  have htilde : ('~' : Char).utf8Size = 1 := rfl
  induction h with
  | nil => exact Nat.le_refl 0
  | tilde _ ih =>
      simp only [Utf8.size_cons, htilde]
      omega
  | token hmem _ ih =>
      obtain ⟨-, -, hsize, -⟩ := lookup_of_mem_tokens _ hmem
      simp only [Utf8.size_cons, Utf8.size_nil, Utf8.size_append] at hsize ⊢
      omega
  | plain _ _ ih =>
      simp only [Utf8.size_cons]
      omega

/-- Markers make a text twice as long at most. -/
theorem size_substitute_le (cs : List Char) : Utf8.size (substitute cs) ≤ 2 * Utf8.size cs :=
  (marked_substitute cs).size_le

end PeerCall.Code
