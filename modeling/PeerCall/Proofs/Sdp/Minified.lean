import PeerCall.Proofs.Text.Lines
import PeerCall.Sdp.Minify

/-!
# The lines of a minified description

What is kept of a description are lines of it, whole or with payload types left out, so a minified
description is what is left of the description. No kept line is empty, holds a line feed or ends in
a blank, and so the lines of the minified text are the kept ones, whatever else stands in them.
-/
namespace PeerCall

open Text

/-- The lines that pieces between line feeds are: a carriage return in front of a line feed belongs
to the end of the line, and nothing stands behind a line feed at the very end. -/
def Text.linesOfPieces : List (List Char) → List (List Char)
  | [] => []
  | [last] => if last = [] then [] else [last]
  | piece :: pieces =>
    (if piece.getLast? = some '\r' then piece.dropLast else piece) :: linesOfPieces pieces

/-- The lines of a text. -/
def Text.lines (cs : List Char) : List (List Char) := linesOfPieces (split '\n' cs)

namespace Sdp

variable {line : Line} {lines : List Line} {text : List Char} {candidates : Nat}

/-- A line that is not empty, is one line and ends in no blank. -/
structure Tidy (line : Line) : Prop where
  ne_nil : line ≠ []
  one : '\n' ∉ line
  trimmed : trimEnd line = line

/-! ## Lines of a description -/

theorem tidy_of_mem_linesOf (h : line ∈ linesOf text) : Tidy line := by
  obtain ⟨hmem, hne⟩ := List.mem_filter.mp h
  obtain ⟨piece, hpiece, rfl⟩ := List.mem_map.mp hmem
  refine ⟨of_decide_eq_true hne, ?_, trimEnd_trimEnd piece⟩
  intro hfeed
  exact not_mem_of_mem_split hpiece ((trimEnd_isPrefixOf piece).subset hfeed)

/-- The lines of a description, joined, are what is left of it. -/
theorem linesOf_sublist (text : List Char) :
    (['\n'].intercalate (linesOf text)).Sublist text := by
  have hlines : ∀ cs : List Char, (['\n'].intercalate
      (((split '\n' cs).map trimEnd).filter (· ≠ []))).Sublist cs := by
    intro cs
    have htrimmed : List.SublistForall₂ List.Sublist ((split '\n' cs).map trimEnd)
        (split '\n' cs) := by
      generalize split '\n' cs = pieces
      induction pieces with
      | nil => exact .nil
      | cons piece pieces ih => exact .cons (trimEnd_isPrefixOf piece).sublist ih
    have hkept : List.SublistForall₂ List.Sublist
        (((split '\n' cs).map trimEnd).filter (· ≠ [])) ((split '\n' cs).map trimEnd) :=
      sublistForall₂_of_sublist List.filter_sublist
    have hleft := (intercalate_sublist ['\n'] hkept).trans (intercalate_sublist ['\n'] htrimmed)
    rwa [intercalate_split] at hleft
  unfold linesOf
  split
  · exact (hlines _).trans (List.sublist_cons_self ..)
  · exact hlines _

/-! ## Media lines -/

theorem trimMedia_cases (line : Line) : trimMedia line = line ∨
    ∃ allowed, allowed ≠ [] ∧ allowed.Sublist ((split ' ' line).drop 3) ∧
      (∀ format ∈ allowed, format ∈ allowedTypes) ∧
      trimMedia line = [' '].intercalate ((split ' ' line).take 3 ++ allowed) := by
  unfold trimMedia
  dsimp only
  split
  · exact .inl rfl
  · split
    · exact .inl rfl
    · rename_i hallowed
      refine .inr ⟨_, ?_, List.filter_sublist, ?_, rfl⟩
      · intro heq
        rw [heq] at hallowed
        exact hallowed rfl
      · intro format hformat
        exact List.contains_iff_mem.mp (List.mem_filter.mp hformat).2

/-- Of a media line nothing but payload types is left out. -/
theorem trimMedia_sublist (line : Line) : (trimMedia line).Sublist line := by
  rcases trimMedia_cases line with heq | ⟨allowed, -, hsub, -, heq⟩
  · rw [heq]
  · have hfields := (List.Sublist.refl ((split ' ' line).take 3)).append hsub
    rw [List.take_append_drop] at hfields
    have hleft := intercalate_sublist [' '] (sublistForall₂_of_sublist hfields)
    rwa [intercalate_split, ← heq] at hleft

/-- Joined pieces end in the last one. -/
theorem intercalate_concat (sep : List Char) (pieces : List (List Char)) (last : List Char) :
    ∃ front, sep.intercalate (pieces ++ [last]) = front ++ last := by
  induction pieces with
  | nil => exact ⟨[], List.intercalate_singleton⟩
  | cons piece pieces ih =>
      obtain ⟨front, hfront⟩ := ih
      refine ⟨piece ++ sep ++ front, ?_⟩
      rw [List.cons_append, List.intercalate_cons_of_ne_nil (by simp), hfront, ← List.append_assoc]

/-- A payload type ends in a digit. -/
theorem exists_concat_of_allowed : ∀ format ∈ allowedTypes,
    ∃ front c, format = front ++ [c] ∧ isBlank c = false := by
  have hall : ∀ format ∈ allowedTypes,
      format = format.dropLast ++ [format.getLastD '0'] ∧
        isBlank (format.getLastD '0') = false := by
    decide
  intro format hformat
  exact ⟨_, _, hall format hformat⟩

theorem Tidy.trimMedia (h : Tidy line) : Tidy (trimMedia line) := by
  have hone : '\n' ∉ Sdp.trimMedia line :=
    fun hfeed => h.one ((trimMedia_sublist line).subset hfeed)
  rcases trimMedia_cases line with heq | ⟨allowed, hne, -, hallowed, heq⟩
  · rw [heq]
    exact h
  · obtain ⟨formats, last, rfl⟩ := (List.eq_nil_or_concat allowed).resolve_left hne
    obtain ⟨front, c, hlast, hblank⟩ := exists_concat_of_allowed last (hallowed last (by simp))
    obtain ⟨before, hbefore⟩ := intercalate_concat [' '] ((split ' ' line).take 3 ++ formats) last
    have hends : Sdp.trimMedia line = (before ++ front) ++ [c] := by
      rw [heq, List.concat_eq_append, ← List.append_assoc, hbefore, hlast, List.append_assoc]
    refine ⟨?_, hone, ?_⟩
    · rw [hends]
      exact List.append_ne_nil_of_right_ne_nil _ (List.cons_ne_nil _ _)
    · rw [hends, trimEnd_concat hblank]

/-! ## Kept lines -/

theorem keep_sublist (candidates : Nat) (lines : List Line) :
    List.SublistForall₂ List.Sublist (keep candidates lines) lines := by
  induction lines generalizing candidates with
  | nil => exact .nil
  | cons line lines ih =>
      unfold keep
      split
      · split
        · exact .cons_right (ih 0)
        · exact .cons (List.Sublist.refl line) (ih _)
      · exact .cons (trimMedia_sublist line) (ih _)
      · exact .cons (List.Sublist.refl line) (ih _)
      · exact .cons_right (ih _)

theorem tidy_of_mem_keep (h : ∀ line ∈ lines, Tidy line) (hline : line ∈ keep candidates lines) :
    Tidy line := by
  induction lines generalizing candidates with
  | nil => cases hline
  | cons first lines ih =>
      have hfirst := h first (List.mem_cons_self ..)
      have hrest : ∀ {n}, line ∈ keep n lines → Tidy line :=
        fun hline => ih (fun x hx => h x (List.mem_cons_of_mem _ hx)) hline
      unfold keep at hline
      split at hline
      · split at hline
        · exact hrest hline
        · rcases List.mem_cons.mp hline with rfl | hline
          · exact hfirst
          · exact hrest hline
      · rcases List.mem_cons.mp hline with rfl | hline
        · exact hfirst.trimMedia
        · exact hrest hline
      · rcases List.mem_cons.mp hline with rfl | hline
        · exact hfirst
        · exact hrest hline
      · exact hrest hline

theorem tidy_of_mem_minifiedLines (h : line ∈ minifiedLines text candidates) : Tidy line :=
  tidy_of_mem_keep (fun _ hline => tidy_of_mem_linesOf hline) h

/-- **A minified description is what is left of the description.** -/
theorem minify_sublist (sdp : String) (candidates : Nat) :
    (minify sdp candidates).toList.Sublist sdp.toList := by
  rw [minify, String.toList_ofList]
  exact (intercalate_sublist _ (keep_sublist _ _)).trans (linesOf_sublist _)

/-! ## Lines of a minified description -/

theorem linesOfPieces_tidy (h : ∀ line ∈ lines, Tidy line) : linesOfPieces lines = lines := by
  induction lines with
  | nil => rfl
  | cons line lines ih =>
      have hline := h line (List.mem_cons_self ..)
      cases lines with
      | nil => exact if_neg hline.ne_nil
      | cons next lines =>
          have hreturn : line.getLast? ≠ some '\r' := by
            intro hlast
            obtain ⟨front, rfl⟩ := List.getLast?_eq_some_iff.mp hlast
            have hblank := isBlank_of_trimEnd_concat hline.trimmed
            cases hblank
          rw [linesOfPieces, if_neg hreturn, ih fun x hx => h x (List.mem_cons_of_mem _ hx)]
          simp

/-- **The lines of a minified description are the kept lines.** -/
theorem lines_minify (sdp : String) (candidates : Nat) :
    Text.lines (minify sdp candidates).toList = minifiedLines sdp.toList candidates := by
  have htidy : ∀ line ∈ minifiedLines sdp.toList candidates, Tidy line :=
    fun _ hline => tidy_of_mem_minifiedLines hline
  rw [Text.lines, minify, String.toList_ofList]
  by_cases hnone : minifiedLines sdp.toList candidates = []
  · rw [hnone]
    rfl
  · rw [split_intercalate hnone fun line hline => (htidy line hline).one, linesOfPieces_tidy htidy]

/-- A text of one line that is kept whole stays as it is. -/
theorem minify_line (hline : Tidy line) (hkind : kindOf line = .kept)
    (hmark : line.head? ≠ some '\ufeff') (candidates : Nat) :
    minify (String.ofList line) candidates = String.ofList line := by
  have hlines : linesOf line = [line] := by
    rw [linesOf]
    · rw [split_of_not_mem hline.one, List.map_singleton, hline.trimmed]
      exact List.filter_cons_of_pos (decide_eq_true hline.ne_nil)
    · rintro rest rfl
      exact hmark rfl
  have hkept : keep candidates [line] = [line] := by
    cases candidates <;> simp only [keep, hkind]
  rw [minify, minifiedLines, String.toList_ofList, hlines, hkept, List.intercalate_singleton]

end Sdp

end PeerCall
