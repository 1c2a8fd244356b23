import PeerCall.Proofs.Code.Markers

/-!
# One pass over a text

Markers are written in one pass that counts in bytes: each turn looks at the character at the front,
writes a piece and cuts off the bytes that the piece stands for. A piece stands for one character or
for a whole token, so every cut falls between two characters, and the text left gets shorter with
each turn. The pass comes to its end whatever the text, and no two texts come out alike, for what is
written can be taken back.
-/
namespace PeerCall.Code

open Text

/-! ## The pass in bytes -/

/-- What is left of a text behind so many bytes, if a character ends there. -/
def dropBytes? : Nat → List Char → Option (List Char)
  | 0, cs => some cs
  | _ + 1, [] => none
  | n + 1, c :: cs => if c.utf8Size ≤ n + 1 then dropBytes? (n + 1 - c.utf8Size) cs else none

/-- The piece that a turn writes for the front of a text, and the bytes that it stands for. -/
def frontPiece (c : Char) (rest : List Char) : List Char × Nat :=
  if c = '~' then (['~', '~'], 1)
  else match longestToken? (c :: rest) with
    | some (letter, text) => (['~', letter], Utf8.size text)
    | none => ([c], c.utf8Size)

/-- What the pass writes in so many turns; nothing if it is not at its end by then, or if a cut
falls inside a character. -/
def writtenIn : Nat → List Char → Option (List Char)
  | _, [] => some []
  | 0, _ :: _ => none
  | turns + 1, c :: rest => do
    let left ← dropBytes? (frontPiece c rest).2 (c :: rest)
    let written ← writtenIn turns left
    some ((frontPiece c rest).1 ++ written)

variable {cs : List Char} {turns : Nat}

/-- Behind the bytes of whole characters a text can be cut. -/
theorem dropBytes?_append (front left : List Char) :
    dropBytes? (Utf8.size front) (front ++ left) = some left := by
  induction front with
  | nil => cases left <;> rfl
  | cons c front ih =>
      have hpos := c.utf8Size_pos
      obtain ⟨n, hn⟩ : ∃ n, c.utf8Size + Utf8.size front = n + 1 :=
        Nat.exists_eq_add_one_of_ne_zero (by omega)
      rw [Utf8.size_cons, hn, List.cons_append, dropBytes?, if_pos (by omega), ← hn,
        Nat.add_sub_cancel_left]
      exact ih

/-- A turn cuts between two characters, and what it writes is the front of the text with markers. -/
theorem frontPiece_cut (c : Char) (rest : List Char) :
    ∃ left, dropBytes? (frontPiece c rest).2 (c :: rest) = some left ∧
      left.length ≤ rest.length ∧
      substitute (c :: rest) = (frontPiece c rest).1 ++ substitute left := by
  by_cases hc : c = '~'
  · subst hc
    have hpiece : frontPiece '~' rest = (['~', '~'], 1) := if_pos rfl
    rw [hpiece]
    exact ⟨rest, dropBytes?_append ['~'] rest, Nat.le_refl _, substitute_tilde rest⟩
  · cases htoken : longestToken? (c :: rest) with
    | none =>
        have hpiece : frontPiece c rest = ([c], c.utf8Size) := by
          rw [frontPiece, if_neg hc, htoken]
        rw [hpiece]
        exact ⟨rest, dropBytes?_append [c] rest, Nat.le_refl _, substitute_plain hc htoken⟩
    | some t =>
        obtain ⟨letter, text⟩ := t
        have hpiece : frontPiece c rest = (['~', letter], Utf8.size text) := by
          rw [frontPiece, if_neg hc, htoken]
        obtain ⟨left, hsplit, hshorter, hwritten⟩ := substitute_token hc htoken
        rw [hpiece, hwritten, hsplit]
        exact ⟨left, dropBytes?_append text left, hshorter, rfl⟩

/-- The pass takes no more turns than a text has characters. -/
theorem writtenIn_eq (h : cs.length ≤ turns) : writtenIn turns cs = some (substitute cs) := by
  induction turns generalizing cs with
  | zero =>
      cases cs with
      | nil => rfl
      | cons c rest => cases h
  | succ turns ih =>
      cases cs with
      | nil => rfl
      | cons c rest =>
          obtain ⟨left, hcut, hshorter, hwritten⟩ := frontPiece_cut c rest
          have hleft := ih (Nat.le_trans hshorter (Nat.le_of_succ_le_succ h))
          rw [writtenIn, hcut, hwritten]
          simp only [Option.bind_eq_bind, Option.bind_some, hleft]

/-- **Nothing is lost by markers.** Whatever a text holds, the pass over its bytes comes to its end
within as many turns as it has characters, restoring what it wrote gives the text, and so different
texts are written differently. -/
theorem markers_lose_nothing :
    (∀ (text : List Char) (more : Nat),
      writtenIn (text.length + more) text = some (substitute text) ∧
      restore (substitute text) = .ok text) ∧
    Function.Injective substitute := by
  constructor
  · intro text more
    exact ⟨writtenIn_eq (Nat.le_add_right _ _), restore_substitute text⟩
  · intro text text' heq
    have hrestored := restore_substitute text
    rw [heq, restore_substitute text', Except.ok.injEq] at hrestored
    exact hrestored.symm

end PeerCall.Code
