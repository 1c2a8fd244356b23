import Mathlib.Data.List.TakeDrop
import PeerCall.Json.Token

/-!
# Tokens read one by one

A text that starts with a token is read as that token, in front of whatever may follow it. A string
ends at its quote, so anything may follow it; a number ends at the first character that is no part
of a number.
-/
namespace PeerCall.Json

variable {c : Char} {cs cs' tail : List Char} {t : Token} {ts ts' : List Token}

/-! ## Texts as sequences of tokens -/

/-- In front of `tail`, the characters are read as these tokens, each of one character at least. -/
structure Lexes (cs : List Char) (ts : List Token) (tail : List Char) : Prop where
  length_le : ts.length ≤ cs.length
  go_eq : ∀ fuel done,
    lex.go (ts.length + fuel) (cs ++ tail) done = lex.go fuel tail (ts.reverse ++ done)

theorem Lexes.append (h : Lexes cs ts (cs' ++ tail)) (h' : Lexes cs' ts' tail) :
    Lexes (cs ++ cs') (ts ++ ts') tail := by
  constructor
  · rw [List.length_append, List.length_append]
    exact Nat.add_le_add h.length_le h'.length_le
  · intro fuel done
    rw [List.length_append, Nat.add_assoc, List.append_assoc, h.go_eq, h'.go_eq,
      List.reverse_append, List.append_assoc]

/-- A token that starts with no blank. -/
theorem lexes_token (hblank : isBlank c = false) (h : lexToken c (cs ++ tail) = some (t, tail)) :
    Lexes (c :: cs) [t] tail := by
  refine ⟨by simp, ?_⟩
  intro fuel done
  rw [List.length_singleton, Nat.add_comm, List.cons_append, lex.go, hblank]
  simp [h]

/-! ## Strings -/

/-- A character that stands for itself; the other half of a pair was due if half of one came. -/
theorem lexText_plain (hquote : c ≠ '"') (hback : c ≠ '\\') (hcontrol : ¬ c.toNat < 0x20)
    (done : Option (List Char)) (high : Option Nat) : lexText (c :: tail) done high =
      lexText tail (if high.isSome then none else done.map (c :: ·)) none := by
  rw [lexText]
  · simp [hcontrol]
  · exact hquote
  · intro _ _ _ _ _ h
    exact absurd h hback
  · intro _ _ h
    exact absurd h hback
  · intro h
    exact absurd h hback

theorem lexText_letter {letter : Char} (hu : letter ≠ 'u') (h : simpleEscape? letter = some c)
    (done : Option (List Char)) (high : Option Nat) :
    lexText ('\\' :: letter :: tail) done high =
      lexText tail (if high.isSome then none else done.map (c :: ·)) none := by
  rw [lexText]
  · simp [h]
  · intro _ _ _ _ _ h
    exact absurd h hu

section Units

variable {d₁ d₂ d₃ d₄ : Char} {n : Nat} (hunit : unit? d₁ d₂ d₃ d₄ = some n)

include hunit

/-- A unit that is no half of a pair, or not the one that may come first. -/
theorem lexText_unit (done : Option (List Char)) :
    lexText ('\\' :: 'u' :: d₁ :: d₂ :: d₃ :: d₄ :: tail) done none =
      if isHighSurrogate n then lexText tail done (some n)
      else if isLowSurrogate n then lexText tail none none
      else lexText tail (done.map (Char.ofNat n :: ·)) none := by
  rw [lexText, hunit]
  rfl

/-- A unit behind the first half of a pair. -/
theorem lexText_unit_of_high (done : Option (List Char)) (high : Nat) :
    lexText ('\\' :: 'u' :: d₁ :: d₂ :: d₃ :: d₄ :: tail) done (some high) =
      if isLowSurrogate n then
        lexText tail
          (done.map (Char.ofNat (0x10000 + (high - 0xD800) * 0x400 + (n - 0xDC00)) :: ·)) none
      else if isHighSurrogate n then lexText tail none (some n)
      else lexText tail none none := by
  rw [lexText, hunit]
  rfl

end Units

/-! ## Numbers -/

/-- No number goes on with the characters that follow. -/
def EndsNumber (tail : List Char) : Prop :=
  ∀ c rest, tail = c :: rest → c.isDigit = false ∧ c ≠ '.' ∧ c ≠ 'e' ∧ c ≠ 'E'

theorem endsNumber_cons (hc : c.isDigit = false ∧ c ≠ '.' ∧ c ≠ 'e' ∧ c ≠ 'E') :
    EndsNumber (c :: tail) := by
  rintro c' rest ⟨rfl, rfl⟩
  exact hc

theorem endsNumber_nil : EndsNumber [] := nofun

/-- No run of digits goes on with the characters that follow. -/
def EndsDigits (tail : List Char) : Prop := ∀ c rest, tail = c :: rest → c.isDigit = false

theorem EndsNumber.endsDigits (h : EndsNumber tail) : EndsDigits tail :=
  fun c rest htail => (h c rest htail).1

theorem spanDigits_append (hcs : ∀ c ∈ cs, c.isDigit = true) (htail : EndsDigits tail) :
    spanDigits (cs ++ tail) = (cs, tail) := by
  rw [spanDigits, List.span_eq_takeWhile_dropWhile, List.takeWhile_append_of_pos hcs,
    List.dropWhile_append_of_pos hcs]
  cases tail with
  | nil => simp
  | cons c rest =>
      have hc := htail c rest rfl
      simp [hc]

theorem isBlank_of_isDigit (hc : c.isDigit = true) : isBlank c = false := by
  cases hblank : isBlank c with
  | false => rfl
  | true =>
      simp only [isBlank, Bool.or_eq_true, decide_eq_true_eq] at hblank
      rcases hblank with ((rfl | rfl) | rfl) | rfl <;> cases hc

theorem lexToken_of_isDigit (hc : c.isDigit = true) : lexToken c cs = lexUnsigned (c :: cs) := by
  rw [lexToken.eq_def]
  split <;> first | (exfalso; revert hc; decide) | rw [if_pos hc]

end PeerCall.Json
