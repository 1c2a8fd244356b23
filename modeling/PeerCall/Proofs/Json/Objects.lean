import PeerCall.Json.Printer
import PeerCall.Proofs.Json.Reading

/-!
# Written objects read back

The printer spells strings with the escapes that they need, numbers by their digits, and an object
whose members are strings, numbers and nulls without blanks. The reader gets the members back in
their order, with names that need not differ.
-/
namespace PeerCall.Json

/-! ## What the printer writes -/

/-- A character is written as a piece that stands for it, a control character by its number. -/
theorem exists_piece (c : Char) : ∃ p : Piece, p.chars = escape c ∧
    ∀ rest, meaning? (p :: rest) = (meaning? rest).map (c :: ·) := by
  unfold escape
  split
  · exact ⟨.letter '"' '"' (by decide), rfl, fun _ => rfl⟩
  · exact ⟨.letter '\\' '\\' (by decide), rfl, fun _ => rfl⟩
  · exact ⟨.letter 'b' '\x08' (by decide), rfl, fun _ => rfl⟩
  · exact ⟨.letter 'f' '\x0c' (by decide), rfl, fun _ => rfl⟩
  · exact ⟨.letter 'n' '\n' (by decide), rfl, fun _ => rfl⟩
  · exact ⟨.letter 'r' '\r' (by decide), rfl, fun _ => rfl⟩
  · exact ⟨.letter 't' '\t' (by decide), rfl, fun _ => rfl⟩
  · rename_i hquote hback _ _ _ _ _
    split
    · rename_i hcontrol
      let zero : HexDigit := ⟨'0', 0, rfl⟩
      let u : CodeUnit := ⟨zero, zero,
        ⟨Text.Hex.digit (c.toNat / 16), _, Text.Hex.value?_digit (by omega)⟩,
        ⟨Text.Hex.digit (c.toNat % 16), _, Text.Hex.value?_digit (by omega)⟩⟩
      have hvalue : u.value = c.toNat := by
        simp only [u, zero, CodeUnit.value]
        omega
      have hhigh : isHighSurrogate u.value = false := by
        simp only [hvalue, isHighSurrogate, Bool.and_eq_false_iff, decide_eq_false_iff_not]
        omega
      have hlow : isLowSurrogate u.value = false := by
        simp only [hvalue, isLowSurrogate, Bool.and_eq_false_iff, decide_eq_false_iff_not]
        omega
      refine ⟨.unit u, rfl, fun rest => ?_⟩
      rw [meaning?_unit rest hhigh hlow, hvalue, Char.ofNat_toNat]
    · rename_i hcontrol
      exact ⟨.plain c (isPlain_iff.mpr ⟨hquote, hback, hcontrol⟩), rfl, fun _ => rfl⟩

theorem exists_pieces (cs : List Char) :
    ∃ ps : List Piece, ps.flatMap Piece.chars = cs.flatMap escape ∧ meaning? ps = some cs := by
  induction cs with
  | nil => exact ⟨[], rfl, rfl⟩
  | cons c cs ih =>
      obtain ⟨ps, hchars, hmeaning⟩ := ih
      obtain ⟨p, hpchars, hpmeaning⟩ := exists_piece c
      refine ⟨p :: ps, ?_, ?_⟩
      · rw [List.flatMap_cons, List.flatMap_cons, hpchars, hchars]
      · rw [hpmeaning, hmeaning, Option.map_some]

/-- A quoted string is one token. -/
theorem lexes_quote (s : String) (tail : List Char) : Lexes (quote s) [.text (some s)] tail := by
  obtain ⟨ps, hchars, hmeaning⟩ := exists_pieces s.toList
  have hquoted : quoted ps = quote s := by
    rw [quoted, hchars]
    rfl
  have htext : textOf ps = some s := by
    rw [textOf, hmeaning, Option.map_some, String.ofList_toList]
  rw [← hquoted, ← htext]
  exact lexes_quoted ps tail

/-- Digits have a zero in front only if they are a zero alone. -/
theorem head_toDigits (n : Nat) (hn : n ≠ 0) : (Nat.toDigits 10 n).head? ≠ some '0' := by
  induction n using Nat.strongRecOn with
  | _ n ih =>
      by_cases hsmall : n < 10
      · have hall : ∀ n < 10, n ≠ 0 → (Nat.toDigits 10 n).head? ≠ some '0' := by decide
        exact hall n hsmall hn
      · have hquot := ih (n / 10) (by omega) (by omega)
        rw [Nat.toDigits_of_base_le (by decide) (by omega)]
        rw [List.head?_append]
        cases hhead : (Nat.toDigits 10 (n / 10)).head? with
        | none => simp at hhead
        | some c => rwa [hhead] at hquot

theorem naturalOf_toDigits (n : Nat) : naturalOf (Nat.toDigits 10 n) = n := by
  have hcore := Nat.ofDigitChars_ten_toDigits (n := n)
  rw [Nat.ofDigitChars_eq_foldl] at hcore
  simpa [naturalOf, Nat.mul_comm] using hcore

/-- A natural number, written by its digits alone. -/
def Number.ofNat (n : Nat) : Number where
  negative := false
  whole := ⟨Nat.toDigits 10 n, by simp, List.all_eq_true.mpr fun _ hc =>
    Nat.isDigit_of_mem_toDigits (by decide) (by decide) hc⟩
  canonical := by
    intro hhead
    by_cases hn : n = 0
    · simp [hn]
    · exact absurd hhead (head_toDigits n hn)
  fraction := none
  exponent := none

/-- A natural number is one token. -/
theorem lexes_natural (n : Nat) {tail : List Char} (htail : EndsNumber tail) :
    Lexes (Nat.toDigits 10 n) [.natural n] tail := by
  have hchars : (Number.ofNat n).chars = Nat.toDigits 10 n := List.append_nil _
  have htoken : (Number.ofNat n).token = .natural n := congrArg Token.natural (naturalOf_toDigits n)
  rw [← hchars, ← htoken]
  exact (Number.ofNat n).lexes_chars htail

/-! ## Members -/

/-- A member to be written: its value is one token, also with another member behind it. -/
structure Member where
  name : String
  written : List Char
  token : Token
  value : Value
  atom : token.atom? = some value
  lexes : ∀ {tail}, EndsNumber tail → Lexes written [token] tail

namespace Member

/-- A member that is a string. -/
def text (name s : String) : Member :=
  ⟨name, quote s, .text (some s), .text (some s), rfl, fun _ => lexes_quote s _⟩

/-- A member that is a natural number. -/
def natural (name : String) (n : Nat) : Member :=
  ⟨name, Nat.toDigits 10 n, .natural n, .natural n, rfl, lexes_natural n⟩

/-- A member that is null. -/
def null (name : String) : Member :=
  ⟨name, "null".toList, .null, .null, rfl, fun _ => lexes_token (by decide) rfl⟩

/-- How a member is written in its object. -/
def chars (m : Member) : List Char := quote m.name ++ ':' :: m.written

/-- The tokens of a member. -/
def tokens (m : Member) : List Token := [.text (some m.name), .colon, m.token]

end Member

variable {ms : List Member} {tail : List Char}

theorem Member.lexes_chars (m : Member) (htail : EndsNumber tail) :
    Lexes m.chars m.tokens tail := by
  have hcolon : Lexes [':'] [.colon] (m.written ++ tail) := lexes_token (by decide) rfl
  exact (lexes_quote m.name _).append (hcolon.append (m.lexes htail))

/-- What is read of members. -/
def entries (ms : List Member) : List (Text × Value) := ms.map fun m => (some m.name, m.value)

/-- **A written object is read back.** -/
theorem parse?_object (ms : List Member) :
    parse? (String.ofList (object (ms.map fun m => (m.name, m.written)))) =
      some (.object (entries ms)) := by
  have hchars : object (ms.map fun m => (m.name, m.written)) =
      ['\x7b'] ++ ([','].intercalate (ms.map Member.chars) ++ ['\x7d']) := by
    simp only [object, List.map_map]
    rfl
  have hopen : Scans ['\x7b'] [.openBrace]
      (([','].intercalate (ms.map Member.chars) ++ ['\x7d']) ++ []) := scans_token (by decide) rfl
  have hmembers : Scans ([','].intercalate (ms.map Member.chars))
      ([Token.comma].intercalate (ms.map Member.tokens)) (['\x7d'] ++ []) :=
    scans_intercalate (fun m _ _ htail => (m.lexes_chars htail).scans) (endsNumber_cons (by decide))
  have hclose : Scans ['\x7d'] [.closeBrace] [] := scans_token (by decide) rfl
  have hdenotes : Denotes
      (.openBrace :: ([Token.comma].intercalate (ms.map Member.tokens) ++ [.closeBrace]))
      (.object (entries ms)) := denotes_object fun m _ => denotes_atom m.atom
  rw [parse?, String.toList_ofList, hchars, lex_of_scans (hopen.append (hmembers.append hclose)),
    Option.bind_some]
  exact ofTokens?_of_denotes hdenotes

end PeerCall.Json
