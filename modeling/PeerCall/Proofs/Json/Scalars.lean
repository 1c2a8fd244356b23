import PeerCall.Json.Value

/-!
# Texts that start with a scalar

A text whose first character opens no array, object or string is one word or one number, if it is
JSON at all: nothing may stand behind such a value when no container holds it.
-/
namespace PeerCall.Json

variable {c : Char} {rest rest' : List Char} {t : Token} {ts : List Token} {v w : Value}

/-- Values without parts and without a text. -/
def Value.IsScalar : Value → Prop
  | .null | .bool _ | .natural _ | .otherNumber => True
  | .text _ | .array _ | .object _ => False

/-- A token that is a scalar on its own. -/
def Token.IsScalar (t : Token) : Prop := ∃ v, t.atom? = some v ∧ v.IsScalar

/-- Characters that open or close a value or stand between values. -/
def isStructural (c : Char) : Bool := c ∈ ['[', ']', '\x7b', '\x7d', ',', ':', '"']

/-! ## The first token -/

theorem isScalar_of_lexUnsigned (h : lexUnsigned rest = some (t, rest')) : t.IsScalar := by
  simp only [lexUnsigned, Option.bind_eq_bind, Option.pure_def, Option.bind_some,
    Option.bind_none] at h
  split at h
  · cases h
  -- With or without a fraction, with or without an exponent.
  · split at h <;> repeat' split at h
    all_goals cases h
    all_goals first
      | exact ⟨.otherNumber, rfl, trivial⟩
      | exact ⟨.natural _, rfl, trivial⟩

theorem isScalar_of_lexWord {word : List Char} {token : Token} (htoken : token.IsScalar)
    (h : lexWord word token rest = some (t, rest')) : t.IsScalar := by
  rw [lexWord] at h
  split at h
  · cases h
    exact htoken
  · cases h

theorem isScalar_of_lexToken (hc : isStructural c = false)
    (h : lexToken c rest = some (t, rest')) : t.IsScalar := by
  unfold lexToken at h
  split at h
  case h_8 => exact isScalar_of_lexWord ⟨.null, rfl, trivial⟩ h
  case h_9 => exact isScalar_of_lexWord ⟨.bool true, rfl, trivial⟩ h
  case h_10 => exact isScalar_of_lexWord ⟨.bool false, rfl, trivial⟩ h
  case h_11 =>
    obtain ⟨x, -, hx⟩ := Option.map_eq_some_iff.mp h
    cases hx
    exact ⟨.otherNumber, rfl, trivial⟩
  case h_12 =>
    split at h
    · exact isScalar_of_lexUnsigned h
    · cases h
  all_goals cases hc

/-- Tokens that were read stay in front. -/
theorem exists_of_lexGo {fuel : Nat} {cs : List Char} {done tokens : List Token}
    (h : lex.go fuel cs done = some tokens) : ∃ ts, tokens = done.reverse ++ ts := by
  induction fuel generalizing cs done with
  | zero =>
      cases cs with
      | nil =>
          cases h
          exact ⟨[], (List.append_nil _).symm⟩
      | cons c cs => cases h
  | succ fuel ih =>
      cases cs with
      | nil =>
          cases h
          exact ⟨[], (List.append_nil _).symm⟩
      | cons c cs =>
          rw [lex.go] at h
          split at h
          · exact ih h
          · obtain ⟨⟨t, cs'⟩, -, h⟩ := Option.bind_eq_some_iff.mp h
            obtain ⟨ts, hts⟩ := ih h
            exact ⟨t :: ts, by rw [hts, List.reverse_cons, List.append_assoc]; rfl⟩

/-! ## The value -/

/-- Behind a value that no container holds no token may stand. -/
theorem eq_of_ofTokens? (ht : t.atom? = some v) (h : ofTokens? (t :: ts) = some w) : w = v := by
  have hvalue : Reader.start.startValue t = t.atom?.map Reader.start.complete := by
    cases t with
    | openBracket | openBrace => cases ht
    | _ => rfl
  have hstart : Reader.start.step t = some (Reader.start.complete v) :=
    hvalue.trans (by rw [ht]; rfl)
  rw [ofTokens?, List.foldlM_cons, hstart] at h
  cases ts with
  | nil =>
      cases h
      rfl
  | cons t ts => cases t <;> cases h

/-- **A text that starts with a scalar is that scalar**, or no JSON. -/
theorem isScalar_of_parse? {text : String} (htext : text.toList = c :: rest)
    (hc : isStructural c = false) (hblank : isBlank c = false) (h : parse? text = some v) :
    v.IsScalar := by
  obtain ⟨tokens, hlex, htokens⟩ := Option.bind_eq_some_iff.mp h
  rw [lex, htext, List.length_cons, lex.go, if_neg (by rw [hblank]; exact Bool.false_ne_true)]
    at hlex
  obtain ⟨⟨t, rest'⟩, htoken, hrest⟩ := Option.bind_eq_some_iff.mp hlex
  obtain ⟨ts, rfl⟩ := exists_of_lexGo hrest
  obtain ⟨w, hw, hscalar⟩ := isScalar_of_lexToken hc htoken
  rw [eq_of_ofTokens? hw htokens]
  exact hscalar

end PeerCall.Json
