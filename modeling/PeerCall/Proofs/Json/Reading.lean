import PeerCall.Proofs.Json.Scanning

/-!
# JSON texts are read as what they spell

Wherever a value is due, its tokens lead to the place behind it, with the value complete and the
containers around it as they were. That is so for a token alone, and for a container if it is so for
what it holds; so it is so for every value, of any nesting. Together with the tokens of a text this
is what the reader is for: it reads every text of the grammar, and as the value that the text
spells.
-/
namespace PeerCall.Json

variable {t : Token} {ts : List Token} {v : Value} {r : Reader} {stack : List Open}
  {last : Option Value} {expect : Expect}

/-- Wherever a value is due, these tokens lead to it. -/
def Denotes (ts : List Token) (v : Value) : Prop :=
  ∀ r : Reader, r.expect = .value ∨ r.expect = .valueOrEnd →
    ts.foldlM Reader.step r = some (r.complete v)

/-- Where a value is due, a token that starts one does so, also if the end might stand there. -/
theorem step_of_due (hr : r.expect = .value ∨ r.expect = .valueOrEnd) (ht : t ≠ .closeBracket) :
    r.step t = r.startValue t := by
  rcases hr with hr | hr
  · simp only [Reader.step, hr]
  · cases t <;> simp_all [Reader.step]

theorem denotes_atom (h : t.atom? = some v) : Denotes [t] v := by
  intro r hr
  have ht : t ≠ .closeBracket := by
    rintro rfl
    cases h
  have hvalue : r.startValue t = t.atom?.map r.complete := by
    cases t with
    | openBracket | openBrace => cases h
    | _ => rfl
  rw [List.foldlM_cons, step_of_due hr ht, hvalue, h]
  rfl

section Containers

variable {α : Type} {name : α → Text} {tokens : α → List Token} {value : α → Value} {parts : List α}
  (h : ∀ a ∈ parts, Denotes (tokens a) (value a))

include h

/-- The items of an array and the bracket behind them. -/
theorem foldlM_items (hparts : parts ≠ []) (items : List Value)
    (hexpect : expect = .value ∨ expect = .valueOrEnd) :
    ([Token.comma].intercalate (parts.map tokens) ++ [Token.closeBracket]).foldlM Reader.step
        ⟨.array items :: stack, [], expect, last⟩ =
      some ⟨stack, [], .after, some (.array (items.reverse ++ parts.map value))⟩ := by
  induction parts generalizing items expect last with
  | nil => exact absurd rfl hparts
  | cons a rest ih =>
      have ha := h a List.mem_cons_self ⟨.array items :: stack, [], expect, last⟩ hexpect
      cases rest with
      | nil =>
          simp only [List.map_cons, List.map_nil, List.intercalate_singleton, List.foldlM_append,
            ha]
          simp [Reader.step, Reader.complete]
      | cons a' rest =>
          have hrest := @ih none .value (fun b hb => h b (List.mem_cons_of_mem a hb))
            (List.cons_ne_nil a' rest) (value a :: items) (Or.inl rfl)
          simp only [List.map_cons, List.intercalate_cons_cons, List.append_assoc,
            List.foldlM_append, ha] at hrest ⊢
          simpa [Reader.step, Reader.complete] using hrest

theorem denotes_array : Denotes
    (.openBracket :: ([Token.comma].intercalate (parts.map tokens) ++ [.closeBracket]))
    (.array (parts.map value)) := by
  intro r hr
  rw [List.foldlM_cons, step_of_due hr (by decide)]
  cases parts with
  | nil => rfl
  | cons a rest => exact foldlM_items h (List.cons_ne_nil a rest) [] (Or.inr rfl)

/-- The members of an object and the brace behind them. -/
theorem foldlM_members (hparts : parts ≠ []) (members : List (Text × Value))
    (hexpect : expect = .name ∨ expect = .nameOrEnd) :
    ([Token.comma].intercalate (parts.map fun a => .text (name a) :: .colon :: tokens a) ++
        [Token.closeBrace]).foldlM Reader.step ⟨stack, members, expect, last⟩ =
      some ⟨stack, [], .after,
        some (.object (members.reverse ++ parts.map fun a => (name a, value a)))⟩ := by
  induction parts generalizing members expect last with
  | nil => exact absurd rfl hparts
  | cons a rest ih =>
      have hvalue := h a List.mem_cons_self
        ⟨.object members (name a) :: stack, [], .value, none⟩ (Or.inl rfl)
      have ha : (.text (name a) :: .colon :: tokens a).foldlM Reader.step
          ⟨stack, members, expect, last⟩ =
            some ⟨.object members (name a) :: stack, [], .after, some (value a)⟩ := by
        rcases hexpect with rfl | rfl
        · exact hvalue
        · exact hvalue
      cases rest with
      | nil =>
          simp only [List.map_cons, List.map_nil, List.intercalate_singleton, List.foldlM_append,
            ha]
          simp [Reader.step, Reader.complete]
      | cons a' rest =>
          have hrest := @ih none .name (fun b hb => h b (List.mem_cons_of_mem a hb))
            (List.cons_ne_nil a' rest) ((name a, value a) :: members) (Or.inl rfl)
          simp only [List.map_cons, List.intercalate_cons_cons, List.append_assoc,
            List.foldlM_append, ha] at hrest ⊢
          simpa [Reader.step] using hrest

theorem denotes_object : Denotes
    (.openBrace :: ([Token.comma].intercalate
      (parts.map fun a => .text (name a) :: .colon :: tokens a) ++ [.closeBrace]))
    (.object (parts.map fun a => (name a, value a))) := by
  intro r hr
  rw [List.foldlM_cons, step_of_due hr (by decide)]
  cases parts with
  | nil => rfl
  | cons a rest => exact foldlM_members h (List.cons_ne_nil a rest) [] (Or.inr rfl)

end Containers

/-- Tokens that are one value and nothing else. -/
theorem ofTokens?_of_denotes (h : Denotes ts v) : ofTokens? ts = some v := by
  rw [ofTokens?, h Reader.start (Or.inl rfl)]
  rfl

theorem Atom.atom?_token (a : Atom) : a.token.atom? = some a.value := by
  cases a with
  | null => rfl
  | bool b => rfl
  | text ps => rfl
  | number n =>
      have hnatural : naturalOf n.whole.chars = Nat.ofDigitChars 10 n.whole.chars 0 := by
        simp [naturalOf, Nat.ofDigitChars_eq_foldl, Nat.mul_comm]
      simp only [Atom.token, Atom.value, Number.token, Number.value, hnatural]
      split <;> rfl

namespace Spelling

theorem denotes_tokens (s : Spelling) : Denotes s.tokens s.value := by
  induction s with
  | atom a => exact denotes_atom a.atom?_token
  | spaced before s after ih => exact ih
  | array gap items ih =>
      rw [tokens_array, value_array]
      exact denotes_array ih
  | object gap members ih =>
      rw [tokens_object, value_object]
      exact denotes_object ih

/-- **Every text of the grammar is read**, and as the value that it spells. -/
theorem parse?_chars (s : Spelling) : parse? (String.ofList s.chars) = some s.value := by
  have hscans : Scans s.chars s.tokens [] := s.scans_chars endsNumber_nil
  rw [parse?, String.toList_ofList, lex_of_scans hscans, Option.bind_some]
  exact ofTokens?_of_denotes s.denotes_tokens

end Spelling

/-- The text of an object is read as its members, in order. -/
theorem ObjectText.parse?_text (o : ObjectText) : parse? o.text = some (.object o.entries) := by
  rw [text, Spelling.parse?_chars, value_spelling]

end PeerCall.Json
