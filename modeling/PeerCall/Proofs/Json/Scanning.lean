import PeerCall.Proofs.Json.Lexing
import PeerCall.Proofs.Json.Spelling

/-!
# The tokens of a JSON text

However a value is spelled, its characters are read as its tokens. Blanks are no tokens, but each
takes a step; so in contrast to tokens alone a text takes no fixed number of steps, only at most one
for each character. What follows a value is a comma, a closing bracket or brace, a blank or the end,
and no number goes on with one of these.
-/
namespace PeerCall.Json

variable {c : Char} {cs cs' tail : List Char} {ts ts' : List Token}

/-! ## Tokens between blanks -/

/-- In front of `tail`, the characters are read as these tokens, in one step for each at most. -/
def Scans (cs : List Char) (ts : List Token) (tail : List Char) : Prop :=
  ∃ steps ≤ cs.length, ∀ fuel done,
    lex.go (steps + fuel) (cs ++ tail) done = lex.go fuel tail (ts.reverse ++ done)

theorem Lexes.scans (h : Lexes cs ts tail) : Scans cs ts tail := ⟨ts.length, h.length_le, h.go_eq⟩

theorem scans_token {t : Token} (hblank : isBlank c = false)
    (h : lexToken c tail = some (t, tail)) : Scans [c] [t] tail := by
  have htoken : Lexes [c] [t] tail := lexes_token hblank h
  exact htoken.scans

theorem scans_nil : Scans [] [] tail := ⟨0, Nat.le_refl 0, fun fuel done => by simp⟩

theorem Scans.append (h : Scans cs ts (cs' ++ tail)) (h' : Scans cs' ts' tail) :
    Scans (cs ++ cs') (ts ++ ts') tail := by
  obtain ⟨steps, hsteps, hgo⟩ := h
  obtain ⟨steps', hsteps', hgo'⟩ := h'
  refine ⟨steps + steps', ?_, ?_⟩
  · rw [List.length_append]
    exact Nat.add_le_add hsteps hsteps'
  · intro fuel done
    rw [Nat.add_assoc, List.append_assoc, hgo, hgo', List.reverse_append, List.append_assoc]

/-- Blanks are no tokens. -/
theorem scans_blanks (b : Blanks) : Scans b.chars [] tail := by
  refine ⟨b.chars.length, Nat.le_refl _, ?_⟩
  have hblanks := b.isBlank
  generalize b.chars = cs at hblanks
  intro fuel done
  induction cs with
  | nil => simp
  | cons c cs ih =>
      have hc : isBlank c = true := hblanks c List.mem_cons_self
      have hrest := ih fun c' hc' => hblanks c' (List.mem_cons_of_mem c hc')
      rw [List.length_cons, Nat.add_right_comm, List.cons_append, lex.go, hc, if_pos rfl]
      exact hrest

/-- A text that consists of tokens and blanks. -/
theorem lex_of_scans (h : Scans cs ts []) : lex cs = some ts := by
  obtain ⟨steps, hsteps, hgo⟩ := h
  obtain ⟨fuel, hfuel⟩ := Nat.exists_eq_add_of_le hsteps
  have hall := hgo fuel []
  rw [List.append_nil, List.append_nil, ← hfuel] at hall
  rw [lex, hall]
  cases fuel <;> simp [lex.go]

/-- Parts with commas between them, each of which may stand in front of whatever ends a number. -/
theorem scans_intercalate {α : Type} {chars : α → List Char} {tokens : α → List Token}
    {parts : List α}
    (h : ∀ a ∈ parts, ∀ {tail}, EndsNumber tail → Scans (chars a) (tokens a) tail)
    (htail : EndsNumber tail) : Scans ([','].intercalate (parts.map chars))
      ([Token.comma].intercalate (parts.map tokens)) tail := by
  induction parts with
  | nil => exact scans_nil
  | cons a rest ih =>
      have hrest := ih fun a' ha' => h a' (List.mem_cons_of_mem a ha')
      have ha := fun {tail} => @h a List.mem_cons_self tail
      cases rest with
      | nil =>
          simp only [List.map_cons, List.map_nil, List.intercalate_singleton]
          exact ha htail
      | cons a' rest =>
          simp only [List.map_cons, List.intercalate_cons_cons, List.append_assoc] at hrest ⊢
          have hcomma : Scans [','] [.comma] ([','].intercalate
              (chars a' :: rest.map chars) ++ tail) := scans_token (by decide) rfl
          exact (ha (endsNumber_cons (by decide))).append (hcomma.append hrest)

theorem endsNumber_blanks (b : Blanks) (htail : EndsNumber tail) :
    EndsNumber (b.chars ++ tail) := by
  have hblanks := b.isBlank
  cases hchars : b.chars with
  | nil => exact htail
  | cons c cs =>
      have hc := hblanks c (by rw [hchars]; exact List.mem_cons_self)
      refine endsNumber_cons ?_
      simp only [isBlank, Bool.or_eq_true, decide_eq_true_eq] at hc
      rcases hc with ((rfl | rfl) | rfl) | rfl <;> decide

/-! ## Strings -/

theorem isPlain_iff : isPlain c = true ↔ c ≠ '"' ∧ c ≠ '\\' ∧ ¬ c.toNat < 0x20 := by
  simp [isPlain, and_assoc]

theorem simpleEscape?_of_mem {l : Char} (h : (l, c) ∈ letters) :
    l ≠ 'u' ∧ simpleEscape? l = some c := by
  have hall : letters.all (fun x => x.1 ≠ 'u' && simpleEscape? x.1 = some x.2) = true := by
    decide
  simpa using List.all_eq_true.mp hall (l, c) h

theorem unit?_eq (u : CodeUnit) :
    unit? u.first.char u.second.char u.third.char u.fourth.char = some u.value := by
  simp only [unit?, u.first.reads, u.second.reads, u.third.reads, u.fourth.reads,
    Option.bind_eq_bind, Option.bind_some]
  rfl

/-- The text of a string that is read to its end, last character first in what was read already. -/
def finished (done rest : Option (List Char)) : Text :=
  done.bind fun cs => rest.map fun cs' => String.ofList (cs.reverse ++ cs')

@[simp] theorem finished_none (done : Option (List Char)) : finished done none = none := by
  cases done <;> rfl

@[simp] theorem none_finished (rest : Option (List Char)) : finished none rest = none := rfl

@[simp] theorem finished_cons (c : Char) (done rest : Option (List Char)) :
    finished (done.map (c :: ·)) rest = finished done (rest.map (c :: ·)) := by
  cases done with
  | none => rfl
  | some cs =>
      cases rest with
      | none => rfl
      | some cs' =>
          simp only [finished, Option.map_some, Option.bind_some, List.reverse_cons,
            List.append_assoc, List.singleton_append]

theorem finished_start (ps : List Piece) : finished (some []) (meaning? ps) = textOf ps := by
  simp [finished, textOf]

/-- A string is read up to its quote, in whatever state its reader is: with nothing pending, or
behind the first half of a pair. -/
theorem lexText_pieces (ps : List Piece) (tail : List Char) :
    (∀ done, lexText (ps.flatMap Piece.chars ++ '"' :: tail) done none =
      some (finished done (meaning? ps), tail)) ∧
    ∀ u : CodeUnit, isHighSurrogate u.value = true → ∀ done,
      lexText (ps.flatMap Piece.chars ++ '"' :: tail) done (some u.value) =
        some (finished done (meaning? (.unit u :: ps)), tail) := by
  induction ps with
  | nil =>
      refine ⟨fun done => ?_, fun u hu done => ?_⟩
      · cases done <;> simp [lexText, meaning?, finished]
      · simp [lexText, meaning?_alone [] hu]
  | cons p ps ih =>
      obtain ⟨ih, ihhigh⟩ := ih
      cases p with
      | plain c h =>
          obtain ⟨hquote, hback, hcontrol⟩ := isPlain_iff.mp h
          refine ⟨fun done => ?_, fun u hu done => ?_⟩
          · simp [Piece.chars, lexText_plain hquote hback hcontrol, ih, meaning?]
          · simp [Piece.chars, lexText_plain hquote hback hcontrol, ih, meaning?_alone _ hu]
      | letter l c h =>
          obtain ⟨hletter, hsimple⟩ := simpleEscape?_of_mem h
          refine ⟨fun done => ?_, fun u hu done => ?_⟩
          · simp [Piece.chars, lexText_letter hletter hsimple, ih, meaning?]
          · simp [Piece.chars, lexText_letter hletter hsimple, ih, meaning?_alone _ hu]
      | unit w =>
          have hunit := fun done => @lexText_unit (ps.flatMap Piece.chars ++ '"' :: tail) _ _ _ _ _
            (unit?_eq w) done
          have hunit' := fun done => @lexText_unit_of_high (ps.flatMap Piece.chars ++ '"' :: tail)
            _ _ _ _ _ (unit?_eq w) done
          simp only [List.flatMap_cons, Piece.chars, List.cons_append, List.nil_append, hunit,
            hunit']
          by_cases hhigh : isHighSurrogate w.value = true
          · refine ⟨fun done => ?_, fun u hu done => ?_⟩
            · rw [if_pos hhigh, ihhigh w hhigh]
            · by_cases hlow : isLowSurrogate w.value = true
              · simp [hlow, ih, meaning?_pair ps hu hlow, paired]
              · simp [hlow, hhigh, ihhigh w hhigh, meaning?_alone _ hu]
          · refine ⟨fun done => ?_, fun u hu done => ?_⟩
            · by_cases hlow : isLowSurrogate w.value = true
              · simp [hhigh, hlow, ih, meaning?_low ps (by simpa using hhigh) hlow]
              · simp [hhigh, hlow, ih,
                  meaning?_unit ps (by simpa using hhigh) (by simpa using hlow)]
            · by_cases hlow : isLowSurrogate w.value = true
              · simp [hlow, ih, meaning?_pair ps hu hlow, paired]
              · simp [hlow, hhigh, ih, meaning?_alone _ hu]

/-- A string is one token. -/
theorem lexes_quoted (ps : List Piece) (tail : List Char) :
    Lexes (quoted ps) [.text (textOf ps)] tail := by
  refine lexes_token (by decide) ?_
  rw [List.append_assoc, List.singleton_append]
  simp only [lexToken, (lexText_pieces ps tail).1, Option.map_some, finished_start]

/-! ## Numbers -/

/-- Read a fraction if there is one: whether there is, and what follows. -/
def lexFraction (cs : List Char) : Option (Bool × List Char) :=
  match cs with
  | '.' :: rest =>
    let (digits, rest) := spanDigits rest
    if digits.isEmpty then none else some (true, rest)
  | _ => some (false, cs)

/-- What stands behind a sign, if there is one. -/
def unsigned (cs : List Char) : List Char :=
  match cs with
  | s :: rest => if s = '+' || s = '-' then rest else cs
  | [] => cs

/-- Read an exponent if there is one. -/
def lexExponent (cs : List Char) : Option (Bool × List Char) :=
  match cs with
  | e :: rest =>
    if e = 'e' || e = 'E' then
      let (digits, rest) := spanDigits (unsigned rest)
      if digits.isEmpty then none else some (true, rest)
    else some (false, cs)
  | [] => some (false, cs)

/-- A number is read part by part. -/
theorem lexUnsigned_eq (cs : List Char) : lexUnsigned cs =
    let whole := (spanDigits cs).1
    if whole.isEmpty || (whole.head? = some '0' && whole.length > 1) then none
    else (lexFraction (spanDigits cs).2).bind fun fraction =>
      (lexExponent fraction.2).bind fun exponent =>
        some (if fraction.1 || exponent.1 then .otherNumber else .natural (naturalOf whole),
          exponent.2) := by
  have hexponent : ∀ (fraction : Bool) (whole cs : List Char), (match cs with
      | e :: rest =>
        if e = 'e' || e = 'E' then
          let (digits, rest) := spanDigits (unsigned rest)
          if digits.isEmpty then none
          else some
            (if fraction || true then Token.otherNumber else .natural (naturalOf whole), rest)
        else some (if fraction || false then .otherNumber else .natural (naturalOf whole), cs)
      | [] => some (if fraction || false then .otherNumber else .natural (naturalOf whole), cs)) =
      (lexExponent cs).bind fun exponent =>
        some (if fraction || exponent.1 then .otherNumber else .natural (naturalOf whole),
          exponent.2) := by
    intro fraction whole cs
    unfold lexExponent
    split
    · split
      · dsimp only
        split <;> rfl
      · rfl
    · rfl
  rw [lexUnsigned]
  generalize spanDigits cs = x
  obtain ⟨whole, rest⟩ := x
  dsimp only
  split
  · rfl
  · cases rest with
    | nil => rfl
    | cons c rest =>
        by_cases hpoint : c = '.'
        · subst hpoint
          have hrest := hexponent true whole (spanDigits rest).2
          cases hdigits : (spanDigits rest).1.isEmpty with
          | true => simp [lexFraction, hdigits]
          | false =>
              simp only [lexFraction, hdigits]
              exact hrest
        · have hrest := hexponent false whole (c :: rest)
          have hfraction : lexFraction (c :: rest) = some (false, c :: rest) := by
            simp [lexFraction, hpoint]
          rw [hfraction, Option.bind_some]
          split
          · rename_i hcons
            exact absurd (List.cons.inj hcons).1 hpoint
          · exact hrest

namespace Exponent

variable (e : Exponent)

theorem mark_ne : e.mark.isDigit = false ∧ e.mark ≠ '.' := by
  rcases e.isMark with h | h
  · rw [h]
    decide
  · rw [h]
    decide

theorem unsigned_eq (tail : List Char) :
    unsigned (e.sign.toList ++ (e.digits.chars ++ tail)) = e.digits.chars ++ tail := by
  cases hsign : e.sign with
  | some s => simp [unsigned, e.isSign s hsign]
  | none =>
      cases hdigits : e.digits.chars with
      | nil => exact absurd hdigits e.digits.ne_nil
      | cons d ds =>
          have hd : d.isDigit = true :=
            e.digits.isDigit d (by rw [hdigits]; exact List.mem_cons_self)
          have hne : ¬ (d = '+' ∨ d = '-') := by
            rintro (rfl | rfl) <;> cases hd
          simp [unsigned, hne]

end Exponent

namespace Number

variable (n : Number)

/-- No digit and no point stand behind the digits of a fraction. -/
theorem exponentChars_head (htail : EndsNumber tail) (c : Char) (rest : List Char)
    (h : n.exponentChars ++ tail = c :: rest) : c.isDigit = false ∧ c ≠ '.' := by
  cases hexponent : n.exponent with
  | none =>
      rw [exponentChars, hexponent] at h
      obtain ⟨hdigit, hpoint, -⟩ := htail c rest h
      exact ⟨hdigit, hpoint⟩
  | some e =>
      rw [exponentChars, hexponent] at h
      obtain ⟨rfl, -⟩ := List.cons.inj h
      exact e.mark_ne

theorem endsDigits_exponentChars (htail : EndsNumber tail) :
    EndsDigits (n.exponentChars ++ tail) :=
  fun c rest h => (n.exponentChars_head htail c rest h).1

/-- What follows the whole part of a number is no digit. -/
theorem endsDigits_ending (htail : EndsNumber tail) :
    EndsDigits (n.fractionChars ++ (n.exponentChars ++ tail)) := by
  cases hfraction : n.fraction with
  | none =>
      rw [fractionChars, hfraction]
      exact n.endsDigits_exponentChars htail
  | some d =>
      rintro c rest h
      rw [fractionChars, hfraction] at h
      obtain ⟨rfl, -⟩ := List.cons.inj h
      decide

theorem lexExponent_eq (htail : EndsNumber tail) :
    lexExponent (n.exponentChars ++ tail) = some (n.exponent.isSome, tail) := by
  cases hexponent : n.exponent with
  | none =>
      rw [exponentChars, hexponent]
      cases tail with
      | nil => rfl
      | cons c rest =>
          obtain ⟨-, -, he, hE⟩ := htail c rest rfl
          simp [lexExponent, he, hE]
  | some e =>
      have hspan := spanDigits_append e.digits.isDigit htail.endsDigits
      simp [exponentChars, hexponent, lexExponent, Exponent.chars, e.isMark, e.unsigned_eq, hspan,
        e.digits.ne_nil]

theorem lexFraction_eq (htail : EndsNumber tail) :
    lexFraction (n.fractionChars ++ (n.exponentChars ++ tail)) =
      some (n.fraction.isSome, n.exponentChars ++ tail) := by
  cases hfraction : n.fraction with
  | none =>
      rw [fractionChars, hfraction]
      have hhead := n.exponentChars_head htail
      generalize n.exponentChars ++ tail = cs at hhead
      cases cs with
      | nil => rfl
      | cons c rest => simp [lexFraction, (hhead c rest rfl).2]
  | some d =>
      have hspan := spanDigits_append d.isDigit (n.endsDigits_exponentChars htail)
      simp [fractionChars, hfraction, lexFraction, hspan, d.ne_nil]

theorem lexUnsigned_number (htail : EndsNumber tail) :
    lexUnsigned (n.whole.chars ++ (n.fractionChars ++ (n.exponentChars ++ tail))) =
      some (if n.fraction.isSome || n.exponent.isSome then .otherNumber
        else .natural (naturalOf n.whole.chars), tail) := by
  have hspan := spanDigits_append n.whole.isDigit (n.endsDigits_ending htail)
  have hzero : (n.whole.chars.head? = some '0' && n.whole.chars.length > 1) = false := by
    by_cases hhead : n.whole.chars.head? = some '0'
    · simp [n.canonical hhead]
    · simp [hhead]
  simp [lexUnsigned_eq, hspan, n.whole.ne_nil, hzero, n.lexFraction_eq htail,
    n.lexExponent_eq htail]

/-- A number is one token. -/
def token (n : Number) : Token :=
  if n.isPlain then .natural (naturalOf n.whole.chars) else .otherNumber

theorem lexes_chars (htail : EndsNumber tail) : Lexes n.chars [n.token] tail := by
  have hunsigned := n.lexUnsigned_number htail
  rw [← List.append_assoc n.fractionChars, ← List.append_assoc n.whole.chars] at hunsigned
  cases hnegative : n.negative with
  | true =>
      have htoken : n.token = .otherNumber := by simp [token, isPlain, hnegative]
      rw [chars, hnegative, htoken]
      refine lexes_token (by decide) ?_
      exact congrArg (Option.map fun x => (Token.otherNumber, x.2)) hunsigned
  | false =>
      have htoken : n.token = if n.fraction.isSome || n.exponent.isSome then .otherNumber
          else .natural (naturalOf n.whole.chars) := by
        cases hends : n.fraction.isSome || n.exponent.isSome <;>
          simp only [token, isPlain, hnegative, hends, Bool.not_false, Bool.not_true, Bool.and_true,
            Bool.and_false, Bool.false_eq_true, if_false, if_true]
      rw [chars, hnegative, htoken]
      cases hwhole : n.whole.chars with
      | nil => exact absurd hwhole n.whole.ne_nil
      | cons c cs =>
          have hc : c.isDigit = true :=
            n.whole.isDigit c (by rw [hwhole]; exact List.mem_cons_self)
          rw [hwhole] at hunsigned
          refine lexes_token (isBlank_of_isDigit hc) ?_
          rw [lexToken_of_isDigit hc]
          exact hunsigned

end Number

/-! ## Values -/

/-- A value without parts is one token. -/
def Atom.token : Atom → Token
  | .null => .null
  | .bool b => .bool b
  | .number n => n.token
  | .text ps => .text (textOf ps)

theorem Atom.lexes_chars (a : Atom) (htail : EndsNumber tail) : Lexes a.chars [a.token] tail := by
  cases a with
  | null => exact lexes_token (by decide) rfl
  | bool b =>
      cases b with
      | true => exact lexes_token (by decide) rfl
      | false => exact lexes_token (by decide) rfl
  | number n => exact n.lexes_chars htail
  | text ps => exact lexes_quoted ps tail

namespace Spelling

/-- The tokens of a value. -/
def tokens : Spelling → List Token := fold
  { atom := fun a => [a.token]
    spaced := fun _ ts _ => ts
    array := fun _ items => .openBracket :: ([Token.comma].intercalate items ++ [.closeBracket])
    object := fun _ members => .openBrace ::
      ([Token.comma].intercalate (members.map fun m => .text m.1.text :: .colon :: m.2) ++
        [.closeBrace]) }

theorem tokens_array (gap : Blanks) (items : List Spelling) : (array gap items).tokens =
    .openBracket :: ([Token.comma].intercalate (items.map tokens) ++ [.closeBracket]) := by
  rw [tokens, fold, foldItems_eq]

theorem tokens_object (gap : Blanks) (members : List (Name × Spelling)) :
    (object gap members).tokens = .openBrace :: ([Token.comma].intercalate
      (members.map fun m => .text m.1.text :: .colon :: m.2.tokens) ++ [.closeBrace]) := by
  rw [tokens, fold, foldMembers_eq]
  simp only [List.map_map]
  rfl

end Spelling

theorem Name.scans_chars (n : Name) (tail : List Char) :
    Scans n.chars [.text n.text] tail := by
  have hquoted := (lexes_quoted n.pieces (n.after.chars ++ tail)).scans
  exact (scans_blanks n.before).append (hquoted.append (scans_blanks n.after))

/-- **Every value is read as its tokens**, however it is spelled. -/
theorem Spelling.scans_chars (s : Spelling) (htail : EndsNumber tail) :
    Scans s.chars s.tokens tail := by
  induction s generalizing tail with
  | atom a => exact (a.lexes_chars htail).scans
  | spaced before s after ih =>
      have hbody := (ih (endsNumber_blanks after htail)).append (scans_blanks after)
      rw [List.append_nil] at hbody
      rw [chars_spaced]
      exact (scans_blanks before).append hbody
  | array gap items ih =>
      rw [chars_array, tokens_array]
      have hbracket : EndsNumber (']' :: tail) := endsNumber_cons (by decide)
      have hitems := scans_intercalate (fun s hs => ih s hs) hbracket
      have hclose : Scans [']'] [.closeBracket] tail := scans_token (by decide) rfl
      exact (scans_token (by decide) rfl).append
        ((scans_blanks gap).append (hitems.append hclose))
  | object gap members ih =>
      rw [chars_object, tokens_object]
      have hmember : ∀ m ∈ members, ∀ {tail}, EndsNumber tail →
          Scans (m.1.chars ++ ':' :: m.2.chars) (.text m.1.text :: .colon :: m.2.tokens) tail := by
        intro m hm tail htail
        have hcolon : Scans [':'] [.colon] (m.2.chars ++ tail) := scans_token (by decide) rfl
        exact (m.1.scans_chars _).append (hcolon.append (ih m hm htail))
      have hbrace : EndsNumber ('\x7d' :: tail) := endsNumber_cons (by decide)
      have hclose : Scans ['\x7d'] [.closeBrace] tail := scans_token (by decide) rfl
      exact (scans_token (by decide) rfl).append
        ((scans_blanks gap).append ((scans_intercalate hmember hbrace).append hclose))

end PeerCall.Json
