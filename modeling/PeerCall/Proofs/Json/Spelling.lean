import PeerCall.Json.Value

/-!
# JSON texts as trees

The grammar of JSON, with all that it leaves to the writer: blanks around every value and name,
escapes that stand for characters which need none, digits of either case, fractions and exponents.
A tree says how a value is spelled, so it has characters, and it has a value. Nothing here reads a
text: what stands here is the measure for the reader.
-/
namespace PeerCall.Json

/-! ## Strings -/

/-- A hexadecimal digit, of either case. -/
structure HexDigit where
  char : Char
  value : Nat
  reads : Text.Hex.value? char = some value

/-- Four hexadecimal digits. -/
structure CodeUnit where
  first : HexDigit
  second : HexDigit
  third : HexDigit
  fourth : HexDigit

/-- The number that the digits stand for. -/
def CodeUnit.value (u : CodeUnit) : Nat :=
  ((u.first.value * 16 + u.second.value) * 16 + u.third.value) * 16 + u.fourth.value

/-- The letters that may follow a backslash, and what they stand for. -/
def letters : List (Char × Char) :=
  [('"', '"'), ('\\', '\\'), ('/', '/'), ('b', '\x08'), ('f', '\x0c'), ('n', '\n'), ('r', '\r'),
    ('t', '\t')]

/-- Whether a character may stand for itself. -/
def isPlain (c : Char) : Bool := c ≠ '"' && c ≠ '\\' && !decide (c.toNat < 0x20)

/-- What a string is made of. -/
inductive Piece
  /-- A character that stands for itself. -/
  | plain (c : Char) (h : isPlain c = true)
  /-- A backslash and a letter. -/
  | letter (l c : Char) (h : (l, c) ∈ letters)
  /-- A backslash and the number of a UTF-16 unit. -/
  | unit (u : CodeUnit)

/-- The characters of a piece. -/
def Piece.chars : Piece → List Char
  | .plain c _ => [c]
  | .letter l _ _ => ['\\', l]
  | .unit u => ['\\', 'u', u.first.char, u.second.char, u.third.char, u.fourth.char]

/-- The character that two halves of a pair stand for. -/
def paired (high low : Nat) : Char :=
  Char.ofNat (0x10000 + (high - 0xD800) * 0x400 + (low - 0xDC00))

/-- What a string stands for, unless it has half of a pair without the other half. -/
def meaning? : List Piece → Option (List Char)
  | [] => some []
  | .plain c _ :: rest => (meaning? rest).map (c :: ·)
  | .letter _ c _ :: rest => (meaning? rest).map (c :: ·)
  | .unit u :: rest =>
    if isHighSurrogate u.value then
      match rest with
      | .unit w :: rest =>
        if isLowSurrogate w.value then (meaning? rest).map (paired u.value w.value :: ·) else none
      | _ => none
    else if isLowSurrogate u.value then none
    else (meaning? rest).map (Char.ofNat u.value :: ·)

section Units

variable {u w : CodeUnit} (rest : List Piece)

/-- A unit that is half of no pair is a character. -/
theorem meaning?_unit (hhigh : isHighSurrogate u.value = false)
    (hlow : isLowSurrogate u.value = false) :
    meaning? (.unit u :: rest) = (meaning? rest).map (Char.ofNat u.value :: ·) := by
  rw [meaning?.eq_def]
  simp [hhigh, hlow]

theorem meaning?_low (hhigh : isHighSurrogate u.value = false)
    (hlow : isLowSurrogate u.value = true) : meaning? (.unit u :: rest) = none := by
  rw [meaning?.eq_def]
  simp [hhigh, hlow]

theorem meaning?_pair (hhigh : isHighSurrogate u.value = true)
    (hlow : isLowSurrogate w.value = true) : meaning? (.unit u :: .unit w :: rest) =
      (meaning? rest).map (paired u.value w.value :: ·) := by
  rw [meaning?.eq_def]
  simp [hhigh, hlow]

/-- Half of a pair in front of anything but the other half. -/
theorem meaning?_alone (hhigh : isHighSurrogate u.value = true)
    (hrest : ∀ w rest', rest = .unit w :: rest' → isLowSurrogate w.value = false) :
    meaning? (.unit u :: rest) = none := by
  rw [meaning?.eq_def]
  simp only [hhigh, if_true]
  split
  · rename_i w rest'
    rw [hrest w rest' rfl]
    rfl
  · rfl

end Units

/-- The text of a string. -/
def textOf (ps : List Piece) : Text := (meaning? ps).map String.ofList

/-- A string without escapes. -/
def plainly (s : String) (h : s.toList.all isPlain = true) : List Piece :=
  s.toList.attach.map fun c => .plain c.1 (List.all_eq_true.mp h c.1 c.2)

/-- A string between its quotes. -/
def quoted (ps : List Piece) : List Char := '"' :: (ps.flatMap Piece.chars ++ ['"'])

/-! ## Numbers -/

/-- Decimal digits, one at least. -/
structure Digits where
  chars : List Char
  ne_nil : chars ≠ []
  all_isDigit : chars.all Char.isDigit = true

theorem Digits.isDigit (d : Digits) : ∀ c ∈ d.chars, c.isDigit = true :=
  List.all_eq_true.mp d.all_isDigit

/-- An exponent, behind its mark. -/
structure Exponent where
  mark : Char
  isMark : mark = 'e' ∨ mark = 'E'
  sign : Option Char
  isSign : ∀ s ∈ sign, s = '+' ∨ s = '-'
  digits : Digits

/-- The characters of an exponent. -/
def Exponent.chars (e : Exponent) : List Char := e.mark :: (e.sign.toList ++ e.digits.chars)

/-- A number. -/
structure Number where
  negative : Bool
  whole : Digits
  /-- No zero stands in front of other digits. -/
  canonical : whole.chars.head? = some '0' → whole.chars.length = 1
  fraction : Option Digits
  exponent : Option Exponent

namespace Number

/-- The characters of a fraction, with its point. -/
def fractionChars (n : Number) : List Char := (n.fraction.map fun d => '.' :: d.chars).getD []

/-- The characters of an exponent, with its mark. -/
def exponentChars (n : Number) : List Char := (n.exponent.map Exponent.chars).getD []

/-- The characters of a number. -/
def chars (n : Number) : List Char :=
  (if n.negative then ['-'] else []) ++ (n.whole.chars ++ (n.fractionChars ++ n.exponentChars))

/-- Whether a number is written as digits alone. -/
def isPlain (n : Number) : Bool := !n.negative && !(n.fraction.isSome || n.exponent.isSome)

/-- The value of a number. -/
def value (n : Number) : Value :=
  if n.isPlain then .natural (Nat.ofDigitChars 10 n.whole.chars 0) else .otherNumber

end Number

/-! ## Values -/

/-- Characters that mean nothing. -/
structure Blanks where
  chars : List Char
  all_isBlank : chars.all isBlank = true

/-- No blank. -/
def Blanks.none : Blanks := ⟨[], rfl⟩

theorem Blanks.isBlank (b : Blanks) : ∀ c ∈ b.chars, isBlank c = true :=
  List.all_eq_true.mp b.all_isBlank

/-- A value without parts. -/
inductive Atom
  | null
  | bool (b : Bool)
  | number (n : Number)
  | text (ps : List Piece)

/-- The characters of such a value. -/
def Atom.chars : Atom → List Char
  | .null => "null".toList
  | .bool true => "true".toList
  | .bool false => "false".toList
  | .number n => n.chars
  | .text ps => quoted ps

def Atom.value : Atom → Value
  | .null => .null
  | .bool b => .bool b
  | .number n => n.value
  | .text ps => .text (textOf ps)

/-- The name of a member, with the blanks around it. -/
structure Name where
  before : Blanks
  pieces : List Piece
  after : Blanks

/-- The characters of a name. -/
def Name.chars (n : Name) : List Char := n.before.chars ++ (quoted n.pieces ++ n.after.chars)

/-- What a name stands for. -/
def Name.text (n : Name) : Text := textOf n.pieces

/-- A name without blanks around it. -/
def Name.bare (n : Name) : Name := { n with before := .none, after := .none }

/-- How a value is spelled. A container may hold blanks even if it holds nothing else. -/
inductive Spelling
  | atom (a : Atom)
  | spaced (before : Blanks) (s : Spelling) (after : Blanks)
  | array (gap : Blanks) (items : List Spelling)
  | object (gap : Blanks) (members : List (Name × Spelling))

/-- What to make of each kind of value, once something was made of its parts. -/
structure Fold (β : Type) where
  atom : Atom → β
  spaced : Blanks → β → Blanks → β
  array : Blanks → List β → β
  object : Blanks → List (Name × β) → β

namespace Spelling

variable {β : Type}

mutual

/-- What is made of a value, from its parts on. -/
def fold (f : Fold β) : Spelling → β
  | .atom a => f.atom a
  | .spaced before s after => f.spaced before (s.fold f) after
  | .array gap items => f.array gap (foldItems f items)
  | .object gap members => f.object gap (foldMembers f members)

def foldItems (f : Fold β) : List Spelling → List β
  | [] => []
  | s :: rest => s.fold f :: foldItems f rest

def foldMembers (f : Fold β) : List (Name × Spelling) → List (Name × β)
  | [] => []
  | (name, s) :: rest => (name, s.fold f) :: foldMembers f rest

end

@[simp] theorem foldItems_eq (f : Fold β) (items : List Spelling) :
    foldItems f items = items.map (fold f) := by
  induction items with
  | nil => rfl
  | cons s rest ih => rw [foldItems, ih, List.map_cons]

@[simp] theorem foldMembers_eq (f : Fold β) (members : List (Name × Spelling)) :
    foldMembers f members = members.map fun m => (m.1, m.2.fold f) := by
  induction members with
  | nil => rfl
  | cons m rest ih => rw [foldMembers, ih, List.map_cons]

/-- What holds of every value if it holds of one whose parts it holds of. -/
@[elab_as_elim, induction_eliminator]
theorem parts {motive : Spelling → Prop} (atom : ∀ a, motive (.atom a))
    (spaced : ∀ before s after, motive s → motive (.spaced before s after))
    (array : ∀ gap items, (∀ s ∈ items, motive s) → motive (.array gap items))
    (object : ∀ gap members, (∀ m ∈ members, motive m.2) → motive (.object gap members)) :
    ∀ s, motive s
  | .atom a => atom a
  | .spaced before s after => spaced before s after (parts atom spaced array object s)
  | .array gap items => array gap items fun s _ => parts atom spaced array object s
  | .object gap members =>
    object gap members fun m _ => parts atom spaced array object m.2
termination_by s => sizeOf s
decreasing_by
  · simp
    omega
  · have hlt := List.sizeOf_lt_of_mem ‹_›
    simp
    omega
  · obtain ⟨name, s⟩ := m
    have hlt := List.sizeOf_lt_of_mem ‹_›
    simp at hlt ⊢
    omega

/-- The characters of a value. -/
def chars : Spelling → List Char := fold
  { atom := Atom.chars
    spaced := fun before cs after => before.chars ++ (cs ++ after.chars)
    array := fun gap items => '[' :: (gap.chars ++ ([','].intercalate items ++ [']']))
    object := fun gap members => '\x7b' :: (gap.chars ++
      ([','].intercalate (members.map fun m => m.1.chars ++ ':' :: m.2) ++ ['\x7d'])) }

/-- The value that is spelled. -/
def value : Spelling → Value := fold
  { atom := Atom.value
    spaced := fun _ v _ => v
    array := fun _ items => .array items
    object := fun _ members => .object (members.map fun m => (m.1.text, m.2)) }

/-- The same value without blanks. -/
def bare : Spelling → Spelling := fold
  { atom := .atom
    spaced := fun _ s _ => s
    array := fun _ items => .array .none items
    object := fun _ members => .object .none (members.map fun m => (m.1.bare, m.2)) }

section Equations

variable (before after gap : Blanks) (s : Spelling) (items : List Spelling)
  (members : List (Name × Spelling))

theorem chars_spaced :
    (spaced before s after).chars = before.chars ++ (s.chars ++ after.chars) := rfl

theorem chars_array : (array gap items).chars =
    '[' :: (gap.chars ++ ([','].intercalate (items.map chars) ++ [']'])) := by
  rw [chars, fold, foldItems_eq]

theorem chars_object : (object gap members).chars = '\x7b' :: (gap.chars ++
    ([','].intercalate (members.map fun m => m.1.chars ++ ':' :: m.2.chars) ++ ['\x7d'])) := by
  rw [chars, fold, foldMembers_eq]
  simp only [List.map_map]
  rfl

theorem value_spaced : (spaced before s after).value = s.value := rfl

theorem value_array : (array gap items).value = .array (items.map value) := by
  rw [value, fold, foldItems_eq]

theorem value_object :
    (object gap members).value = .object (members.map fun m => (m.1.text, m.2.value)) := by
  rw [value, fold, foldMembers_eq]
  simp only [List.map_map]
  rfl

theorem bare_spaced : (spaced before s after).bare = s.bare := rfl

theorem bare_array : (array gap items).bare = array .none (items.map bare) := by
  rw [bare, fold, foldItems_eq]

theorem bare_object :
    (object gap members).bare = object .none (members.map fun m => (m.1.bare, m.2.bare)) := by
  rw [bare, fold, foldMembers_eq]
  simp only [List.map_map]
  rfl

/-- Blanks mean nothing. -/
theorem value_bare : s.bare.value = s.value := by
  induction s with
  | atom a => rfl
  | spaced before s after ih => rw [bare_spaced, value_spaced, ih]
  | array gap items ih =>
      rw [bare_array, value_array, value_array, List.map_map]
      exact congrArg Value.array (List.map_congr_left ih)
  | object gap members ih =>
      rw [bare_object, value_object, value_object, List.map_map]
      refine congrArg Value.object (List.map_congr_left fun m hm => ?_)
      exact congrArg (Prod.mk m.1.text) (ih m hm)

end Equations

end Spelling

/-- The text of an object, with blanks in front of it, behind it and behind its first brace. -/
structure ObjectText where
  lead : Blanks
  gap : Blanks
  members : List (Name × Spelling)
  trail : Blanks

namespace ObjectText

/-- The object as it is spelled. -/
def spelling (o : ObjectText) : Spelling := .spaced o.lead (.object o.gap o.members) o.trail

/-- The text. -/
def text (o : ObjectText) : String := String.ofList o.spelling.chars

/-- What the names and the values of the members stand for, in order. -/
def entries (o : ObjectText) : List (Text × Value) :=
  o.members.map fun m => (m.1.text, m.2.value)

/-- The same object without blanks. -/
def bare (o : ObjectText) : ObjectText :=
  ⟨.none, .none, o.members.map fun m => (m.1.bare, m.2.bare), .none⟩

theorem value_spelling (o : ObjectText) : o.spelling.value = .object o.entries := by
  rw [spelling, Spelling.value_spaced, Spelling.value_object, entries]

/-- Blanks mean nothing. -/
theorem entries_bare (o : ObjectText) : o.bare.entries = o.entries := by
  rw [entries, bare, List.map_map]
  refine List.map_congr_left fun m _ => ?_
  exact congrArg (Prod.mk m.1.text) m.2.value_bare

end ObjectText

end PeerCall.Json
