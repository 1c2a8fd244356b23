import PeerCall.Text.Hex

/-!
# JSON tokens

A JSON text as a list of tokens; blanks between tokens vanish here. A string whose escapes leave a
surrogate unpaired is still a token, `text none`: it may stand where nobody reads it. Of a number
only the plain naturals keep their value, since no field takes any other.
-/

namespace PeerCall.Json

/-- A JSON string, or none where an unpaired surrogate escape leaves it without a value. -/
abbrev Text := Option String

/-- The pieces that a JSON text is made of. -/
inductive Token
  | openBracket
  | closeBracket
  | openBrace
  | closeBrace
  | comma
  | colon
  | null
  | bool (b : Bool)
  /-- A number written as digits alone. -/
  | natural (n : Nat)
  /-- A number with a sign, a fraction or an exponent. -/
  | otherNumber
  | text (t : Text)
  deriving DecidableEq, Repr

/-- Characters that may stand between tokens. -/
def isBlank (c : Char) : Bool := c = ' ' || c = '\t' || c = '\n' || c = '\r'

/-- The character that a one-letter escape stands for. -/
def simpleEscape? : Char → Option Char
  | '"' => some '"'
  | '\\' => some '\\'
  | '/' => some '/'
  | 'b' => some '\x08'
  | 'f' => some '\x0c'
  | 'n' => some '\n'
  | 'r' => some '\r'
  | 't' => some '\t'
  | _ => none

/-- The number that four hexadecimal digits stand for. -/
def unit? (a b c d : Char) : Option Nat := do
  let a ← Text.Hex.value? a
  let b ← Text.Hex.value? b
  let c ← Text.Hex.value? c
  let d ← Text.Hex.value? d
  pure (((a * 16 + b) * 16 + c) * 16 + d)

/-- First half of a surrogate pair. -/
def isHighSurrogate (n : Nat) : Bool := 0xD800 ≤ n && n ≤ 0xDBFF

/-- Second half of a surrogate pair. -/
def isLowSurrogate (n : Nat) : Bool := 0xDC00 ≤ n && n ≤ 0xDFFF

/-- Read a string behind its opening quote. `done` holds what was read, last character first, and
is none once a surrogate stood alone; `high` holds the first half of a pair whose second half has
to come next. -/
def lexText : List Char → Option (List Char) → Option Nat → Option (Text × List Char)
  | [], _, _ => none
  | '"' :: rest, done, high =>
    some (if high.isSome then none else done.map fun cs => String.ofList cs.reverse, rest)
  | '\\' :: 'u' :: a :: b :: c :: d :: rest, done, high => do
    let n ← unit? a b c d
    match high with
    | some h =>
      if isLowSurrogate n then
        let code := 0x10000 + (h - 0xD800) * 0x400 + (n - 0xDC00)
        lexText rest (done.map (Char.ofNat code :: ·)) none
      else if isHighSurrogate n then lexText rest none (some n)
      else lexText rest none none
    | none =>
      if isHighSurrogate n then lexText rest done (some n)
      else if isLowSurrogate n then lexText rest none none
      else lexText rest (done.map (Char.ofNat n :: ·)) none
  | '\\' :: c :: rest, done, high => do
    let c ← simpleEscape? c
    lexText rest (if high.isSome then none else done.map (c :: ·)) none
  | '\\' :: [], _, _ => none
  | c :: rest, done, high =>
    if c.toNat < 0x20 then none
    else lexText rest (if high.isSome then none else done.map (c :: ·)) none

/-- The digits at the front, and what follows them. -/
def spanDigits (cs : List Char) : List Char × List Char := cs.span Char.isDigit

/-- The number that decimal digits stand for. -/
def naturalOf (digits : List Char) : Nat := digits.foldl (fun n c => n * 10 + (c.toNat - 48)) 0

/-- Read the part of a number behind its sign: no zero in front of other digits, and digits after
a point and in an exponent. -/
def lexUnsigned (cs : List Char) : Option (Token × List Char) :=
  let (whole, rest) := spanDigits cs
  if whole.isEmpty || (whole.head? = some '0' && whole.length > 1) then none
  else do
    let (fraction, rest) ← match rest with
      | '.' :: rest =>
        let (digits, rest) := spanDigits rest
        if digits.isEmpty then none else some (true, rest)
      | _ => some (false, rest)
    let (exponent, rest) ← match rest with
      | e :: rest' =>
        if e = 'e' || e = 'E' then
          let unsigned := match rest' with
            | s :: r => if s = '+' || s = '-' then r else rest'
            | [] => rest'
          let (digits, rest) := spanDigits unsigned
          if digits.isEmpty then none else some (true, rest)
        else some (false, rest)
      | [] => some (false, rest)
    pure (if fraction || exponent then .otherNumber else .natural (naturalOf whole), rest)

/-- Read a word behind its first letter. -/
def lexWord (word : List Char) (token : Token) (cs : List Char) : Option (Token × List Char) :=
  if word.isPrefixOf cs then some (token, cs.drop word.length) else none

/-- Read one token that starts with the given character. -/
def lexToken (c : Char) (rest : List Char) : Option (Token × List Char) :=
  match c with
  | '[' => some (.openBracket, rest)
  | ']' => some (.closeBracket, rest)
  | '\x7b' => some (.openBrace, rest)
  | '\x7d' => some (.closeBrace, rest)
  | ',' => some (.comma, rest)
  | ':' => some (.colon, rest)
  | '"' => (lexText rest (some []) none).map fun (t, rest) => (.text t, rest)
  | 'n' => lexWord "ull".toList .null rest
  | 't' => lexWord "rue".toList (.bool true) rest
  | 'f' => lexWord "alse".toList (.bool false) rest
  | '-' => (lexUnsigned rest).map fun (_, rest) => (.otherNumber, rest)
  | c => if c.isDigit then lexUnsigned (c :: rest) else none

/-- Split a text into tokens; each takes one character at least. -/
def lex (text : List Char) : Option (List Token) := go text.length text []
where
  go : Nat → List Char → List Token → Option (List Token)
    | _, [], done => some done.reverse
    | 0, _ :: _, _ => none
    | fuel + 1, c :: rest, done =>
      if isBlank c then go fuel rest done
      else do
        let (token, rest) ← lexToken c rest
        go fuel rest (token :: done)

end PeerCall.Json
