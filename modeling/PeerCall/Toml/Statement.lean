import PeerCall.Toml.Moment
import PeerCall.Toml.Number

/-!
# TOML statements

A TOML text as the statements it makes: settings under dotted keys, and headers that open a table
or one more table of a list. Texts are read in all four spellings and whole numbers in all four
bases; fractions, dates and times are told apart from what is malformed, but not kept. Keys and
values nest to a limited depth.
-/

namespace PeerCall.Toml

/-- A key with its dots taken apart. -/
abbrev Path := List String

/-- A value as written. -/
inductive Value
  | text (s : String)
  | whole (n : Int)
  | flag (b : Bool)
  /-- A number that is not whole. -/
  | fraction
  /-- A date, a time of day or both. -/
  | moment
  | list (items : List Value)
  /-- An inline table. -/
  | inlineTable (members : List (Path × Value))

/-- A statement. -/
inductive Statement
  | set (key : Path) (value : Value)
  /-- What follows belongs to a table. -/
  | table (path : Path)
  /-- What follows belongs to a new table at the end of a list. -/
  | item (path : Path)

/-- Blanks within a line. -/
def isSpace (c : Char) : Bool := c = ' ' || c = '\t'

/-- Without blanks at the front. -/
def skipSpace (cs : List Char) : List Char := cs.dropWhile isSpace

/-- A control character other than the tab; none may stand in texts and comments. -/
def isControl (c : Char) : Bool := (c.toNat < 0x20 && c ≠ '\t') || c.toNat = 0x7F

/-- Behind a line's end, if the text starts with one. -/
def newline? : List Char → Option (List Char)
  | '\n' :: rest => some rest
  | '\r' :: '\n' :: rest => some rest
  | _ => none

/-- Without a comment at the front; none if it holds a control character. -/
def skipComment (cs : List Char) : Option (List Char) :=
  match cs with
  | '#' :: rest =>
    let body := rest.takeWhile fun c => c ≠ '\n'
    let behind := rest.drop body.length
    -- A carriage return may close the line, but only in front of its line feed.
    let inner := if body.getLast? = some '\r' && !behind.isEmpty then body.dropLast else body
    if inner.any isControl then none else some behind
  | cs => some cs

/-- Without blanks, line ends and comments at the front. -/
def skipLines : Nat → List Char → Option (List Char)
  | 0, cs => some cs
  | fuel + 1, cs => do
    let cs ← skipComment (skipSpace cs)
    match newline? cs with
    | some rest => skipLines fuel rest
    | none => some cs

/-- Without blanks and line ends at the front. -/
def skipSpaceLines : Nat → List Char → List Char
  | 0, cs => cs
  | fuel + 1, cs =>
    match newline? (skipSpace cs) with
    | some rest => skipSpaceLines fuel rest
    | none => skipSpace cs

/-- Behind the end of a statement's line: blanks and a comment may come first. -/
def endOfLine? (cs : List Char) : Option (List Char) := do
  let cs ← skipComment (skipSpace cs)
  if cs.isEmpty then some [] else newline? cs

/-- The character with a number, unless it is a surrogate or too large. -/
def charOfNumber? (n : Nat) : Option Char := if n.isValidChar then some (Char.ofNat n) else none

/-- The number that hexadecimal digits stand for. -/
def hexNumber? (digits : List Char) : Option Nat :=
  digits.foldlM (fun n c => (Text.Hex.value? c).map (n * 16 + ·)) 0

/-- The character that an escape stands for, behind its backslash. -/
def takeEscape : List Char → Option (Char × List Char)
  | 'b' :: rest => some ('\x08', rest)
  | 't' :: rest => some ('\t', rest)
  | 'n' :: rest => some ('\n', rest)
  | 'f' :: rest => some ('\x0c', rest)
  | 'r' :: rest => some ('\r', rest)
  | '"' :: rest => some ('"', rest)
  | '\\' :: rest => some ('\\', rest)
  | 'u' :: rest => numbered 4 rest
  | 'U' :: rest => numbered 8 rest
  | _ => none
where
  numbered (width : Nat) (cs : List Char) : Option (Char × List Char) := do
    let digits := cs.take width
    if digits.length < width then none
    else
      let c ← charOfNumber? (← hexNumber? digits)
      some (c, cs.drop width)

/-- A text in double quotes, behind the opening one; `done` is what was read, last first. -/
def takeBasic : Nat → List Char → List Char → Option (String × List Char)
  | 0, _, _ => none
  | fuel + 1, done, cs =>
    match cs with
    | [] => none
    | '"' :: rest => some (String.ofList done.reverse, rest)
    | '\\' :: rest => do
      let (c, rest) ← takeEscape rest
      takeBasic fuel (c :: done) rest
    | c :: rest => if isControl c then none else takeBasic fuel (c :: done) rest

/-- A text in single quotes, behind the opening one. -/
def takeLiteral (cs : List Char) : Option (String × List Char) :=
  let body := cs.takeWhile (· ≠ '\x27')
  match cs.drop body.length with
  | _ :: rest => if body.any isControl then none else some (String.ofList body, rest)
  | [] => none

/-- How many quotes of a kind stand at the front. -/
def countQuotes (quote : Char) (cs : List Char) : Nat := (cs.takeWhile (· = quote)).length

/-- A text of several lines, behind its opening quotes. Up to two quotes may stand right in front
of the three that close it. A line feed ends each line, however it was written. -/
def takeLong (quote : Char) : Nat → List Char → List Char → Option (String × List Char)
  | 0, _, _ => none
  | fuel + 1, done, cs =>
    match newline? cs with
    | some rest => takeLong quote fuel ('\n' :: done) rest
    | none =>
      match cs with
      | [] => none
      | c :: rest =>
        if c = quote then
          let n := countQuotes quote cs
          if n < 3 then takeLong quote fuel (c :: done) rest
          else if n ≤ 5 then
            some (String.ofList (List.replicate (n - 3) quote ++ done).reverse, cs.drop n)
          else none
        else if c = '\\' && quote = '"' then
          -- A backslash at the end of a line joins it with what follows its blanks.
          match newline? (skipSpace rest) with
          | some rest => takeLong quote fuel done (skipSpaceLines rest.length rest)
          | none => do
            let (e, rest) ← takeEscape rest
            takeLong quote fuel (e :: done) rest
        else if isControl c then none
        else takeLong quote fuel (c :: done) rest

/-- A text of several lines starts behind the line end that may follow its opening quotes. -/
def takeLongFrom (quote : Char) (cs : List Char) : Option (String × List Char) :=
  takeLong quote (cs.length + 1) [] ((newline? cs).getD cs)

/-- Characters of a key without quotes. -/
def isBareKey (c : Char) : Bool := c.isAlphanum || c = '_' || c = '-'

/-- One part of a key. -/
def takeKeyPart (cs : List Char) : Option (String × List Char) :=
  match cs with
  | '"' :: rest => takeBasic (rest.length + 1) [] rest
  | '\x27' :: rest => takeLiteral rest
  | cs =>
    let part := cs.takeWhile isBareKey
    if part.isEmpty then none else some (String.ofList part, cs.drop part.length)

/-- A key of so many parts at most; blanks may stand around its dots. -/
def takeParts : Nat → List Char → Option (Path × List Char)
  | 0, _ => none
  | room + 1, cs => do
    let (part, rest) ← takeKeyPart (skipSpace cs)
    match skipSpace rest with
    | '.' :: rest => do
      let (parts, rest) ← takeParts room rest
      some (part :: parts, rest)
    | rest => some ([part], rest)

/-- How many parts a key may have, and how many lists and inline tables may stand within each
other. -/
def deepest : Nat := 79

/-- A key with its dots. -/
def takeKey (cs : List Char) : Option (Path × List Char) := takeParts deepest cs

/-- Characters of a value that is neither quoted nor in brackets, dates and times apart. -/
def isPlain (c : Char) : Bool := isBareKey c || c = '+' || c = '.'

/-- A value without quotes and brackets. -/
def takePlain (cs : List Char) : Option (Value × List Char) :=
  match takeMoment cs with
  | some rest => some (.moment, rest)
  | none =>
    let word := cs.takeWhile isPlain
    let rest := cs.drop word.length
    if word = "true".toList then some (.flag true, rest)
    else if word = "false".toList then some (.flag false, rest)
    else if isFraction word then some (.fraction, rest)
    else (wholeNumber? word).map fun n => (.whole n, rest)

mutual

/-- A value; `room` is how many more lists and inline tables may be opened around one another. -/
def takeValue : Nat → Nat → List Char → Option (Value × List Char)
  | 0, _, _ => none
  | fuel + 1, room, cs =>
    match cs with
    | '"' :: '"' :: '"' :: rest => (takeLongFrom '"' rest).map fun (s, rest) => (.text s, rest)
    | '"' :: rest => (takeBasic (rest.length + 1) [] rest).map fun (s, rest) => (.text s, rest)
    | '\x27' :: '\x27' :: '\x27' :: rest =>
      (takeLongFrom '\x27' rest).map fun (s, rest) => (.text s, rest)
    | '\x27' :: rest => (takeLiteral rest).map fun (s, rest) => (.text s, rest)
    | '[' :: rest =>
      if room = 0 then none
      else (takeItems fuel (room - 1) rest).map fun (items, rest) => (.list items, rest)
    | '\x7b' :: rest =>
      if room = 0 then none
      else
        match skipSpace rest with
        | '\x7d' :: rest => some (.inlineTable [], rest)
        | rest =>
          (takeMembers fuel (room - 1) rest).map fun (members, rest) => (.inlineTable members, rest)
    | cs => takePlain cs

/-- The items of a list behind its bracket or a comma; one more comma may end it. -/
def takeItems : Nat → Nat → List Char → Option (List Value × List Char)
  | 0, _, _ => none
  | fuel + 1, room, cs => do
    let cs ← skipLines (cs.length + 1) cs
    match cs with
    | ']' :: rest => some ([], rest)
    | cs => do
      let (item, cs) ← takeValue fuel room cs
      let cs ← skipLines (cs.length + 1) cs
      match cs with
      | ',' :: rest => do
        let (items, rest) ← takeItems fuel room rest
        some (item :: items, rest)
      | ']' :: rest => some ([item], rest)
      | _ => none

/-- The members of an inline table behind its brace or a comma, all on one line. -/
def takeMembers : Nat → Nat → List Char → Option (List (Path × Value) × List Char)
  | 0, _, _ => none
  | fuel + 1, room, cs => do
    let (key, cs) ← takeKey cs
    match cs with
    | '=' :: cs => do
      let (value, cs) ← takeValue fuel room (skipSpace cs)
      match skipSpace cs with
      | ',' :: rest => do
        let (members, rest) ← takeMembers fuel room rest
        some ((key, value) :: members, rest)
      | '\x7d' :: rest => some ([(key, value)], rest)
      | _ => none
    | _ => none

end

/-- A statement that starts a line. -/
def takeStatement (cs : List Char) : Option (Statement × List Char) :=
  match cs with
  | '[' :: '[' :: rest => do
    let (path, rest) ← takeKey rest
    match rest with
    | ']' :: ']' :: rest => some (.item path, rest)
    | _ => none
  | '[' :: rest => do
    let (path, rest) ← takeKey rest
    match rest with
    | ']' :: rest => some (.table path, rest)
    | _ => none
  | cs => do
    let (key, rest) ← takeKey cs
    match rest with
    | '=' :: rest => do
      let (value, rest) ← takeValue (rest.length + 1) deepest (skipSpace rest)
      some (.set key value, rest)
    | _ => none

/-- Statement after statement; each takes one character at least. -/
def takeStatements : Nat → List Char → Option (List Statement)
  | 0, _ => none
  | fuel + 1, cs => do
    let cs ← skipLines (cs.length + 1) cs
    if cs.isEmpty then some []
    else do
      let (statement, cs) ← takeStatement cs
      let cs ← endOfLine? cs
      let statements ← takeStatements fuel cs
      some (statement :: statements)

/-- The statements of a text; a byte-order mark may come first. -/
def statements? (text : String) : Option (List Statement) :=
  let cs := match text.toList with
    | '\ufeff' :: rest => rest
    | cs => cs
  takeStatements (cs.length + 1) cs

end PeerCall.Toml
