import PeerCall.Text.Hex

/-!
# TOML numbers

Whole numbers and fractions, read from the word that they are written as. Single underscores may
stand between digits. A whole number is kept with its sign in 64 bits. Of a fraction only the form
is checked: no setting takes one, but a list may hold some behind the items that count.
-/

namespace PeerCall.Toml

/-- The number that digits of a base stand for; single underscores may stand between digits. -/
def digitsNumber? (base : Nat) (cs : List Char) : Option Nat :=
  go cs none
where
  go : List Char → Option Nat → Option Nat
    | [], n => n
    | ['_'], _ => none
    | '_' :: c :: rest, some n => do
      let d ← digit? c
      go rest (some (n * base + d))
    | c :: rest, n => do
      let d ← digit? c
      go rest (some (n.getD 0 * base + d))
  digit? (c : Char) : Option Nat := (Text.Hex.value? c).filter (· < base)

/-- A whole number in base ten: no zero in front of other digits. -/
def decimal? (cs : List Char) : Option Nat :=
  match cs with
  | '0' :: _ :: _ => none
  | cs => digitsNumber? 10 cs

/-- A whole number of 64 bits with its sign. -/
def wholeNumber? (cs : List Char) : Option Int := do
  let n : Int ← match cs with
    | '+' :: rest => (decimal? rest).map Int.ofNat
    | '-' :: rest => (decimal? rest).map fun n => -Int.ofNat n
    | '0' :: 'x' :: rest => (digitsNumber? 16 rest).map Int.ofNat
    | '0' :: 'o' :: rest => (digitsNumber? 8 rest).map Int.ofNat
    | '0' :: 'b' :: rest => (digitsNumber? 2 rest).map Int.ofNat
    | cs => (decimal? cs).map Int.ofNat
  let bound : Int := Bytes.bound 8 / 2
  if -bound ≤ n && n < bound then some n else none

/-- Digits, of which the last counts a power of ten. -/
structure Decimal where
  digits : List Char
  /-- The power of ten. -/
  exponent : Int

/-- How many digits the numbers past all doubles have. -/
def doubleDigits : Nat := 309

/-- The least number that is nearer to infinity than to a double: half a step past the greatest
double. -/
def doubleBound : Nat := (1 <<< 1024) - (1 <<< 970)

/-- Whether a decimal is past all doubles. Compared are the digits in front of the point, as the
bound is a whole number. -/
def Decimal.isHuge (d : Decimal) : Bool :=
  let digits := d.digits.dropWhile (· = '0')
  let size := Int.ofNat digits.length + d.exponent
  let whole := (digits ++ List.replicate doubleDigits '0').take doubleDigits
  !digits.isEmpty && (Int.ofNat doubleDigits < size ||
    (size = Int.ofNat doubleDigits && (digitsNumber? 10 whole).any (doubleBound ≤ ·)))

/-- Behind a sign, if there is one. -/
def behindSign : List Char → List Char
  | '+' :: rest => rest
  | '-' :: rest => rest
  | cs => cs

/-- Characters in a row of digits. -/
def isInDigits (c : Char) : Bool := c.isDigit || c = '_'

/-- An exponent: a letter, a sign or none, and digits, of which the first may be zeros. -/
def exponent? : List Char → Option Int
  | letter :: rest =>
    if letter = 'e' || letter = 'E' then
      (digitsNumber? 10 (behindSign rest)).map fun n =>
        if rest.head? = some '-' then -Int.ofNat n else Int.ofNat n
    else none
  | [] => none

/-- A fraction without its sign: a whole number, and then digits behind a point, an exponent, or
both of them in this order. -/
def fraction? (cs : List Char) : Option Decimal := do
  let whole := cs.takeWhile isInDigits
  let _ ← decimal? whole
  match cs.drop whole.length with
  | '.' :: rest => do
    let places := rest.takeWhile isInDigits
    let _ ← digitsNumber? 10 places
    let behind := rest.drop places.length
    let exponent ← if behind.isEmpty then some 0 else exponent? behind
    let places := places.filter Char.isDigit
    some ⟨whole.filter Char.isDigit ++ places, exponent - Int.ofNat places.length⟩
  | rest => (exponent? rest).map fun exponent => ⟨whole.filter Char.isDigit, exponent⟩

/-- Whether a word is a fraction. Infinity and what is no number at all are written by name. A
positive fraction past all doubles is refused; a negative one is not. -/
def isFraction (word : List Char) : Bool :=
  let size := behindSign word
  size = "inf".toList || size = "nan".toList ||
    (fraction? size).any fun d => word.head? = some '-' || !d.isHuge

end PeerCall.Toml
