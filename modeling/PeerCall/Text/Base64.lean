import PeerCall.Bytes

/-!
# Base64 text

Three bytes make four digits of six bits. Two variants: the standard alphabet, whose text is made
up to a multiple of four with `=`, and the alphabet for addresses and file names, never made up.
Reading is strict: no other character, the padding exactly as written, and unused bits zero, so
each byte string has one text.
-/

namespace PeerCall.Text.Base64

/-- The alphabets in use. -/
inductive Variant
  /-- Digits `+` and `/`, padded. -/
  | standard
  /-- Digits `-` and `_`, without padding. -/
  | urlSafe
  deriving DecidableEq, Repr

/-- Whether texts are made up to a multiple of four digits. -/
def Variant.padded : Variant → Bool
  | .standard => true
  | .urlSafe => false

/-- The digits of the values 62 and 63. -/
def Variant.last : Variant → Char × Char
  | .standard => ('+', '/')
  | .urlSafe => ('-', '_')

/-- The digit of a value below 64. -/
def digit (v : Variant) (n : Nat) : Char :=
  if n < 26 then Char.ofNat (65 + n)
  else if n < 52 then Char.ofNat (71 + n)
  else if n < 62 then Char.ofNat (n - 4)
  else if n = 62 then v.last.1
  else v.last.2

/-- The value of a digit. -/
def value? (v : Variant) (c : Char) : Option Nat :=
  let n := c.toNat
  if 65 ≤ n && n ≤ 90 then some (n - 65)
  else if 97 ≤ n && n ≤ 122 then some (n - 71)
  else if 48 ≤ n && n ≤ 57 then some (n + 4)
  else if c = v.last.1 then some 62
  else if c = v.last.2 then some 63
  else none

/-- The text of a byte string. -/
def encodeList (v : Variant) : Bytes → List Char
  | [] => []
  | [a] =>
    let n := a.toNat * 16
    [digit v (n / 64), digit v (n % 64)] ++ if v.padded then ['=', '='] else []
  | [a, b] =>
    let n := (a.toNat * 256 + b.toNat) * 4
    [digit v (n / 4096), digit v (n / 64 % 64), digit v (n % 64)]
      ++ if v.padded then ['='] else []
  | a :: b :: c :: rest =>
    let n := a.toNat * 65536 + b.toNat * 256 + c.toNat
    digit v (n / 262144) :: digit v (n / 4096 % 64) :: digit v (n / 64 % 64) :: digit v (n % 64)
      :: encodeList v rest

/-- The byte behind a last group of two digits. -/
def lastOne (v : Variant) (a b : Char) : Option Bytes := do
  let n := (← value? v a) * 64 + (← value? v b)
  if n % 16 = 0 then some [UInt8.ofNat (n / 16)] else none

/-- The two bytes behind a last group of three digits. -/
def lastTwo (v : Variant) (a b c : Char) : Option Bytes := do
  let n := ((← value? v a) * 64 + (← value? v b)) * 64 + (← value? v c)
  if n % 4 = 0 then some [UInt8.ofNat (n / 1024), UInt8.ofNat (n / 4)] else none

/-- The three bytes behind four digits. -/
def fullGroup (v : Variant) (a b c d : Char) : Option Bytes := do
  let n := (((← value? v a) * 64 + (← value? v b)) * 64 + (← value? v c)) * 64 + (← value? v d)
  some [UInt8.ofNat (n / 65536), UInt8.ofNat (n / 256), UInt8.ofNat n]

/-- The bytes that a text stands for. -/
def decodeList (v : Variant) : List Char → Option Bytes
  | [] => some []
  | [_] => none
  | [a, b] => if v.padded then none else lastOne v a b
  | [a, b, c] => if v.padded then none else lastTwo v a b c
  | a :: b :: c :: d :: rest =>
    if v.padded && rest.isEmpty && d = '=' then
      if c = '=' then lastOne v a b else lastTwo v a b c
    else do
      let group ← fullGroup v a b c d
      let bytes ← decodeList v rest
      some (group ++ bytes)

/-- The text of a byte string. -/
def encode (v : Variant) (bs : Bytes) : String := String.ofList (encodeList v bs)

/-- The bytes that a text stands for. -/
def decode (v : Variant) (s : String) : Option Bytes := decodeList v s.toList

end PeerCall.Text.Base64
