import PeerCall.Deflate.Bits

/-!
# Canonical codes

A code is given by the length of each symbol's code word. Shorter words come first, words of one
length in the order of their symbols, and each word is the number after the one before it.
-/

namespace PeerCall.Deflate

/-- What a code is used for, which decides how sparse it may be. -/
inductive CodeUse
  /-- The lengths of the words of the other two codes. -/
  | lengths
  | literals
  | distances
  deriving DecidableEq

/-- A canonical code. -/
structure PrefixCode where
  /-- How many words there are of each length, from one bit on. -/
  counts : List Nat
  /-- The symbols in the order of their words. -/
  symbols : Array Nat

namespace PrefixCode

/-- The longest word. -/
def maxLength : Nat := 15

/-- The code with the given word lengths, zero for a symbol without a word. -/
def ofLengths (lengths : List Nat) : PrefixCode :=
  let indexed := lengths.zip (List.range lengths.length)
  let wordLengths := (List.range maxLength).map (· + 1)
  ⟨wordLengths.map fun l => lengths.count l,
    (wordLengths.flatMap fun l => (indexed.filter (·.1 = l)).map (·.2)).toArray⟩

/-- Whether the words fill the tree exactly. A code of a single word need not, nor an empty one,
except for the code of lengths. -/
def isValid (purpose : CodeUse) (lengths : List Nat) : Bool :=
  let used := lengths.filter (· ≠ 0)
  let filled := used.foldl (fun filled l => filled + 1 <<< (maxLength - l)) 0
  filled = 1 <<< maxLength || (used.length ≤ 1 && purpose ≠ .lengths)

/-- Take a word off the front. `first` is the first word of the length reached, and `index` the
place of its symbol. -/
def decodeFrom (symbols : Array Nat) :
    List Nat → Nat → Nat → Nat → List Bool → Except Halt (Nat × List Bool)
  | [], _, _, _, _ => .error .malformed
  | _ :: _, _, _, _, [] => .error .cut
  | count :: counts, code, first, index, bit :: bits =>
    let code := 2 * code + bit.toNat
    if code < first + count then
      match symbols[index + (code - first)]? with
      | some symbol => .ok (symbol, bits)
      | none => .error .malformed
    else decodeFrom symbols counts code (2 * (first + count)) (index + count) bits

/-- Take a word off the front and tell its symbol. -/
def decode (c : PrefixCode) (bits : List Bool) : Except Halt (Nat × List Bool) :=
  decodeFrom c.symbols c.counts 0 0 0 bits

end PrefixCode

end PeerCall.Deflate
