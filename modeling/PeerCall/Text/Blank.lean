/-!
# Blanks, words and lines

The characters with the Unicode property White_Space, and what is cut at them: trimmed texts,
words, and fields between occurrences of one separator.
-/

namespace PeerCall.Text

/-- The characters with the property White_Space. -/
def isBlank (c : Char) : Bool :=
  let n := c.toNat
  (9 ≤ n && n ≤ 13) || n = 0x20 || n = 0x85 || n = 0xA0 || n = 0x1680 || (0x2000 ≤ n && n ≤ 0x200A)
    || n = 0x2028 || n = 0x2029 || n = 0x202F || n = 0x205F || n = 0x3000

/-- Without blanks at the front. -/
def trimStart (cs : List Char) : List Char := cs.dropWhile isBlank

/-- Without blanks at the end. -/
def trimEnd (cs : List Char) : List Char := (cs.reverse.dropWhile isBlank).reverse

/-- Without blanks at either end. -/
def trim (cs : List Char) : List Char := trimEnd (trimStart cs)

/-- The pieces between occurrences of a separator, empty ones included: always one more than
there are separators. -/
def split (sep : Char) : List Char → List (List Char)
  | [] => [[]]
  | c :: rest =>
    if c = sep then [] :: split sep rest
    else match split sep rest with
      | piece :: pieces => (c :: piece) :: pieces
      | [] => [[c]]

/-- The words of a text: its longest pieces without a blank. -/
def words (cs : List Char) : List (List Char) := go cs []
where
  go : List Char → List Char → List (List Char)
    | [], word => if word.isEmpty then [] else [word.reverse]
    | c :: rest, word =>
      if isBlank c then
        if word.isEmpty then go rest [] else word.reverse :: go rest []
      else go rest (c :: word)

/-- The letters A to Z as small letters; all else stays. -/
def asciiLower (cs : List Char) : List Char := cs.map Char.toLower

end PeerCall.Text
