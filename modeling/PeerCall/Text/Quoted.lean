import PeerCall.Text.Invisible

/-!
# Quoted texts

A text in double quotes, so that nothing in it can be mistaken: quotes and backslashes are escaped,
and what is invisible is shown by an escape or by its number.
-/

namespace PeerCall.Text.Quoted

/-- The digits of a code point: hexadecimal, without leading zeros. -/
def digits (c : Char) : List Char := Nat.toDigits 16 c.toNat

/-- A character inside the quotes. -/
def escape (c : Char) : List Char :=
  match c with
  | '\x00' => ['\\', '0']
  | '\t' => ['\\', 't']
  | '\r' => ['\\', 'r']
  | '\n' => ['\\', 'n']
  | '"' => ['\\', '"']
  | '\\' => ['\\', '\\']
  | c => if isInvisible c then ['\\', 'u', '\x7b'] ++ digits c ++ ['\x7d'] else [c]

/-- A text in quotes. -/
def encode (text : String) : String :=
  String.ofList ('"' :: text.toList.flatMap escape ++ ['"'])

end PeerCall.Text.Quoted
