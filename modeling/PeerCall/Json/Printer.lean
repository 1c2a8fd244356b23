import PeerCall.Text.Hex

/-!
# Writing JSON strings

A quote, a backslash and the control characters are escaped, five of these by a letter and the
others by four hexadecimal digits; all else stands as it is.
-/

namespace PeerCall.Json

/-- The escaped form of a character. -/
def escape (c : Char) : List Char :=
  match c with
  | '"' => ['\\', '"']
  | '\\' => ['\\', '\\']
  | '\x08' => ['\\', 'b']
  | '\x0c' => ['\\', 'f']
  | '\n' => ['\\', 'n']
  | '\r' => ['\\', 'r']
  | '\t' => ['\\', 't']
  | c =>
    if c.toNat < 0x20 then
      ['\\', 'u', '0', '0', Text.Hex.digit (c.toNat / 16), Text.Hex.digit (c.toNat % 16)]
    else [c]

/-- A string between quotes. -/
def quote (s : String) : List Char := '"' :: s.toList.flatMap escape ++ ['"']

/-- An object without blanks: names and written values in the given order. -/
def object (members : List (String × List Char)) : List Char :=
  '\x7b' :: [','].intercalate (members.map fun (name, v) => quote name ++ ':' :: v) ++ ['\x7d']

end PeerCall.Json
