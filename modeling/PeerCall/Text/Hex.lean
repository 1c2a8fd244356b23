import PeerCall.Bytes

/-!
# Hexadecimal text

Two digits a byte, high half first. Writing uses lower case; reading takes either case and refuses
an odd number of digits.
-/

namespace PeerCall.Text.Hex

/-- The digit of a value below 16. -/
def digit (n : Nat) : Char :=
  if n < 10 then Char.ofNat (48 + n) else Char.ofNat (87 + n)

/-- The value of a digit of either case. -/
def value? (c : Char) : Option Nat :=
  let n := c.toNat
  if 48 ≤ n && n ≤ 57 then some (n - 48)
  else if 97 ≤ n && n ≤ 102 then some (n - 87)
  else if 65 ≤ n && n ≤ 70 then some (n - 55)
  else none

/-- The digits of a byte string. -/
def encodeList : Bytes → List Char
  | [] => []
  | b :: rest => digit (b.toNat / 16) :: digit (b.toNat % 16) :: encodeList rest

/-- The bytes that digits stand for. -/
def decodeList : List Char → Option Bytes
  | [] => some []
  | high :: low :: rest => do
    let h ← value? high
    let l ← value? low
    let bytes ← decodeList rest
    pure (UInt8.ofNat (16 * h + l) :: bytes)
  | [_] => none

/-- The digits of a byte string, as text. -/
def encode (bs : Bytes) : String := String.ofList (encodeList bs)

/-- The bytes a text of digits stands for. -/
def decode (s : String) : Option Bytes := decodeList s.toList

theorem value?_digit {n : Nat} (h : n < 16) : value? (digit n) = some n := by
  have : ∀ n, n < 16 → value? (digit n) = some n := by decide
  exact this n h

theorem decodeList_encodeList (bs : Bytes) : decodeList (encodeList bs) = some bs := by
  induction bs with
  | nil => rfl
  | cons b rest ih =>
    have hb := b.toNat_lt
    have hv : UInt8.ofNat (16 * (b.toNat / 16) + b.toNat % 16) = b := by
      rw [show 16 * (b.toNat / 16) + b.toNat % 16 = b.toNat by omega, UInt8.ofNat_toNat]
    simp only [encodeList, decodeList, value?_digit (show b.toNat / 16 < 16 by omega),
      value?_digit (show b.toNat % 16 < 16 by omega), ih, Option.bind_eq_bind, Option.bind_some, hv]
    rfl

@[simp] theorem decode_encode (bs : Bytes) : decode (encode bs) = some bs := by
  simp [decode, encode, decodeList_encodeList]

end PeerCall.Text.Hex
