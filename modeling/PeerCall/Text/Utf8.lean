import PeerCall.Bytes

/-!
# UTF-8 text as bytes

`encode` writes a string, `decode` reads a whole byte string back or names the first fault: where
the well-formed text ends, and how many bytes of the ill-formed sequence belong together.

Main statement: `decode_encode`.
-/

namespace PeerCall.Text.Utf8

/-- The first place where bytes are no UTF-8 text. -/
structure Fault where
  /-- Length of the well-formed part in front. -/
  validUpTo : Nat
  /-- Length of the ill-formed sequence; absent where the text merely ends too soon. -/
  badLength : Option Nat
  deriving DecidableEq, Repr

/-- The UTF-8 bytes of a string. -/
def encode (s : String) : Bytes := s.toUTF8.data.toList

/-- A byte that continues a character. -/
def isTail (b : UInt8) : Bool := 0x80 ≤ b && b ≤ 0xBF

/-- The range that the second byte of a character has to lie in, and the number of bytes after
the first; `none` for a byte that starts no character. -/
def leadRule (b : UInt8) : Option (UInt8 × UInt8 × Nat) :=
  if b < 0x80 then some (0, 0, 0)
  else if 0xC2 ≤ b && b ≤ 0xDF then some (0x80, 0xBF, 1)
  else if b == 0xE0 then some (0xA0, 0xBF, 2)
  else if b == 0xED then some (0x80, 0x9F, 2)
  else if 0xE1 ≤ b && b ≤ 0xEF then some (0x80, 0xBF, 2)
  else if b == 0xF0 then some (0x90, 0xBF, 3)
  else if 0xF1 ≤ b && b ≤ 0xF3 then some (0x80, 0xBF, 3)
  else if b == 0xF4 then some (0x80, 0x8F, 3)
  else none

/-- The sequence at the front: its length if it is a character, else the fault's length. -/
def leadSequence : Bytes → Except (Option Nat) Nat
  | [] => .error none
  | b :: rest =>
    match leadRule b, rest with
    | none, _ => .error (some 1)
    | some (_, _, 0), _ => .ok 1
    | some _, [] => .error none
    | some (low, high, more), second :: rest =>
      if !(low ≤ second && second ≤ high) then .error (some 1)
      else if more == 1 then .ok 2
      else match rest with
        | [] => .error none
        | third :: rest =>
          if !isTail third then .error (some 2)
          else if more == 2 then .ok 3
          else match rest with
            | [] => .error none
            | fourth :: _ => if isTail fourth then .ok 4 else .error (some 3)

/-- Walk the text character by character up to the first fault. -/
def firstFault (bs : Bytes) : Fault := go bs.length bs 0
where
  go : Nat → Bytes → Nat → Fault
    | 0, _, position => ⟨position, none⟩
    | fuel + 1, bs, position =>
      match leadSequence bs with
      | .ok n => go fuel (bs.drop n) (position + n)
      | .error badLength => ⟨position, badLength⟩

/-- Read a byte string as text; all of it has to be well formed. -/
def decode (bs : Bytes) : Except Fault String :=
  let array := ByteArray.mk bs.toArray
  if h : array.IsValidUTF8 then .ok ⟨array, h⟩ else .error (firstFault bs)

/-- Read a byte string as text, with a replacement character for each ill-formed sequence. -/
def decodeLossy (bs : Bytes) : String := go bs.length bs
where
  go : Nat → Bytes → String
    | 0, _ => ""
    | fuel + 1, bs =>
      match decode bs with
      | .ok text => text
      | .error fault =>
        let sound := ((decode (bs.take fault.validUpTo)).toOption).getD ""
        let rest := match fault.badLength with
          | some n => go fuel (bs.drop (fault.validUpTo + n))
          | none => ""
        sound ++ "\uFFFD" ++ rest

@[simp] theorem decode_encode (s : String) : decode (encode s) = .ok s := by
  have h : ByteArray.mk (encode s).toArray = s.toByteArray := by simp [encode]
  simp [decode, h, s.isValidUTF8]

theorem encode_of_decode {bs : Bytes} {s : String} (h : decode bs = .ok s) : encode s = bs := by
  unfold decode at h
  simp only at h
  split at h
  · cases h; simp [encode]
  · cases h

end PeerCall.Text.Utf8
