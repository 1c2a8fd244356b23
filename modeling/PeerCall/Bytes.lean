/-!
# Byte strings

Byte strings are lists of octets, so that what a reader leaves behind is a suffix of what it was
given. This module holds the little-endian numbers every fixed-width field is made of, and
`Octets n`, a byte string of known length: keys, digests and identifiers.

Main statements: `toNatLE_ofNatLE` and `ofNatLE_toNatLE`, the two directions of a number field.
-/

namespace PeerCall

/-- A byte string. -/
abbrev Bytes := List UInt8

namespace Bytes

/-- The `width` little-endian bytes of `n`; what does not fit is dropped. -/
def ofNatLE : Nat → Nat → Bytes
  | 0, _ => []
  | width + 1, n => UInt8.ofNat n :: ofNatLE width (n / 256)

/-- The least number that does not fit into `width` bytes. -/
def bound : Nat → Nat
  | 0 => 1
  | width + 1 => 256 * bound width

/-- The number with the given little-endian bytes. -/
def toNatLE : Bytes → Nat
  | [] => 0
  | b :: rest => b.toNat + 256 * toNatLE rest

@[simp] theorem length_ofNatLE (width n : Nat) : (ofNatLE width n).length = width := by
  induction width generalizing n with
  | zero => rfl
  | succ width ih => simp [ofNatLE, ih]

theorem toNatLE_ofNatLE (width n : Nat) : toNatLE (ofNatLE width n) = n % bound width := by
  induction width generalizing n with
  | zero => simp [ofNatLE, toNatLE, bound, Nat.mod_one]
  | succ width ih =>
    simp only [ofNatLE, toNatLE, ih, bound]
    rw [Nat.mod_mul]
    simp [UInt8.toNat_ofNat']

theorem toNatLE_lt (bs : Bytes) : toNatLE bs < bound bs.length := by
  induction bs with
  | nil => simp [toNatLE, bound]
  | cons b rest ih =>
    have hb := b.toNat_lt
    simp only [toNatLE, List.length_cons, bound]
    omega

theorem ofNatLE_toNatLE (bs : Bytes) : ofNatLE bs.length (toNatLE bs) = bs := by
  induction bs with
  | nil => rfl
  | cons b rest ih =>
    have hb := b.toNat_lt
    simp only [toNatLE, List.length_cons, ofNatLE]
    congr 1
    · apply UInt8.toNat_inj.1
      simp only [UInt8.toNat_ofNat']
      omega
    · rw [show (b.toNat + 256 * toNatLE rest) / 256 = toNatLE rest by omega, ih]

end Bytes

/-- A byte string of exactly `n` bytes. -/
structure Octets (n : Nat) where
  bytes : Bytes
  length_eq : bytes.length = n
  deriving DecidableEq

namespace Octets

variable {n : Nat}

/-- Take a byte string as `n` octets, if it has that length. -/
def ofBytes? (n : Nat) (bs : Bytes) : Option (Octets n) :=
  if h : bs.length = n then some ⟨bs, h⟩ else none

/-- Exactly `n` zero bytes. -/
def zero (n : Nat) : Octets n := ⟨List.replicate n 0, by simp⟩

/-- The first `n` bytes, made up with zeros where there are fewer. -/
def ofBytesPadded (n : Nat) (bs : Bytes) : Octets n :=
  ⟨(bs ++ List.replicate n 0).take n, by simp⟩

/-- The octets of `value`, least significant first. -/
def ofNatLE (n value : Nat) : Octets n := ⟨Bytes.ofNatLE n value, by simp⟩

/-- The octets of `value`, most significant first. -/
def ofNatBE (n value : Nat) : Octets n := ⟨(Bytes.ofNatLE n value).reverse, by simp⟩

/-- Octets read as a number, least significant first. -/
def toNatLE (x : Octets n) : Nat := Bytes.toNatLE x.bytes

@[ext] theorem ext {x y : Octets n} (h : x.bytes = y.bytes) : x = y := by
  cases x; cases y; simp_all

@[simp] theorem ofBytes?_bytes (x : Octets n) : ofBytes? n x.bytes = some x := by
  simp [ofBytes?, x.length_eq]

theorem bytes_of_ofBytes? {bs : Bytes} {x : Octets n} (h : ofBytes? n bs = some x) :
    x.bytes = bs := by
  unfold ofBytes? at h
  split at h
  · cases h; rfl
  · cases h

/-- Octets compare as their bytes do, the first difference deciding. -/
def lt (x y : Octets n) : Bool := x.bytes < y.bytes

instance : Inhabited (Octets n) := ⟨zero n⟩

end Octets

end PeerCall
