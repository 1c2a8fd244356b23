import PeerCall.Bytes

/-!
# Bits of a byte string

A compressed stream is a list of bits, the lowest bit of each byte first; numbers in it are taken
off the front, least significant bit first.
-/

namespace PeerCall.Deflate

/-- The bits of a byte, lowest first. -/
def bitsOfByte (b : UInt8) : List Bool := (List.range 8).map b.toNat.testBit

/-- The bits of a byte string. -/
def bitsOf (bs : Bytes) : List Bool := bs.flatMap bitsOfByte

/-- Why inflating stops before the last block is over. -/
inductive Halt
  /-- The stream ends too soon. -/
  | cut
  /-- What comes next in the stream makes no sense. -/
  | malformed
  /-- More bytes would be written than are wanted. -/
  | full
  deriving DecidableEq, Repr

/-- Take a number of `n` bits off the front. -/
def takeNumber : Nat → List Bool → Except Halt (Nat × List Bool)
  | 0, bits => .ok (0, bits)
  | _ + 1, [] => .error .cut
  | n + 1, bit :: bits => (takeNumber n bits).map fun (v, rest) => (bit.toNat + 2 * v, rest)

end PeerCall.Deflate
