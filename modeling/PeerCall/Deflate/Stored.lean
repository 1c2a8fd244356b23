import PeerCall.Bytes

/-!
# Deflating into stored blocks

The plainest stream for a byte string: its bytes in blocks of at most 65535, each behind its
length and the complement of that.
-/

namespace PeerCall.Deflate

/-- The longest stored block. -/
def maxStored : Nat := 65535

/-- One stored block. -/
def storedBlock (last : Bool) (content : Bytes) : Bytes :=
  (if last then 1 else 0) :: Bytes.ofNatLE 2 content.length
    ++ Bytes.ofNatLE 2 (maxStored - content.length) ++ content

/-- A stream of `blocks` full blocks and a last one. -/
def storedBlocks : Nat → Bytes → Bytes
  | 0, content => storedBlock true content
  | blocks + 1, content =>
    storedBlock false (content.take maxStored) ++ storedBlocks blocks (content.drop maxStored)

/-- A stream that holds a byte string. -/
def deflate (content : Bytes) : Bytes := storedBlocks (content.length / maxStored) content

end PeerCall.Deflate
