import PeerCall.Bytes

/-!
# ChaCha20-Poly1305

Authenticated encryption without associated data: the plaintext under a stream of blocks from one
on, then a tag over the ciphertext under a key taken from block zero.
-/

namespace PeerCall.Crypto.ChaChaPoly

/-- The words that a block is made from. -/
abbrev Words := Vector UInt32 16

/-- Rotate left. -/
def rotl (x : UInt32) (n : UInt32) : UInt32 := (x <<< n) ||| (x >>> (32 - n))

/-- Mix four words. -/
def quarter (a b c d : Fin 16) (w : Words) : Words :=
  let w := w.set a (w[a] + w[b])
  let w := w.set d (rotl (w[d] ^^^ w[a]) 16)
  let w := w.set c (w[c] + w[d])
  let w := w.set b (rotl (w[b] ^^^ w[c]) 12)
  let w := w.set a (w[a] + w[b])
  let w := w.set d (rotl (w[d] ^^^ w[a]) 8)
  let w := w.set c (w[c] + w[d])
  w.set b (rotl (w[b] ^^^ w[c]) 7)

/-- Mix the columns, then the diagonals. -/
def doubleRound (w : Words) : Words :=
  w |> quarter 0 4 8 12 |> quarter 1 5 9 13 |> quarter 2 6 10 14 |> quarter 3 7 11 15
    |> quarter 0 5 10 15 |> quarter 1 6 11 12 |> quarter 2 7 8 13 |> quarter 3 4 9 14

/-- Bytes as little-endian words. -/
def words : Bytes → List UInt32
  | a :: b :: c :: d :: rest =>
    (a.toUInt32 ||| (b.toUInt32 <<< 8) ||| (c.toUInt32 <<< 16) ||| (d.toUInt32 <<< 24)) :: words rest
  | _ => []

/-- The words of a block: constants, key, counter and nonce. -/
def setup (key : Octets 32) (nonce : Octets 12) (counter : Nat) : Words :=
  let all := [0x61707865, 0x3320646e, 0x79622d32, 0x6b206574] ++ words key.bytes
    ++ [UInt32.ofNat counter] ++ words nonce.bytes
  Vector.ofFn fun i => all.getD i.val 0

/-- A block of the stream. -/
def block (key : Octets 32) (nonce : Octets 12) (counter : Nat) : Bytes :=
  let start := setup key nonce counter
  let mixed := (List.range 10).foldl (fun w _ => doubleRound w) start
  (start.zipWith (· + ·) mixed).toList.flatMap fun w => Bytes.ofNatLE 4 w.toNat

/-- The stream as far as `n` bytes need it, from block one on. -/
def keystream (key : Octets 32) (nonce : Octets 12) (n : Nat) : Bytes :=
  (List.range ((n + 63) / 64)).flatMap fun i => block key nonce (i + 1)

/-- Bytes under the stream; the same again gives them back. -/
def crypt (key : Octets 32) (nonce : Octets 12) (bs : Bytes) : Bytes :=
  bs.zipWith (· ^^^ ·) (keystream key nonce bs.length)

/-- Bytes cut into pieces of sixteen, the last one made up with zeros; `pieces` is their number. -/
def pieces16 : Nat → Bytes → List Bytes
  | 0, _ => []
  | pieces + 1, bs =>
    let front := bs.take 16
    (front ++ List.replicate (16 - front.length) 0) :: pieces16 pieces (bs.drop 16)

/-- The prime that tags are computed modulo. -/
def p : Nat := 4 * Bytes.bound 16 - 5

/-- The tag over a ciphertext: its pieces and the lengths, as a polynomial at the key's point. -/
def tag (key : Octets 32) (nonce : Octets 12) (ciphertext : Bytes) : Bytes :=
  let first := block key nonce 0
  let r := Bytes.toNatLE (first.take 16) &&& 0x0ffffffc0ffffffc0ffffffc0fffffff
  let s := Bytes.toNatLE ((first.drop 16).take 16)
  let lengths := Bytes.ofNatLE 8 0 ++ Bytes.ofNatLE 8 ciphertext.length
  let pieces := pieces16 ((ciphertext.length + 15) / 16) ciphertext ++ [lengths]
  let sum := pieces.foldl (fun acc piece => (acc + Bytes.toNatLE piece + Bytes.bound 16) * r % p) 0
  Bytes.ofNatLE 16 (sum + s)

/-- Blocks of plaintext from which on there is no stream left. -/
def maxBlocks : Nat := Bytes.bound 4 - 1

/-- The ciphertext and its tag. -/
def encrypt (key : Octets 32) (nonce : Octets 12) (plaintext : Bytes) : Option Bytes :=
  if plaintext.length / 64 ≥ maxBlocks then none
  else
    let ciphertext := crypt key nonce plaintext
    some (ciphertext ++ tag key nonce ciphertext)

/-- The plaintext, if the tag fits. -/
def decrypt (key : Octets 32) (nonce : Octets 12) (record : Bytes) : Option Bytes :=
  if record.length < 16 then none
  else
    let ciphertext := record.take (record.length - 16)
    if ciphertext.length / 64 ≥ maxBlocks then none
    else if tag key nonce ciphertext = record.drop (record.length - 16) then
      some (crypt key nonce ciphertext)
    else none

end PeerCall.Crypto.ChaChaPoly
