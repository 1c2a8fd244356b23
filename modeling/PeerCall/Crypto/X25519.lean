import PeerCall.Bytes

/-!
# X25519 key agreement

The Montgomery curve over the field of 2^255 - 19 elements, by its x-coordinate alone. A secret is
clamped to a multiple of the cofactor with a fixed top bit before it is used.
-/

namespace PeerCall.Crypto.X25519

/-- The weight of the last bit of thirty-two bytes. -/
def topBit : Nat := Bytes.bound 32 / 2

/-- The order of the field. -/
def p : Nat := topBit - 19

/-- Difference in the field. -/
def sub (a b : Nat) : Nat := (a + p - b) % p

/-- Powers in the field; `bits` bounds the length of the exponent. -/
def pow (base : Nat) : Nat → Nat → Nat
  | 0, _ => 1
  | bits + 1, e =>
    let half := pow (base * base % p) bits (e / 2)
    if e % 2 = 1 then base * half % p else half

/-- Two points in projective form, a multiple and the next one. -/
structure Ladder where
  x2 : Nat
  z2 : Nat
  x3 : Nat
  z3 : Nat

/-- Exchange the two points. -/
def Ladder.swap (l : Ladder) : Ladder := ⟨l.x3, l.z3, l.x2, l.z2⟩

/-- Double the first point and add the two, whose difference is `u`. -/
def Ladder.double (u : Nat) (l : Ladder) : Ladder :=
  let a := (l.x2 + l.z2) % p
  let aa := a * a % p
  let b := sub l.x2 l.z2
  let bb := b * b % p
  let e := sub aa bb
  let c := (l.x3 + l.z3) % p
  let d := sub l.x3 l.z3
  let da := d * a % p
  let cb := c * b % p
  let s := (da + cb) % p
  let t := sub da cb
  ⟨aa * bb % p, e * ((aa + 121665 * e) % p) % p, s * s % p, u * (t * t % p) % p⟩

/-- Take one bit of the multiplier. -/
def Ladder.step (u : Nat) (l : Ladder) (bit : Bool) : Ladder :=
  if bit then (l.swap.double u).swap else l.double u

/-- The x-coordinate of the `k`-fold of the point at `u`, from the highest of 255 bits down. -/
def multiply (k u : Nat) : Nat :=
  let u := u % p
  let bits := (List.range 255).reverse.map k.testBit
  let l := bits.foldl (Ladder.step u) ⟨1, 0, u, 1⟩
  l.x2 * pow l.z2 255 (p - 2) % p

/-- The multiplier that a secret stands for. -/
def clamp (secret : Octets 32) : Nat :=
  let n := secret.toNatLE % (topBit / 2)
  n - n % 8 + topBit / 2

/-- The shared secret of a secret and another's public key. The top bit of the key is ignored. -/
def agree (secret peer : Octets 32) : Octets 32 :=
  .ofNatLE 32 (multiply (clamp secret) (peer.toNatLE % topBit))

/-- The public key of a secret: its multiple of the base point. -/
def publicKey (secret : Octets 32) : Octets 32 := .ofNatLE 32 (multiply (clamp secret) 9)

end PeerCall.Crypto.X25519
