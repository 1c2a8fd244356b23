import PeerCall.Crypto.Sha256
import PeerCall.Crypto.X25519
import PeerCall.Crypto.ChaChaPoly

/-!
# Cryptographic suites

What identities, envelopes and links need of cryptography: key agreement, a digest, and
authenticated encryption. They are written against any suite, so that what they promise can be
said under assumptions on the suite; `Suite.standard` is the one that programs use.
-/

namespace PeerCall.Crypto

/-- A secret for key agreement. -/
abbrev SecretKey := Octets 32

/-- The operations of a suite. -/
structure Suite where
  /-- The public key of a secret. -/
  publicKey : SecretKey → Octets 32
  /-- What a secret and another's public key have in common. -/
  agree : SecretKey → Octets 32 → Octets 32
  digest : Bytes → Octets 32
  /-- Encrypt under a key and a nonce; none if the plaintext is too long. -/
  encrypt : Octets 32 → Octets 12 → Bytes → Option Bytes
  /-- Decrypt, if nobody changed the ciphertext. -/
  decrypt : Octets 32 → Octets 12 → Bytes → Option Bytes

/-- X25519, SHA-256 and ChaCha20-Poly1305. -/
def Suite.standard : Suite where
  publicKey := X25519.publicKey
  agree := X25519.agree
  digest := Sha256.digest
  encrypt := ChaChaPoly.encrypt
  decrypt := ChaChaPoly.decrypt

/-- Two parties agree on the same secret, each from its own secret and the other's public key. -/
def Suite.AgreementCommutes (s : Suite) : Prop :=
  ∀ a b, s.agree a (s.publicKey b) = s.agree b (s.publicKey a)

end PeerCall.Crypto
