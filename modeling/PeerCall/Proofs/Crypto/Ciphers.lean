import PeerCall.Crypto.Suite

/-!
# What is encrypted decrypts to itself

A plaintext under the stream twice is the plaintext again, since the stream is long enough, and a
tag that nobody changed fits. So the standard suite decrypts what it encrypts, up to the size from
which on there is no stream left. A ciphertext is longer than its plaintext by the tag.
-/
namespace PeerCall.Crypto

/-- Whatever is encrypted decrypts to itself, up to a size of the plaintext. -/
def Suite.DecryptsUpTo (s : Suite) (limit : Nat) : Prop :=
  ∀ key nonce plaintext, plaintext.length ≤ limit →
    ∃ ciphertext, s.encrypt key nonce plaintext = some ciphertext ∧
      s.decrypt key nonce ciphertext = some plaintext

theorem Suite.DecryptsUpTo.mono {s : Suite} {limit limit' : Nat} (h : s.DecryptsUpTo limit)
    (hle : limit' ≤ limit) : s.DecryptsUpTo limit' :=
  fun key nonce plaintext hshort => h key nonce plaintext (Nat.le_trans hshort hle)

/-- Whatever was encrypted is of a length that eight bytes can tell, and decrypts to itself. -/
structure Suite.Invertible (s : Suite) : Prop where
  length_lt : ∀ {key nonce plaintext ciphertext}, s.encrypt key nonce plaintext = some ciphertext →
    plaintext.length < Bytes.bound 8
  decrypts : ∀ {key nonce plaintext ciphertext}, s.encrypt key nonce plaintext = some ciphertext →
    s.decrypt key nonce ciphertext = some plaintext

/-- Ciphertexts are so many bytes longer than what was encrypted. -/
def Suite.Lengthens (s : Suite) (overhead : Nat) : Prop :=
  ∀ key nonce plaintext ciphertext, s.encrypt key nonce plaintext = some ciphertext →
    ciphertext.length = plaintext.length + overhead

namespace ChaChaPoly

variable {key : Octets 32} {nonce : Octets 12}

theorem length_block (counter : Nat) : (block key nonce counter).length = 64 := by
  have hwords : ∀ ws : List UInt32,
      (ws.flatMap fun w => Bytes.ofNatLE 4 w.toNat).length = ws.length * 4 := by
    intro ws
    induction ws with
    | nil => rfl
    | cons w ws ih =>
        rw [List.flatMap_cons, List.length_append, Bytes.length_ofNatLE, ih, List.length_cons]
        omega
  rw [block, hwords, Vector.length_toList]

/-- The stream is as long as it has to be. -/
theorem length_keystream (n : Nat) : n ≤ (keystream key nonce n).length := by
  have hblocks : ∀ is : List Nat,
      (is.flatMap fun i => block key nonce (i + 1)).length = is.length * 64 := by
    intro is
    induction is with
    | nil => rfl
    | cons i is ih =>
        rw [List.flatMap_cons, List.length_append, length_block, ih, List.length_cons]
        omega
  rw [keystream, hblocks, List.length_range]
  omega

theorem length_crypt (bs : Bytes) : (crypt key nonce bs).length = bs.length := by
  rw [crypt, List.length_zipWith]
  exact Nat.min_eq_left (length_keystream bs.length)

/-- Under the same stream twice bytes are what they were. -/
theorem zipWith_xor_twice {bs stream : Bytes} (h : bs.length ≤ stream.length) :
    (bs.zipWith (· ^^^ ·) stream).zipWith (· ^^^ ·) stream = bs := by
  induction bs generalizing stream with
  | nil => rfl
  | cons b bs ih =>
      cases stream with
      | nil => cases h
      | cons x stream =>
          rw [List.zipWith_cons_cons, List.zipWith_cons_cons, ih (Nat.le_of_succ_le_succ h),
            UInt8.xor_assoc, UInt8.xor_self, UInt8.xor_zero]

theorem crypt_crypt (bs : Bytes) : crypt key nonce (crypt key nonce bs) = bs := by
  rw [crypt, length_crypt, crypt]
  exact zipWith_xor_twice (length_keystream bs.length)

theorem length_tag (ciphertext : Bytes) : (tag key nonce ciphertext).length = 16 :=
  Bytes.length_ofNatLE 16 _

/-- **What is encrypted decrypts to itself.** -/
theorem decrypt_encrypt {plaintext : Bytes} (h : plaintext.length / 64 < maxBlocks) :
    ∃ record, encrypt key nonce plaintext = some record ∧
      decrypt key nonce record = some plaintext := by
  refine ⟨_, if_neg (Nat.not_le.mpr h), ?_⟩
  let ciphertext := crypt key nonce plaintext
  have hlength : (ciphertext ++ tag key nonce ciphertext).length - 16 = ciphertext.length := by
    rw [List.length_append, length_tag]
    omega
  have hshort : ¬ (ciphertext ++ tag key nonce ciphertext).length < 16 := by
    rw [List.length_append, length_tag]
    omega
  have hblocks : ¬ ciphertext.length / 64 ≥ maxBlocks := by
    rw [length_crypt]
    omega
  change decrypt key nonce (ciphertext ++ tag key nonce ciphertext) = _
  simp only [decrypt, hlength, hshort, List.take_left, List.drop_left, hblocks, if_false, if_true]
  rw [crypt_crypt]

end ChaChaPoly

/-- The largest plaintext that the standard suite encrypts. -/
def Suite.maxPlaintext : Nat := 64 * ChaChaPoly.maxBlocks - 1

theorem Suite.decryptsUpTo_standard : Suite.standard.DecryptsUpTo Suite.maxPlaintext := by
  intro key nonce plaintext h
  refine ChaChaPoly.decrypt_encrypt ?_
  have hpositive : 0 < ChaChaPoly.maxBlocks := by decide
  rw [Suite.maxPlaintext] at h
  omega

theorem Suite.invertible_standard : Suite.standard.Invertible := by
  have hshort : ∀ {key nonce plaintext ciphertext},
      Suite.standard.encrypt key nonce plaintext = some ciphertext →
      plaintext.length / 64 < ChaChaPoly.maxBlocks := by
    intro key nonce plaintext ciphertext h
    change ChaChaPoly.encrypt key nonce plaintext = some ciphertext at h
    rw [ChaChaPoly.encrypt] at h
    split at h
    · cases h
    · omega
  refine ⟨?_, ?_⟩
  · intro key nonce plaintext ciphertext h
    have hblocks := hshort h
    have hbound : 64 * ChaChaPoly.maxBlocks ≤ Bytes.bound 8 := by decide
    omega
  · intro key nonce plaintext ciphertext h
    obtain ⟨record, hencrypt, hdecrypt⟩ : ∃ record,
        ChaChaPoly.encrypt key nonce plaintext = some record ∧
        ChaChaPoly.decrypt key nonce record = some plaintext :=
      ChaChaPoly.decrypt_encrypt (hshort h)
    cases hencrypt.symm.trans h
    exact hdecrypt

theorem Suite.lengthens_standard : Suite.standard.Lengthens 16 := by
  intro key nonce plaintext ciphertext h
  change ChaChaPoly.encrypt key nonce plaintext = some ciphertext at h
  rw [ChaChaPoly.encrypt] at h
  split at h
  · cases h
  · cases h
    rw [List.length_append, ChaChaPoly.length_crypt, ChaChaPoly.length_tag]

end PeerCall.Crypto
