import PeerCall.Proofs.Lan.History
import PeerCall.Proofs.Lan.Places

/-!
# Which hellos are taken

A hello is sound if it has the version spoken and the id of its own key, so the key alone settles
what a sound hello looks like, and nobody takes another one with that key. Two devices with
different ids take each other's hellos. Then they have one key, and what the one end counts its
records by is what the other end reads them under.
-/
namespace PeerCall

open Crypto

/-- An id is the first half of a digest. -/
theorem DeviceId.bytes_ofPublicKey (s : Suite) (publicKey : PublicKey) :
    (ofPublicKey s publicKey).bytes = (s.digest publicKey.bytes).bytes.take 16 := by
  rw [ofPublicKey, Octets.ofBytesPadded]
  exact List.take_append_of_le_length (by rw [Octets.length_eq]; decide)

namespace Lan

variable {s : Suite} {own : Keypair} {device : DeviceId} {key : Octets 32}

/-! ## Sound hellos -/

namespace Hello

variable {h h' : Hello}

/-- A hello with the version spoken and the id of its key. -/
structure Sound (s : Suite) (h : Hello) : Prop where
  version_eq : h.version = protocolVersion
  device_eq : h.device = .ofPublicKey s h.publicKey

/-- The key settles the rest of a sound hello. -/
theorem Sound.eq (hsound : h.Sound s) (hsound' : h'.Sound s) (hkey : h.publicKey = h'.publicKey) :
    h = h' := by
  have hversion : h.version = h'.version := hsound.version_eq.trans hsound'.version_eq.symm
  have hdevice : h.device = h'.device := by
    rw [hsound.device_eq, hkey, ← hsound'.device_eq]
  cases h
  cases h'
  rw [mk.injEq]
  exact ⟨hversion, hdevice, hkey⟩

/-- What is wrong with a hello that is not sound. -/
def blame (h : Hello) : HelloFault :=
  if h.version = protocolVersion then .foreignDevice else .unsupportedVersion

theorem accept_of_not_sound (hunsound : ¬ h.Sound s) : h.accept s own = .error h.blame := by
  rw [accept, blame]
  by_cases hversion : h.version = protocolVersion
  · have hdevice : h.device ≠ .ofPublicKey s h.publicKey :=
      fun hdevice => hunsound ⟨hversion, hdevice⟩
    rw [if_neg (not_not.mpr hversion), if_pos hdevice, if_pos hversion]
  · rw [if_pos hversion, if_neg hversion]

theorem accept_of_sound (hsound : h.Sound s) : h.accept s own =
    if h.device = own.deviceId then .error .self
    else .ok (h.device, linkKey s (s.agree own.secret h.publicKey)) := by
  rw [accept, if_neg (not_not.mpr hsound.version_eq), if_neg (not_not.mpr hsound.device_eq)]

/-- Exactly the sound hellos of others are taken. -/
theorem accept_eq_ok_iff : h.accept s own = .ok (device, key) ↔
    h.Sound s ∧ device = h.device ∧ device ≠ own.deviceId ∧
      key = linkKey s (s.agree own.secret h.publicKey) := by
  by_cases hsound : h.Sound s
  · rw [accept_of_sound hsound]
    by_cases hself : h.device = own.deviceId
    · rw [if_pos hself]
      refine iff_of_false nofun ?_
      rintro ⟨-, rfl, hother, -⟩
      exact hother hself
    · rw [if_neg hself, Except.ok.injEq, Prod.mk.injEq]
      constructor
      · rintro ⟨rfl, rfl⟩
        exact ⟨hsound, rfl, hself, rfl⟩
      · rintro ⟨-, rfl, -, rfl⟩
        exact ⟨rfl, rfl⟩
  · rw [accept_of_not_sound hsound]
    exact iff_of_false nofun fun htaken => hsound htaken.1

/-! ## Their bytes -/

variable {x y : Octets size}

theorem ofOctets_inj (heq : ofOctets x = ofOctets y) : x = y := by
  rw [← toOctets_ofOctets x, heq, toOctets_ofOctets]

theorem publicKey_ofOctets (heq : x.bytes.drop 17 = y.bytes.drop 17) :
    (ofOctets x).publicKey = (ofOctets y).publicKey := by
  simp only [ofOctets, heq]

theorem bytes_eq_iff : x.bytes = h.version :: (h.device.bytes ++ h.publicKey.bytes) ↔
    ofOctets x = h := by
  constructor
  · intro hbytes
    have hoctets : x = h.toOctets := Octets.ext hbytes
    rw [hoctets, ofOctets_toOctets]
  · rintro rfl
    exact congrArg Octets.bytes (toOctets_ofOctets x).symm

/-- The bytes that are taken: the version, the first half of the digest of the key, the key. -/
theorem parse_eq_ok_iff : parse s own x = .ok (device, key) ↔
    ∃ publicKey : PublicKey,
      x.bytes = protocolVersion :: (device.bytes ++ publicKey.bytes) ∧
      device.bytes = (s.digest publicKey.bytes).bytes.take 16 ∧
      device ≠ own.deviceId ∧ key = linkKey s (s.agree own.secret publicKey) := by
  rw [parse, accept_eq_ok_iff]
  constructor
  · rintro ⟨hsound, rfl, hother, rfl⟩
    refine ⟨(ofOctets x).publicKey, ?_, ?_, hother, rfl⟩
    · rw [← hsound.version_eq]
      exact bytes_eq_iff.mpr rfl
    · rw [hsound.device_eq, DeviceId.bytes_ofPublicKey]
  · rintro ⟨publicKey, hbytes, hdevice, hother, rfl⟩
    have hhello : ofOctets x = ⟨protocolVersion, device, publicKey⟩ := bytes_eq_iff.mp hbytes
    rw [hhello]
    refine ⟨⟨rfl, Octets.ext ?_⟩, rfl, hother, rfl⟩
    rw [DeviceId.bytes_ofPublicKey, hdevice]

/-- No other bytes in front of the key of a hello that was taken are taken by anyone. -/
theorem parse_of_forged (hx : parse s own x = .ok (device, key)) (hne : y ≠ x)
    (hkey : y.bytes.drop 17 = x.bytes.drop 17) (reader : Keypair) :
    parse s reader y = .error (ofOctets y).blame := by
  have hsound : (ofOctets x).Sound s := (accept_eq_ok_iff.mp hx).1
  -- Were it sound, the key would make it the hello that was taken.
  refine accept_of_not_sound fun hforged => hne (ofOctets_inj ?_)
  exact hforged.eq hsound (publicKey_ofOctets hkey)

end Hello

/-! ## Nonces of both ends -/

theorem Reader.next_of_decrypt {r next : Reader} {ciphertext : Bytes} {message : Option Message}
    (hread : r.decrypt s ciphertext = .ok (message, next)) :
    next.key = r.key ∧ next.nonce = nextNonce r.nonce := by
  rw [decrypt] at hread
  split at hread
  · cases hread
  · cases hread
    exact ⟨rfl, rfl⟩

/-- The key and the nonce of a reader, by the number of records that it has read. -/
theorem Reader.place_of_decryptAll {r r' : Reader} {ciphertexts : List Bytes}
    (hread : (r.decryptAll s ciphertexts).2 = .ok r') :
    r'.key = r.key ∧ r'.nonce = nextNonce^[ciphertexts.length] r.nonce := by
  induction ciphertexts generalizing r with
  | nil =>
      cases hread
      exact ⟨rfl, rfl⟩
  | cons ciphertext ciphertexts ih =>
      rw [decryptAll] at hread
      cases hfirst : r.decrypt s ciphertext with
      | error fault =>
          rw [hfirst] at hread
          cases hread
      | ok result =>
          obtain ⟨message, next⟩ := result
          rw [hfirst] at hread
          obtain ⟨hkey, hnonce⟩ := next_of_decrypt hfirst
          obtain ⟨hkey', hnonce'⟩ := ih hread
          rw [hkey', hnonce', hkey, hnonce, List.length_cons, Function.iterate_succ_apply]
          exact ⟨rfl, rfl⟩

/-- What one end writes and what the other end reads is counted alike: the records that are made,
and the place of a reader that has read as many. -/
structure Counts (s : Suite) (key : Octets 32) (first : UInt64) (writing reading : Link) :
    Prop where
  written : ∀ frames i x, (writing.sealings s frames)[i]? = some x →
    x.key = key ∧ x.nonce = nextNonce^[i] first
  read : ∀ ciphertexts r, (reading.reader.decryptAll s ciphertexts).2 = .ok r →
    r.key = key ∧ r.nonce = nextNonce^[ciphertexts.length] first

/-- The end that dialed writes what the other one reads, and the other way round. -/
theorem counts_start (s : Suite) (key : Octets 32) (device device' : DeviceId) (dialer : Bool) :
    Counts s key (Nonces.first dialer).write (.start device key dialer)
      (.start device' key (!dialer)) := by
  have hmirror : (Nonces.first dialer).write = (Nonces.first (!dialer)).read := by
    cases dialer <;> rfl
  refine ⟨?_, ?_⟩
  · intro frames i x hx
    exact Writer.use_of_getElem? hx
  · intro ciphertexts r hr
    rw [hmirror]
    exact Reader.place_of_decryptAll hr

/-! ## Two devices -/

/-- **Hellos agree, and none is forged.** Bytes are taken exactly if they are the version spoken, an
id and a key, the id is the first half of the key's digest, and it is not the reader's own; what
comes of them is the id, and the link key with that key. Whoever changes what stands in front of
the key has a hello that everyone refuses. Two devices with different ids take each other's hellos,
to the link key of what they agree on, and whichever of them dialed, each of them counts its records
by what the other one reads them under. -/
theorem hellos_agree (s : Suite) :
    (∀ own x device key, Hello.parse s own x = .ok (device, key) ↔
      ∃ publicKey : PublicKey,
        x.bytes = protocolVersion :: (device.bytes ++ publicKey.bytes) ∧
        device.bytes = (s.digest publicKey.bytes).bytes.take 16 ∧
        device ≠ own.deviceId ∧ key = linkKey s (s.agree own.secret publicKey)) ∧
    (∀ own x result, Hello.parse s own x = .ok result →
      ∀ y, y ≠ x → y.bytes.drop 17 = x.bytes.drop 17 →
        ∀ reader, Hello.parse s reader y = .error (Hello.ofOctets y).blame) ∧
    (∀ a b, (Keypair.ofSecret s a).deviceId ≠ (Keypair.ofSecret s b).deviceId →
      s.agree b (s.publicKey a) = s.agree a (s.publicKey b) →
      let key := linkKey s (s.agree a (s.publicKey b))
      Hello.parse s (.ofSecret s a) (Hello.ofKeys (.ofSecret s b)).toOctets =
        .ok ((Keypair.ofSecret s b).deviceId, key) ∧
      Hello.parse s (.ofSecret s b) (Hello.ofKeys (.ofSecret s a)).toOctets =
        .ok ((Keypair.ofSecret s a).deviceId, key) ∧
      ∀ dialer,
        Counts s key (Nonces.first dialer).write
          (.start (Keypair.ofSecret s b).deviceId key dialer)
          (.start (Keypair.ofSecret s a).deviceId key (!dialer)) ∧
        Counts s key (Nonces.first dialer).read
          (.start (Keypair.ofSecret s a).deviceId key (!dialer))
          (.start (Keypair.ofSecret s b).deviceId key dialer)) := by
  refine ⟨fun own x device key => Hello.parse_eq_ok_iff, ?_, ?_⟩
  · intro own x result hx y hne hkey reader
    exact Hello.parse_of_forged hx hne hkey reader
  · intro a b hdistinct hagree key
    refine ⟨?_, ?_, ?_⟩
    · rw [Hello.parse, Hello.ofOctets_toOctets, accept_ofKeys hdistinct.symm]
    · rw [Hello.parse, Hello.ofOctets_toOctets, accept_ofKeys hdistinct, hagree]
    · intro dialer
      refine ⟨counts_start s _ _ _ dialer, ?_⟩
      cases dialer
      · exact counts_start s _ _ _ true
      · exact counts_start s _ _ _ false

/-- The link key of two devices. -/
def keyOfOneTwo : Octets 32 :=
  linkKey .standard (Suite.standard.agree oneSecret (Suite.standard.publicKey twoSecret))

/-- Two devices, and the hello of one of them with another version. -/
theorem hellos_agree_one_two :
    (Hello.parse .standard (.ofSecret .standard oneSecret)
          (Hello.ofKeys (.ofSecret .standard twoSecret)).toOctets =
        .ok ((Keypair.ofSecret .standard twoSecret).deviceId, keyOfOneTwo) ∧
      Hello.parse .standard (.ofSecret .standard twoSecret)
          (Hello.ofKeys (.ofSecret .standard oneSecret)).toOctets =
        .ok ((Keypair.ofSecret .standard oneSecret).deviceId, keyOfOneTwo)) ∧
    Hello.parse .standard (.ofSecret .standard oneSecret)
        { Hello.ofKeys (.ofSecret .standard twoSecret) with version := 2 }.toOctets =
      .error .unsupportedVersion := by
  obtain ⟨-, hforged, hpair⟩ := hellos_agree .standard
  obtain ⟨hown, hpeer, -⟩ := hpair oneSecret twoSecret distinct_one_two agree_one_two
  refine ⟨⟨hown, hpeer⟩, ?_⟩
  have hrefused := hforged _ _ _ hown
    { Hello.ofKeys (.ofSecret .standard twoSecret) with version := 2 }.toOctets ?_ ?_
    (.ofSecret .standard oneSecret)
  · rwa [Hello.ofOctets_toOctets] at hrefused
  · intro heq
    have hversion := congrArg (·.bytes.head?) heq
    cases hversion
  · rfl

end Lan

end PeerCall
