import PeerCall.Identity

/-!
# Hellos

What each end of a fresh link shows the other: the protocol version, its device id and its public
key, forty-nine bytes in all. A hello is checked against nothing but itself and the reader's own
identity, and a sound one settles the link's key.

Main statements: `ofOctets_toOctets` and `toOctets_ofOctets`, hellos and their bytes are the same.
-/

namespace PeerCall.Lan

open Crypto

/-- What a device shows on a fresh link. -/
structure Hello where
  version : UInt8
  device : DeviceId
  publicKey : PublicKey
  deriving DecidableEq

/-- Why a hello is refused. -/
inductive HelloFault
  | unsupportedVersion
  /-- The device id belongs to another key. -/
  | foreignDevice
  /-- The hello is the reader's own. -/
  | self
  deriving DecidableEq, Repr

/-- The wording of a fault. -/
def HelloFault.message : HelloFault → String
  | .unsupportedVersion => "unsupported protocol version"
  | .foreignDevice => "device id does not match public key"
  | .self => "connected to self"

namespace Hello

/-- The bytes of every hello. -/
def size : Nat := 49

/-- The hello of the holder of keys. -/
def ofKeys (keys : Keypair) : Hello := ⟨protocolVersion, keys.deviceId, keys.publicKey⟩

/-- A hello as it is sent. -/
def toOctets (h : Hello) : Octets size :=
  ⟨h.version :: (h.device.bytes ++ h.publicKey.bytes), by
    simp [h.device.length_eq, h.publicKey.length_eq, size]⟩

/-- The hello that the bytes are. -/
def ofOctets (x : Octets size) : Hello :=
  ⟨x.bytes.headD 0, .ofBytesPadded 16 (x.bytes.drop 1), .ofBytesPadded 32 (x.bytes.drop 17)⟩

theorem ofOctets_toOctets (h : Hello) : ofOctets h.toOctets = h := by
  obtain ⟨version, ⟨device, hd⟩, ⟨key, hk⟩⟩ := h
  simp only [ofOctets, toOctets, Octets.ofBytesPadded, List.headD_cons, List.drop_succ_cons,
    List.drop_zero, mk.injEq, Octets.mk.injEq, true_and]
  constructor
  · rw [List.append_assoc, ← hd, List.take_left]
  · rw [← hd, List.drop_left, ← hk, List.take_left]

theorem toOctets_ofOctets (x : Octets size) : (ofOctets x).toOctets = x := by
  obtain ⟨bs, hbs⟩ := x
  cases bs with
  | nil => simp [size] at hbs
  | cons b bs =>
    simp only [size, List.length_cons] at hbs
    apply Octets.ext
    simp only [ofOctets, toOctets, Octets.ofBytesPadded, List.headD_cons, List.drop_succ_cons,
      List.drop_zero, List.cons.injEq, true_and]
    rw [List.take_append_of_le_length (by omega), List.take_append_of_le_length (by simp; omega),
      List.take_of_length_le (l := bs.drop 16) (by simp; omega), List.take_append_drop]

/-- Check a hello that arrived: the device at the other end, and the key of the link to it. -/
def accept (s : Suite) (own : Keypair) (h : Hello) : Except HelloFault (DeviceId × Octets 32) :=
  if h.version ≠ protocolVersion then .error .unsupportedVersion
  else if h.device ≠ .ofPublicKey s h.publicKey then .error .foreignDevice
  else if h.device = own.deviceId then .error .self
  else .ok (h.device, linkKey s (s.agree own.secret h.publicKey))

/-- Check the bytes of a hello that arrived. -/
def parse (s : Suite) (own : Keypair) (x : Octets size) :
    Except HelloFault (DeviceId × Octets 32) := (ofOctets x).accept s own

end Hello

end PeerCall.Lan
