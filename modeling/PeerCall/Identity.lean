import PeerCall.Crypto.Suite
import PeerCall.Message
import PeerCall.Text.Hex

/-!
# Devices and envelopes

A device is known by the first half of the digest of its public key; the hexadecimal form is its
sender id. An envelope is a message sealed to a device's key by a fresh key pair, so that only its
holder can read it; sender ids inside and outside have to agree, and envelopes do not nest.
-/

namespace PeerCall

open Crypto

/-- A device's identifier. -/
abbrev DeviceId := Octets 16

/-- The version of the protocol spoken. -/
def protocolVersion : UInt8 := 1

/-- The identifier of the device with a public key. -/
def DeviceId.ofPublicKey (s : Suite) (key : PublicKey) : DeviceId :=
  Octets.ofBytesPadded 16 (s.digest key.bytes).bytes

/-- The identifier as text. -/
def DeviceId.text (id : DeviceId) : String := Text.Hex.encode id.bytes

/-- A device's keys. -/
structure Keypair where
  secret : SecretKey
  publicKey : PublicKey
  deviceId : DeviceId

namespace Keypair

/-- The keys that belong to a secret. -/
def ofSecret (s : Suite) (secret : SecretKey) : Keypair :=
  let publicKey := s.publicKey secret
  ⟨secret, publicKey, .ofPublicKey s publicKey⟩

/-- The sender id of messages of this device. -/
def senderId (k : Keypair) : String := k.deviceId.text

end Keypair

/-- Why bytes could not be encrypted or decrypted. -/
inductive CryptoError
  | encrypt
  | decrypt
  deriving DecidableEq, Repr

/-- The wording of an error. -/
def CryptoError.message : CryptoError → String
  | .encrypt => "encryption failed"
  | .decrypt => "decryption failed"

/-- The nonce with a number: four zero bytes and the number, little-endian. -/
def counterNonce (counter : UInt64) : Octets 12 :=
  ⟨List.replicate 4 0 ++ Bytes.ofNatLE 8 counter.toNat, by simp⟩

/-- Encrypt under a key and a numbered nonce. -/
def encryptNumbered (s : Suite) (key : Octets 32) (counter : UInt64) (plaintext : Bytes) :
    Except CryptoError Bytes :=
  match s.encrypt key (counterNonce counter) plaintext with
  | some ciphertext => .ok ciphertext
  | none => .error .encrypt

/-- Decrypt under a key and a numbered nonce. -/
def decryptNumbered (s : Suite) (key : Octets 32) (counter : UInt64) (ciphertext : Bytes) :
    Except CryptoError Bytes :=
  match s.decrypt key (counterNonce counter) ciphertext with
  | some plaintext => .ok plaintext
  | none => .error .decrypt

/-- A key for one purpose, named by a label, from a shared secret. -/
def deriveKey (s : Suite) (label : String) (shared : Octets 32) : Octets 32 :=
  s.digest (Text.Utf8.encode label ++ shared.bytes)

/-- The key of the link between two devices. -/
def linkKey (s : Suite) (shared : Octets 32) : Octets 32 := deriveKey s "meshcall-link-v1" shared

/-- The key of an envelope. -/
def envelopeKey (s : Suite) (shared : Octets 32) : Octets 32 :=
  deriveKey s "meshcall-envelope-v1" shared

/-- Why a message could not be sealed, or an envelope not opened. -/
inductive EnvelopeError
  | notAnEnvelope
  | nested
  | senderMismatch
  | crypto (cause : CryptoError)
  | encoding (fault : Binary.Fault)
  deriving DecidableEq, Repr

/-- The wording of an error. -/
def EnvelopeError.message : EnvelopeError → String
  | .notAnEnvelope => "message is not an envelope"
  | .nested => "envelopes cannot be nested"
  | .senderMismatch => "envelope sender does not match inner sender"
  | .crypto cause => s!"crypto: {cause.message}"
  | .encoding fault => s!"encoding: {fault.message}"

/-- The error behind an error, where there is one. -/
def EnvelopeError.source? : EnvelopeError → Option String
  | .crypto cause => some cause.message
  | .encoding fault => some fault.message
  | _ => none

namespace Message

/-- Seal a message to a public key. The ephemeral secret serves for this one envelope, so the
nonce is always the first. -/
def sealFor (s : Suite) (recipient : PublicKey) (ephemeral : SecretKey) (m : Message) :
    Except EnvelopeError Message :=
  if m.signal.isEnvelope then .error .nested
  else
    match encryptNumbered s (envelopeKey s (s.agree ephemeral recipient)) 0 (format.encode m) with
    | .ok payload => .ok ⟨m.sender, .encrypted (s.publicKey ephemeral) payload⟩
    | .error cause => .error (.crypto cause)

/-- Open an envelope that is addressed to the holder of a secret. -/
def openWith (s : Suite) (secret : SecretKey) (envelope : Message) : Except EnvelopeError Message :=
  match envelope.signal with
  | .encrypted key payload =>
    match decryptNumbered s (envelopeKey s (s.agree secret key)) 0 payload with
    | .error cause => .error (.crypto cause)
    | .ok plain =>
      match format.decode plain with
      | .error fault => .error (.encoding fault)
      | .ok (inner, _) =>
        if inner.sender ≠ envelope.sender then .error .senderMismatch
        else if inner.signal.isEnvelope then .error .nested
        else .ok inner
  | _ => .error .notAnEnvelope

end Message

end PeerCall
