import PeerCall.Frame
import PeerCall.Identity

/-!
# Records

What travels on a link after the hellos. A message's frame is encrypted under the link's key and
the next nonce of its direction, and the ciphertext goes out behind its length. A reader that meets
a record out of its place, changed or too long gives the link up; one that decrypts to no message
is skipped.

Both directions share the key, so the end that dialed counts in even nonces and the other one in
odd ones.

Main statements: `Reader.drain_incomplete`, `Reader.drain_oversized` and `Reader.drain_record`, what
a reader does by what is at the front of its buffer.
-/

namespace PeerCall.Lan

open Crypto

/-- The nonces that one end is at. -/
structure Nonces where
  write : UInt64
  read : UInt64
  deriving DecidableEq, Repr

/-- The nonces of a fresh link. -/
def Nonces.first (dialer : Bool) : Nonces := if dialer then ⟨0, 1⟩ else ⟨1, 0⟩

/-- The nonce after a nonce in the same direction. The very last one stays. -/
def nextNonce (nonce : UInt64) : UInt64 := .ofNat (min (nonce.toNat + 2) (Bytes.bound 8 - 1))

theorem toNat_nextNonce (nonce : UInt64) :
    (nextNonce nonce).toNat = min (nonce.toNat + 2) (Bytes.bound 8 - 1) := by
  rw [nextNonce, UInt64.toNat_ofNat']
  simp only [Bytes.bound]
  omega

/-- A ciphertext behind its length. -/
def record (ciphertext : Bytes) : Bytes :=
  Bytes.ofNatLE Frame.lengthSize ciphertext.length ++ ciphertext

/-! ## Writing -/

/-- The writing side of one end. -/
structure Writer where
  key : Octets 32
  nonce : UInt64
  deriving DecidableEq

namespace Writer

/-- Encrypt a frame: its ciphertext, and the writer after it. -/
def encrypt (s : Suite) (frame : Bytes) (w : Writer) : Except CryptoError (Bytes × Writer) :=
  (encryptNumbered s w.key w.nonce frame).map fun ciphertext =>
    (ciphertext, { w with nonce := nextNonce w.nonce })

/-- The ciphertexts of frames in turn. A frame that cannot be encrypted silences the writer. -/
def encryptAll (s : Suite) : List Bytes → Writer → List Bytes
  | [], _ => []
  | frame :: frames, w => match w.encrypt s frame with
    | .error _ => []
    | .ok (ciphertext, w) => ciphertext :: encryptAll s frames w

end Writer

/-! ## Reading -/

/-- Why a reader gives a link up. -/
inductive RecordFault
  /-- The announced length is above the limit of a frame. -/
  | oversized
  /-- The ciphertext is not the next one of the other end. -/
  | rejected
  deriving DecidableEq, Repr

/-- The reading side of one end. -/
structure Reader where
  key : Octets 32
  nonce : UInt64
  /-- What has arrived of a record that is not complete. -/
  waiting : Bytes
  deriving DecidableEq

/-- What bytes that arrived amount to: the messages they complete, and the reader after them. -/
structure Reading where
  messages : List Message
  next : Except RecordFault Reader

namespace Reader

/-- A ciphertext arrives: its message, if it holds one, and the reader after it. -/
def decrypt (s : Suite) (ciphertext : Bytes) (r : Reader) :
    Except RecordFault (Option Message × Reader) :=
  match decryptNumbered s r.key r.nonce ciphertext with
  | .error _ => .error .rejected
  | .ok plain =>
    .ok ((Frame.decode Message.format plain).toOption.map (·.1),
      { r with nonce := nextNonce r.nonce })

/-- The messages of ciphertexts in turn, up to the first that is refused. -/
def decryptAll (s : Suite) : List Bytes → Reader → List Message × Except RecordFault Reader
  | [], r => ([], .ok r)
  | ciphertext :: ciphertexts, r => match r.decrypt s ciphertext with
    | .error fault => ([], .error fault)
    | .ok (message, r) =>
      let (messages, last) := decryptAll s ciphertexts r
      (message.toList ++ messages, last)

/-- Take complete records off what has arrived. -/
def drain (s : Suite) (r : Reader) : Reading :=
  match _h : Frame.content r.waiting with
  | .error .needMore => ⟨[], .ok r⟩
  | .error _ => ⟨[], .error .oversized⟩
  | .ok (ciphertext, used) =>
    match r.decrypt s ciphertext with
    | .error fault => ⟨[], .error fault⟩
    | .ok (message, next) =>
      let more := drain s { next with waiting := r.waiting.drop used }
      ⟨message.toList ++ more.messages, more.next⟩
termination_by r.waiting.length
decreasing_by
  have := Frame.used_of_content _h
  simp only [List.length_drop, Frame.lengthSize] at *
  omega

/-- Bytes arrive. -/
def feed (s : Suite) (bytes : Bytes) (r : Reader) : Reading :=
  drain s { r with waiting := r.waiting ++ bytes }

variable {s : Suite} {r : Reader}

/-- A reader waits for the rest of a record. -/
theorem drain_incomplete (h : Frame.content r.waiting = .error .needMore) :
    r.drain s = ⟨[], .ok r⟩ := by
  rw [drain]
  split <;> simp_all

/-- A record that announces too much ends the link before its bytes arrive. -/
theorem drain_oversized (h : Frame.content r.waiting = .error .tooLarge) :
    r.drain s = ⟨[], .error .oversized⟩ := by
  rw [drain]
  split <;> simp_all

/-- A complete record is read, and what follows it next. -/
theorem drain_record {ciphertext : Bytes} {used : Nat} {message : Option Message} {next : Reader}
    (h : Frame.content r.waiting = .ok (ciphertext, used))
    (hd : r.decrypt s ciphertext = .ok (message, next)) :
    r.drain s =
      let more := drain s { next with waiting := r.waiting.drop used }
      ⟨message.toList ++ more.messages, more.next⟩ := by
  rw [drain]
  split <;> simp_all

end Reader

end PeerCall.Lan
