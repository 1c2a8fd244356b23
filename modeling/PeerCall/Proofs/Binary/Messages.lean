import PeerCall.Message
import PeerCall.Proofs.Binary.RoundTrip

/-!
# The binary form of messages read back

Every signal has an index of its own and contents that are read back, so a message is read back as
long as each text and byte list in it is short enough for its length to be written.
-/
namespace PeerCall

open Binary Binary.Format

/-- A text whose length in bytes can be written. -/
def ShortText (s : String) : Prop := Counted (Text.Utf8.encode s)

/-- A network path without a text too long to be written. -/
structure IceCandidate.Fits (c : IceCandidate) : Prop where
  candidate : ShortText c.candidate
  mid : ∀ s, c.mid = some s → ShortText s

/-- A signal without a text or a byte list too long to be written. -/
def Signal.Fits : Signal → Prop
  | .offer text | .answer text | .chat text => ShortText text
  | .iceCandidate c => c.Fits
  | .encrypted _ payload => Counted payload
  | .join | .bye | .identity _ | .selectMode _ | .unknown => True

/-- A message without a text or a byte list too long to be written. -/
structure Message.Fits (m : Message) : Prop where
  sender : ShortText m.sender
  signal : m.signal.Fits

theorem CallMode.reads (mode : CallMode) : CallMode.format.Reads mode :=
  reads_choice (by cases mode <;> simp) (by decide)

theorem reads_publicKey (key : PublicKey) : publicKeyFormat.Reads key :=
  reads_octets (by decide) key

theorem IceCandidate.reads {c : IceCandidate} (h : c.Fits) : IceCandidate.format.Reads c := by
  refine Reads.imap (Reads.pair (reads_text h.candidate) (Reads.pair ?_ ?_)) rfl
  · exact reads_option fun s hs => reads_text (h.mid s hs)
  · exact reads_option fun n _ => reads_u16 n

namespace Signal

theorem reads {signal : Signal} (h : signal.Fits) : format.Reads signal := by
  intro rest
  have hindex : ∀ i < 10, ∀ bs, index.decode (index.encode i ++ bs) = .ok (i, bs) :=
    fun i hi => reads_number (Nat.lt_trans hi (by decide))
  change decode (encode signal ++ rest) = _
  cases signal with
  | join => simp only [encode, decode, hindex 0 (by decide), bind, Except.bind]; rfl
  | bye => simp only [encode, decode, hindex 4 (by decide), bind, Except.bind]; rfl
  | unknown => simp only [encode, decode, hindex 9 (by decide), bind, Except.bind]; rfl
  | offer sdp =>
      simp only [encode, decode, List.append_assoc, hindex 1 (by decide), bind, Except.bind]
      have hshort : ShortText sdp := h
      exact (reads_text hshort).decodeAs Signal.offer rest
  | answer sdp =>
      simp only [encode, decode, List.append_assoc, hindex 2 (by decide), bind, Except.bind]
      have hshort : ShortText sdp := h
      exact (reads_text hshort).decodeAs Signal.answer rest
  | chat text =>
      simp only [encode, decode, List.append_assoc, hindex 5 (by decide), bind, Except.bind]
      have hshort : ShortText text := h
      exact (reads_text hshort).decodeAs Signal.chat rest
  | iceCandidate c =>
      simp only [encode, decode, List.append_assoc, hindex 3 (by decide), bind, Except.bind]
      have hfits : c.Fits := h
      exact (IceCandidate.reads hfits).decodeAs Signal.iceCandidate rest
  | identity key =>
      simp only [encode, decode, List.append_assoc, hindex 6 (by decide), bind, Except.bind]
      exact (reads_publicKey key).decodeAs Signal.identity rest
  | encrypted key payload =>
      simp only [encode, decode, List.append_assoc, hindex 7 (by decide), bind, Except.bind]
      have hcounted : Counted payload := h
      exact (Reads.pair (reads_publicKey key) (reads_bytes hcounted)).decodeAs
        (fun x => Signal.encrypted x.1 x.2) rest
  | selectMode mode =>
      simp only [encode, decode, List.append_assoc, hindex 8 (by decide), bind, Except.bind]
      exact (CallMode.reads mode).decodeAs Signal.selectMode rest

end Signal

/-- **A message is read back from its binary form.** -/
theorem Message.reads {m : Message} (h : m.Fits) : Message.format.Reads m :=
  Reads.imap (Reads.pair (reads_text h.sender) (Signal.reads h.signal)) rfl

/-! ## Sizes -/

namespace Message

variable {m : Message}

/-- The size of a message. -/
def size (m : Message) : Nat := (format.encode m).length

theorem size_eq (m : Message) :
    m.size = 8 + (Text.Utf8.encode m.sender).length + (Signal.encode m.signal).length := by
  simp only [size, format, Signal.format, imap, pair, text, List.length_append, length_encode_run]

/-- In a message that is not too long nothing is. -/
theorem fits_of_size (h : m.size < Bytes.bound 8) : m.Fits := by
  rw [size_eq] at h
  refine ⟨?_, ?_⟩
  · rw [ShortText, Counted]
    omega
  · cases hsignal : m.signal with
    | join => trivial
    | bye => trivial
    | unknown => trivial
    | identity key => trivial
    | selectMode mode => trivial
    | offer words | answer words | chat words =>
        simp only [hsignal, Signal.encode, text, List.length_append, length_encode_run] at h
        rw [Signal.Fits, ShortText, Counted]
        omega
    | encrypted key payload =>
        simp only [hsignal, Signal.encode, pair, bytes, List.length_append, length_encode_run] at h
        rw [Signal.Fits, Counted]
        omega
    | iceCandidate c =>
        simp only [hsignal, Signal.encode, IceCandidate.format, text, imap, pair,
          List.length_append, length_encode_run] at h
        refine ⟨?_, ?_⟩
        · rw [ShortText, Counted]
          omega
        · intro mid hmid
          rw [ShortText, Counted]
          rw [hmid] at h
          simp only [option, List.length_append, length_encode_run] at h
          omega

end Message

end PeerCall
