import PeerCall.Packet
import PeerCall.Proofs.Binary.RoundTrip

/-!
# Framed packets read back

The length in front of a frame has four bytes. A frame whose content fits into them is one whole
datagram and holds the value that was written. A content of 4 GiB or more is announced by what its
length leaves modulo `2 ^ 32`; no whole datagram is read back from such a frame.
-/
namespace PeerCall

open Binary Binary.Format

namespace Frame

variable {α : Type} {f : Format α} {a b : α} {frame content : Bytes}

/-- What is framed: the length that its four bytes leave, at most the limit, and the content. -/
theorem eq_of_wrap (h : wrap content = .ok frame) :
    content.length % Bytes.bound lengthSize ≤ maxLength ∧
      frame = Bytes.ofNatLE lengthSize (content.length % Bytes.bound lengthSize) ++ content := by
  unfold wrap at h
  dsimp only at h
  split at h
  · cases h
  · rename_i hle
    cases h
    exact ⟨Nat.le_of_not_lt hle, rfl⟩

/-- A content up to the limit has a frame. -/
theorem wrap_of_le (h : content.length ≤ maxLength) :
    wrap content = .ok (Bytes.ofNatLE lengthSize content.length ++ content) := by
  have hlt : content.length < Bytes.bound lengthSize := Nat.lt_of_le_of_lt h (by decide)
  simp only [wrap, Nat.mod_eq_of_lt hlt, if_neg (Nat.not_lt.mpr h)]

/-- What the front of a frame announces is taken as its content. -/
theorem content_announced {n : Nat} (hn : n ≤ maxLength) (bs : Bytes) :
    Frame.content (Bytes.ofNatLE lengthSize n ++ bs) =
      match split? n bs with
      | none => .error .needMore
      | some (content, _) => .ok (content, lengthSize + n) := by
  have hsplit := split?_append (Bytes.ofNatLE lengthSize n) bs
  rw [Bytes.length_ofNatLE] at hsplit
  have hlt : n < Bytes.bound lengthSize := Nat.lt_of_le_of_lt hn (by decide)
  cases hbs : split? n bs <;>
    simp [Frame.content, hsplit, Bytes.toNatLE_ofNatLE, Nat.mod_eq_of_lt hlt, Nat.not_lt.mpr hn,
      hbs]

/-- A frame that fits into its length is one whole datagram and holds what was written. -/
theorem decodeWhole_encode (ha : f.Reads a) (h : encode f a = .ok frame)
    (hfits : frame.length < Bytes.bound lengthSize) : decodeWhole f frame = .ok a := by
  obtain ⟨hle, hframe⟩ := eq_of_wrap h
  have hlength : (f.encode a).length < Bytes.bound lengthSize := by
    rw [hframe, List.length_append] at hfits
    omega
  rw [Nat.mod_eq_of_lt hlength] at hle hframe
  have hsplit := split?_append (f.encode a) []
  rw [List.append_nil] at hsplit
  have hread := ha []
  rw [List.append_nil] at hread
  have hused : lengthSize + (f.encode a).length = frame.length := by rw [hframe]; simp
  simp only [decodeWhole, decode, hframe, content_announced hle, hsplit, hread, bind, Except.bind,
    pure, Except.pure]
  rw [← hframe, if_pos hused]

/-- A frame that is read as a whole datagram fits into its length. -/
theorem fits_of_decodeWhole (h : encode f a = .ok frame) (hread : decodeWhole f frame = .ok b) :
    frame.length < Bytes.bound lengthSize ∧ (f.encode a).length ≤ maxLength := by
  obtain ⟨hle, hframe⟩ := eq_of_wrap h
  have hlength : frame.length = lengthSize + (f.encode a).length := by rw [hframe]; simp
  have hsmall : maxLength + lengthSize < Bytes.bound lengthSize := by decide
  -- The bytes used are those announced, and no others may follow.
  have hused : lengthSize + (f.encode a).length % Bytes.bound lengthSize = frame.length := by
    rw [decodeWhole, decode, hframe, content_announced hle, ← hframe] at hread
    cases hsplit : split? ((f.encode a).length % Bytes.bound lengthSize) (f.encode a) with
    | none => simp [hsplit, bind, Except.bind] at hread
    | some x =>
        simp only [hsplit, bind, Except.bind] at hread
        cases hdecode : f.decode x.1 with
        | error e => simp [hdecode, throw, throwThe, MonadExceptOf.throw] at hread
        | ok y =>
            simp only [hdecode, pure, Except.pure] at hread
            split at hread
            · assumption
            · cases hread
  omega

end Frame

namespace Packet

variable {p q : Packet} {frame : Bytes}

/-- A packet without a text or a payload too long to be written. -/
structure Fits (p : Packet) : Prop where
  sender : Counted (Text.Utf8.encode p.sender)
  target : Counted (Text.Utf8.encode p.target)
  payload : Counted p.payload

theorem PacketKind.reads (kind : PacketKind) :
    (Format.choice [.signaling, .data, .hello, .ack]).Reads kind :=
  reads_choice (by cases kind <;> simp) (by decide)

theorem reads (h : p.Fits) : format.Reads p := by
  refine Reads.imap ?_ rfl
  refine Reads.pair (reads_octets (by decide) p.id) (Reads.pair (reads_text h.sender) ?_)
  refine Reads.pair (reads_text h.target) (Reads.pair (PacketKind.reads p.kind) ?_)
  refine Reads.pair (reads_bytes h.payload) (Reads.pair (reads_u8 p.hop) ?_)
  exact Reads.pair (reads_u8 p.ttl) (reads_u64 p.timestamp)

/-- The bytes of a packet: its fixed part, and what its texts and its payload take. -/
theorem length_encode (p : Packet) :
    (format.encode p).length = 62 + (Text.Utf8.encode p.sender).length +
      (Text.Utf8.encode p.target).length + p.payload.length := by
  have hid := p.id.length_eq
  simp only [format, imap, pair, octets, text, bytes, choice, index, u8, u64, List.length_append,
    length_encode_run, length_encode_number, hid]
  omega

/-- Successive hops write packets of the same length. -/
theorem length_encode_relayed (h : p.relayed = some q) :
    (format.encode q).length = (format.encode p).length := by
  unfold relayed at h
  split at h
  · cases h
  · cases h
    rw [length_encode, length_encode]

theorem fits_of_length (h : (format.encode p).length < Bytes.bound 8) : p.Fits := by
  rw [length_encode] at h
  refine ⟨?_, ?_, ?_⟩ <;> (unfold Counted; omega)

/-- **A transmitted packet is read back**, if its frame fits into its length. -/
theorem ofDatagram_toDatagram (h : p.toDatagram = .ok frame)
    (hfits : frame.length < Bytes.bound Frame.lengthSize) : ofDatagram frame = .ok p := by
  refine Frame.decodeWhole_encode (reads (fits_of_length ?_)) h hfits
  have hlength := congrArg List.length (Frame.eq_of_wrap h).2
  have hbound : Bytes.bound Frame.lengthSize < Bytes.bound 8 := by decide
  rw [List.length_append] at hlength
  omega

/-- What is read from a transmitted packet is the packet, and its next copy has a frame too. -/
theorem eq_of_ofDatagram (h : p.toDatagram = .ok frame) (hread : ofDatagram frame = .ok q) :
    q = p ∧ (format.encode p).length ≤ Frame.maxLength := by
  obtain ⟨hfits, hle⟩ := Frame.fits_of_decodeWhole h hread
  have hsame := ofDatagram_toDatagram h hfits
  rw [hread] at hsame
  exact ⟨Except.ok.inj hsame, hle⟩

end Packet

end PeerCall
