import PeerCall.Proofs.Binary.Canonical
import PeerCall.Proofs.Binary.Messages
import PeerCall.Proofs.Binary.Packets

/-!
# What a buffer has to start with

A frame is taken off a buffer exactly if its length is there and within the limit, its content is
complete, and the content starts with the binary form of a value. Bytes behind the value, inside
the frame or after it, have no say, and no two values share a frame.
-/
namespace PeerCall

open Binary Binary.Format

namespace Frame

variable {α : Type} {f : Format α} {a b : α} {buffer bytes frame : Bytes} {used used' : Nat}

/-- Values of a format that are small enough for a frame are read back, and nothing else is read
as one of them. -/
structure Framable (f : Format α) : Prop where
  reads : ∀ a, (f.encode a).length ≤ maxLength → f.Reads a
  canonical : f.Canonical

/-- The length that the front of a buffer announces. -/
def announced (buffer : Bytes) : Nat := Bytes.toNatLE (buffer.take lengthSize)

/-- A buffer starts with a frame of a value: so many bytes, of which the first four are the length
of the others, at most the limit, and the others start with the value's binary form. -/
structure StartsWith (f : Format α) (buffer : Bytes) (a : α) (used : Nat) : Prop where
  limit : announced buffer ≤ maxLength
  used_eq : used = lengthSize + announced buffer
  complete : used ≤ buffer.length
  value : f.encode a <+: (buffer.drop lengthSize).take (announced buffer)

/-! ## Contents -/

theorem split?_eq (n : Nat) (bs : Bytes) :
    split? n bs = if n ≤ bs.length then some (bs.take n, bs.drop n) else none := by
  have hfront : (bs.take n).length = n ↔ n ≤ bs.length := by
    rw [List.length_take]
    omega
  simp only [split?, hfront]

/-- The content of a frame by place, and what is missing or wrong otherwise. -/
theorem content_eq (buffer : Bytes) : content buffer =
    if buffer.length < lengthSize then .error .needMore
    else if announced buffer > maxLength then .error .tooLarge
    else if buffer.length < lengthSize + announced buffer then .error .needMore
    else .ok ((buffer.drop lengthSize).take (announced buffer), lengthSize + announced buffer) := by
  rw [content, split?_eq]
  by_cases hlength : lengthSize ≤ buffer.length
  · rw [if_pos hlength, if_neg (Nat.not_lt.mpr hlength)]
    change (if announced buffer > maxLength then _ else _) = _
    by_cases hlimit : announced buffer > maxLength
    · rw [if_pos hlimit, if_pos hlimit]
    · rw [if_neg hlimit, if_neg hlimit, ← announced, split?_eq, List.length_drop]
      by_cases hcomplete : buffer.length < lengthSize + announced buffer
      · rw [if_neg (by omega), if_pos hcomplete]
      · rw [if_pos (by omega), if_neg hcomplete]
  · rw [if_neg hlength, if_pos (Nat.lt_of_not_le hlength)]

theorem content_eq_ok_iff : content buffer = .ok (bytes, used) ↔
    announced buffer ≤ maxLength ∧ used = lengthSize + announced buffer ∧
      used ≤ buffer.length ∧ bytes = (buffer.drop lengthSize).take (announced buffer) := by
  rw [content_eq]
  split
  · refine ⟨fun h => (nomatch h), ?_⟩
    rintro ⟨-, rfl, hused, -⟩
    omega
  · split
    · refine ⟨fun h => (nomatch h), ?_⟩
      rintro ⟨hlimit, -⟩
      omega
    · split
      · refine ⟨fun h => (nomatch h), ?_⟩
        rintro ⟨-, rfl, hused, -⟩
        omega
      · rename_i hlimit hcomplete
        constructor
        · intro h
          cases h
          exact ⟨Nat.le_of_not_lt hlimit, rfl, Nat.le_of_not_lt hcomplete, rfl⟩
        · rintro ⟨-, rfl, -, rfl⟩
          rfl

theorem announced_append (h : lengthSize ≤ buffer.length) (more : Bytes) :
    announced (buffer ++ more) = announced buffer := by
  rw [announced, announced, List.take_append_of_le_length h]

/-- A content that is there stays, whatever arrives behind it. -/
theorem content_append (h : content buffer = .ok (bytes, used)) (more : Bytes) :
    content (buffer ++ more) = .ok (bytes, used) := by
  obtain ⟨hlimit, rfl, hcomplete, rfl⟩ := content_eq_ok_iff.mp h
  refine content_eq_ok_iff.mpr ?_
  rw [announced_append (by omega), List.length_append, List.drop_append_of_le_length (by omega),
    List.take_append_of_le_length (by rw [List.length_drop]; omega)]
  exact ⟨hlimit, rfl, by omega, rfl⟩

/-- A length above the limit stays one. -/
theorem content_append_tooLarge (h : content buffer = .error .tooLarge) (more : Bytes) :
    content (buffer ++ more) = .error .tooLarge := by
  rw [content_eq] at h
  split at h
  · cases h
  · split at h
    · rename_i hlength hlimit
      rw [content_eq, announced_append (Nat.le_of_not_lt hlength), List.length_append,
        if_neg (by omega), if_pos hlimit]
    · split at h <;> cases h

/-- What is read of a content is what it starts with. -/
theorem Framable.decode_iff (hf : Framable f) (hlimit : bytes.length ≤ maxLength) :
    (∃ rest, f.decode bytes = .ok (a, rest)) ↔ f.encode a <+: bytes := by
  constructor
  · rintro ⟨rest, hread⟩
    exact ⟨rest, (hf.canonical hread).symm⟩
  · rintro ⟨rest, rfl⟩
    rw [List.length_append] at hlimit
    exact ⟨rest, hf.reads a (Nat.le_trans (Nat.le_add_right _ _) hlimit) rest⟩

theorem decode_eq_ok : decode f buffer = .ok (a, used) ↔
    ∃ bytes, content buffer = .ok (bytes, used) ∧ ∃ rest, f.decode bytes = .ok (a, rest) := by
  constructor
  · intro h
    obtain ⟨⟨bytes, used'⟩, hcontent, h⟩ := eq_ok_of_bind h
    dsimp only at h
    split at h
    · rename_i a' rest hread
      cases h
      exact ⟨bytes, hcontent, rest, hread⟩
    · cases h
  · rintro ⟨bytes, hcontent, rest, hread⟩
    simp only [decode, hcontent, hread, bind, Except.bind]
    rfl

/-! ## Frames -/

/-- **A frame is taken off a buffer exactly if the buffer starts with it.** -/
theorem Framable.decode_eq_ok_iff (hf : Framable f) :
    decode f buffer = .ok (a, used) ↔ StartsWith f buffer a used := by
  rw [decode_eq_ok]
  constructor
  · rintro ⟨bytes, hcontent, hread⟩
    obtain ⟨hlimit, hused, hcomplete, rfl⟩ := content_eq_ok_iff.mp hcontent
    refine ⟨hlimit, hused, hcomplete, (hf.decode_iff ?_).mp hread⟩
    exact Nat.le_trans (List.length_take_le _ _) hlimit
  · rintro ⟨hlimit, hused, hcomplete, hvalue⟩
    refine ⟨_, content_eq_ok_iff.mpr ⟨hlimit, hused, hcomplete, rfl⟩, (hf.decode_iff ?_).mpr hvalue⟩
    exact Nat.le_trans (List.length_take_le _ _) hlimit

/-- A value's own frame starts with it, whatever comes after. -/
theorem startsWith_own (h : (f.encode a).length ≤ maxLength) (rest : Bytes) :
    StartsWith f (Bytes.ofNatLE lengthSize (f.encode a).length ++ f.encode a ++ rest) a
      (Bytes.ofNatLE lengthSize (f.encode a).length ++ f.encode a).length := by
  have hbound : (f.encode a).length < Bytes.bound lengthSize := Nat.lt_of_le_of_lt h (by decide)
  have hannounced : announced (Bytes.ofNatLE lengthSize (f.encode a).length ++ f.encode a ++ rest) =
      (f.encode a).length := by
    rw [announced, List.append_assoc, List.take_left' (Bytes.length_ofNatLE ..),
      Bytes.toNatLE_ofNatLE, Nat.mod_eq_of_lt hbound]
  refine ⟨?_, ?_, ?_, ?_⟩
  · rw [hannounced]
    exact h
  · rw [hannounced, List.length_append, Bytes.length_ofNatLE]
  · exact (List.prefix_append ..).length_le
  · refine ⟨[], ?_⟩
    rw [hannounced, List.append_assoc, List.drop_left' (Bytes.length_ofNatLE ..), List.take_left,
      List.append_nil]

/-- What a reader of frames has to do: it accepts a buffer exactly if the buffer starts with a
frame of a value, it reads back whatever has a frame, and there is one way only to read a buffer. -/
structure ReadsFrames (f : Format α) : Prop where
  decode_iff : ∀ buffer a used, decode f buffer = .ok (a, used) ↔ StartsWith f buffer a used
  decode_own : ∀ a, (f.encode a).length ≤ maxLength → ∃ frame, encode f a = .ok frame ∧
    ∀ rest, decode f (frame ++ rest) = .ok (a, frame.length)
  unambiguous : ∀ buffer a b used used', StartsWith f buffer a used → StartsWith f buffer b used' →
    a = b ∧ used = used'

theorem Framable.readsFrames (hf : Framable f) : ReadsFrames f := by
  refine ⟨fun _ _ _ => hf.decode_eq_ok_iff, ?_, ?_⟩
  · intro a ha
    exact ⟨_, wrap_of_le ha, fun rest => hf.decode_eq_ok_iff.mpr (startsWith_own ha rest)⟩
  · intro buffer a b used used' ha hb
    rw [← hf.decode_eq_ok_iff] at ha hb
    rw [ha] at hb
    cases hb
    exact ⟨rfl, rfl⟩

end Frame

theorem Message.framable : Frame.Framable Message.format :=
  ⟨fun _ h => Message.reads (fits_of_size (Nat.lt_of_le_of_lt h (by decide))), Message.canonical⟩

theorem Packet.framable : Frame.Framable Packet.format :=
  ⟨fun _ h => Packet.reads (fits_of_length (Nat.lt_of_le_of_lt h (by decide))), Packet.canonical⟩

/-- **Frames of messages and of packets are read exactly.** A buffer is accepted if and only if its
first four bytes announce a length within the limit, so many bytes follow, and they start with the
binary form of the value; there is no other value and no other length in it. Whatever is small
enough has a frame, and the frame is read back in front of any bytes; a packet's frame is read back
as the whole datagram that it is. -/
theorem frames_read_exactly :
    Frame.ReadsFrames Message.format ∧ Frame.ReadsFrames Packet.format ∧
      ∀ p : Packet, (Packet.format.encode p).length ≤ Frame.maxLength →
        ∃ frame, p.toDatagram = .ok frame ∧ Packet.ofDatagram frame = .ok p := by
  refine ⟨Message.framable.readsFrames, Packet.framable.readsFrames, ?_⟩
  intro p hp
  refine ⟨_, Frame.wrap_of_le hp, Packet.ofDatagram_toDatagram (Frame.wrap_of_le hp) ?_⟩
  have hbound : Frame.lengthSize + Frame.maxLength < Bytes.bound Frame.lengthSize := by decide
  rw [List.length_append, Bytes.length_ofNatLE]
  omega

/-- A farewell of `p` in a frame that has two more bytes than it needs, and what follows it. -/
def roomyFrame : Bytes :=
  [15, 0, 0, 0, 1, 0, 0, 0, 0, 0, 0, 0, 112, 4, 0, 0, 0, 7, 7] ++ [255, 255]

/-- The farewell is read, and the bytes behind it in its frame are taken with it; written again, it
takes two bytes less. -/
theorem frames_read_exactly_roomy :
    Frame.decode Message.format roomyFrame = .ok (⟨"p", .bye⟩, 19) ∧
      ∃ frame, Frame.encode Message.format ⟨"p", .bye⟩ = .ok frame ∧
        Frame.decode Message.format (frame ++ [255, 255]) = .ok (⟨"p", .bye⟩, frame.length) := by
  obtain ⟨hmessages, -, -⟩ := frames_read_exactly
  have hstarts : Frame.StartsWith Message.format roomyFrame ⟨"p", .bye⟩ 19 :=
    ⟨by decide +kernel, by decide +kernel, by decide +kernel, by decide +kernel⟩
  obtain ⟨frame, hframe, hread⟩ := hmessages.decode_own ⟨"p", .bye⟩ (by decide +kernel)
  exact ⟨(hmessages.decode_iff _ _ _).mpr hstarts, frame, hframe, hread [255, 255]⟩

end PeerCall
