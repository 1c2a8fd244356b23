import PeerCall.Proofs.Binary.Frames
import PeerCall.Proofs.Text.Utf8

/-!
# What the size guard of frames lets through

The length of a content is cut to four bytes before it is compared with the limit, so the guard
sees what the length leaves modulo `2 ^ 32`. It refuses what is too long, except for contents that
go beyond a multiple of `2 ^ 32` by no more than the limit. Such a content has a frame that
announces too little, and the value is not read back from it.
-/
namespace PeerCall

open Binary Binary.Format

namespace Frame

variable {α : Type} {f : Format α} {a : α} {frame content : Bytes} {n : Nat}

/-- The guard holds for a value: it is refused if it is too long and has a frame otherwise, and a
frame that it has announces as many bytes as follow. -/
structure Guarded (f : Format α) (a : α) : Prop where
  refused : maxLength < (f.encode a).length → encode f a = .error .tooLarge
  framed : (f.encode a).length ≤ maxLength → ∃ frame, encode f a = .ok frame
  announces : ∀ frame, encode f a = .ok frame → announced frame = (frame.drop lengthSize).length

/-- A length goes beyond a multiple of `2 ^ 32` by no more than the limit. -/
def SlipsThrough (n : Nat) : Prop := ∃ k, 1 ≤ k ∧ k * 2 ^ 32 ≤ n ∧ n ≤ k * 2 ^ 32 + maxLength

/-! ## Lengths cut to four bytes -/

theorem bound_lengthSize : Bytes.bound lengthSize = 2 ^ 32 := by decide

/-- What slips through is too long, but its last four bytes do not tell. -/
theorem slipsThrough_iff : SlipsThrough n ↔ maxLength < n ∧ n % 2 ^ 32 ≤ maxLength := by
  have hlimit : maxLength < 2 ^ 32 := by decide
  constructor
  · rintro ⟨k, hk, hfrom, hto⟩
    obtain ⟨rest, rfl⟩ := Nat.exists_eq_add_of_le hfrom
    refine ⟨by omega, ?_⟩
    rw [Nat.mul_add_mod', Nat.mod_eq_of_lt (by omega)]
    omega
  · rintro ⟨habove, hcut⟩
    have hparts := Nat.div_add_mod' n (2 ^ 32)
    refine ⟨n / 2 ^ 32, ?_, by omega, by omega⟩
    by_contra hnone
    rw [Nat.eq_zero_of_not_pos hnone] at hparts
    omega

/-- The outcome of framing, by the last four bytes of the length. -/
theorem wrap_eq (content : Bytes) : wrap content =
    if content.length % 2 ^ 32 > maxLength then .error .tooLarge
    else .ok (Bytes.ofNatLE lengthSize (content.length % 2 ^ 32) ++ content) := by
  rw [← bound_lengthSize]
  rfl

/-- What a frame announces, and what follows. -/
theorem parts_of_wrap (h : wrap content = .ok frame) :
    announced frame = content.length % 2 ^ 32 ∧ frame.drop lengthSize = content := by
  obtain ⟨-, rfl⟩ := eq_of_wrap h
  rw [announced, List.take_left' (Bytes.length_ofNatLE ..), Bytes.toNatLE_ofNatLE, Nat.mod_mod,
    List.drop_left' (Bytes.length_ofNatLE ..), bound_lengthSize]
  exact ⟨rfl, rfl⟩

/-! ## The guard for one value -/

/-- What slips through has a frame, which announces too little. -/
theorem framed_of_slipsThrough (h : SlipsThrough (f.encode a).length) :
    ∃ frame, encode f a = .ok frame ∧ frame.drop lengthSize = f.encode a ∧
      announced frame = (f.encode a).length % 2 ^ 32 ∧
        announced frame < (frame.drop lengthSize).length := by
  obtain ⟨habove, hcut⟩ := slipsThrough_iff.mp h
  have hframe := wrap_eq (f.encode a)
  rw [if_neg (Nat.not_lt.mpr hcut)] at hframe
  obtain ⟨hannounced, hrest⟩ := parts_of_wrap hframe
  refine ⟨_, hframe, hrest, hannounced, ?_⟩
  rw [hannounced, hrest]
  omega

/-- The guard holds for a value unless its length slips through. -/
theorem guarded_iff : Guarded f a ↔ ¬SlipsThrough (f.encode a).length := by
  constructor
  · intro hguarded hslips
    obtain ⟨frame, hframe, -, -, hless⟩ := framed_of_slipsThrough hslips
    exact Nat.ne_of_lt hless (hguarded.announces frame hframe)
  · intro hkept
    rw [slipsThrough_iff] at hkept
    have hlimit : maxLength < 2 ^ 32 := by decide
    refine ⟨?_, fun h => ⟨_, wrap_of_le h⟩, ?_⟩
    · intro habove
      rw [encode, wrap_eq, if_pos (by omega)]
    · intro frame hframe
      obtain ⟨hcut, -⟩ := eq_of_wrap hframe
      obtain ⟨hannounced, hrest⟩ := parts_of_wrap hframe
      rw [bound_lengthSize] at hcut
      rw [hannounced, hrest, Nat.mod_eq_of_lt (by omega)]

/-- A frame is read back exactly if the value is not too long. -/
theorem Framable.decode_own_iff (hf : Framable f) (h : encode f a = .ok frame) :
    (∃ used, decode f frame = .ok (a, used)) ↔ (f.encode a).length ≤ maxLength := by
  constructor
  · rintro ⟨used, hread⟩
    obtain ⟨hlimit, -, -, hvalue⟩ := hf.decode_eq_ok_iff.mp hread
    exact Nat.le_trans hvalue.length_le (Nat.le_trans (List.length_take_le _ _) hlimit)
  · intro hle
    obtain ⟨frame', hframe', hread⟩ := hf.readsFrames.decode_own a hle
    cases h.symm.trans hframe'
    exact ⟨_, by simpa using hread []⟩

/-! ## Long chats -/

/-- A chat of so many characters of one byte. -/
def longChat (n : Nat) : Message := ⟨"", .chat (String.ofList (List.replicate n 'a'))⟩

theorem length_encode_longChat (n : Nat) : (Message.format.encode (longChat n)).length = 20 + n := by
  have htext : (Text.Utf8.encode (String.ofList (List.replicate n 'a'))).length = n := by
    rw [Text.Utf8.length_encode, String.toList_ofList, Text.Utf8.size_replicate]
    exact Nat.mul_one n
  have hsender : (Text.Utf8.encode "").length = 0 := rfl
  have hindex : (Format.index.encode 5).length = 4 := rfl
  change Message.size (longChat n) = _
  rw [Message.size_eq, longChat]
  simp only [Signal.encode, Format.text, List.length_append, length_encode_run, htext, hsender,
    hindex]
  omega

/-- A chat of 4 GiB, 20 bytes of which are not its text, is framed behind the length zero. -/
theorem chat_of_four_gibibytes_is_framed :
    ¬Guarded Message.format (longChat 4294967276) ∧
      ∃ frame, encode Message.format (longChat 4294967276) = .ok frame ∧ announced frame = 0 ∧
        (frame.drop lengthSize).length = 4294967296 := by
  have hlength := length_encode_longChat 4294967276
  have hslips : SlipsThrough (Message.format.encode (longChat 4294967276)).length := by
    rw [hlength]
    exact ⟨1, by decide, by decide, by decide⟩
  refine ⟨fun hguarded => guarded_iff.mp hguarded hslips, ?_⟩
  obtain ⟨frame, hframe, hrest, hannounced, -⟩ := framed_of_slipsThrough hslips
  refine ⟨frame, hframe, ?_, ?_⟩
  · rw [hannounced, hlength]
    decide
  · rw [hrest, hlength]

/-! ## The guard for every value -/

/-- What the size guard does with a value of a format. It holds unless the length slips through; if
it does, there is a frame that announces what the last four bytes of the length say. A frame is read
back exactly if the value is not too long. -/
structure SizeGuard (f : Format α) (a : α) : Prop where
  map_length : (encode f a).map List.length = framedSize (f.encode a).length
  guarded_iff : Guarded f a ↔ ¬SlipsThrough (f.encode a).length
  slips : SlipsThrough (f.encode a).length →
    ∃ frame, encode f a = .ok frame ∧ frame.drop lengthSize = f.encode a ∧
      announced frame = (f.encode a).length % 2 ^ 32 ∧
        announced frame < (frame.drop lengthSize).length
  decode_iff : ∀ frame, encode f a = .ok frame →
    ((∃ used, decode f frame = .ok (a, used)) ↔ (f.encode a).length ≤ maxLength)

theorem Framable.sizeGuard (hf : Framable f) (a : α) : SizeGuard f a :=
  ⟨map_length_wrap _, Frame.guarded_iff, framed_of_slipsThrough, fun _ => hf.decode_own_iff⟩

/-- **The size guard of frames holds up to `2 ^ 32`, and again behind the limit after each
multiple of it.** A message or a packet of any length is refused if it is too long and otherwise
framed behind its length, unless the length goes beyond a multiple of `2 ^ 32` by no more than the
limit. Then there is a frame that announces no more than the excess, and neither the message nor
the datagram is read back. -/
theorem size_guard_up_to_wrap (m : Message) (p : Packet) :
    SizeGuard Message.format m ∧ SizeGuard Packet.format p ∧
      ∀ datagram : Bytes, p.toDatagram = .ok datagram →
        (Packet.ofDatagram datagram = .ok p ↔ (Packet.format.encode p).length ≤ maxLength) := by
  refine ⟨Message.framable.sizeGuard m, Packet.framable.sizeGuard p, ?_⟩
  intro datagram hdatagram
  constructor
  · intro hread
    exact (Packet.eq_of_ofDatagram hdatagram hread).2
  · intro hle
    refine Packet.ofDatagram_toDatagram hdatagram ?_
    obtain ⟨-, rfl⟩ := eq_of_wrap hdatagram
    have hbound : lengthSize + maxLength < Bytes.bound lengthSize := by decide
    rw [List.length_append, Bytes.length_ofNatLE]
    omega

/-- An empty packet. -/
def emptyPacket : Packet := .broadcast (.zero 16) 0 "" .data [] 1

/-- An empty packet is guarded, and so read back; a chat that is 1024 bytes longer than 4 GiB is
framed as one of 1024 bytes, and not read back. -/
theorem size_guard_up_to_wrap_longChat :
    (Guarded Packet.format emptyPacket ∧ ∃ datagram, emptyPacket.toDatagram = .ok datagram ∧
      Packet.ofDatagram datagram = .ok emptyPacket) ∧
    ∃ frame, encode Message.format (longChat 4294968300) = .ok frame ∧ announced frame = 1024 ∧
      ¬∃ used, decode Message.format frame = .ok (longChat 4294968300, used) := by
  obtain ⟨hchat, hpacket, hdatagram⟩ := size_guard_up_to_wrap (longChat 4294968300) emptyPacket
  have hshort : (Packet.format.encode emptyPacket).length ≤ maxLength := by decide +kernel
  have hlong := length_encode_longChat 4294968300
  refine ⟨?_, ?_⟩
  · have hguarded : Guarded Packet.format emptyPacket := by
      rw [hpacket.guarded_iff, slipsThrough_iff]
      omega
    obtain ⟨datagram, hsent⟩ := hguarded.framed hshort
    exact ⟨hguarded, datagram, hsent, (hdatagram datagram hsent).mpr hshort⟩
  · obtain ⟨frame, hframe, -, hannounced, -⟩ := hchat.slips (by
      rw [hlong]
      exact ⟨1, by decide, by decide, by decide⟩)
    refine ⟨frame, hframe, ?_, ?_⟩
    · rw [hannounced, hlong]
      decide
    · rw [hchat.decode_iff _ hframe, hlong]
      decide

end Frame

end PeerCall
