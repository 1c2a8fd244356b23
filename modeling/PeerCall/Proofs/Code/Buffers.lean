import PeerCall.Code.Buffer
import PeerCall.Proofs.Code.Sizes

/-!
# Calls that write all or nothing

A call with a caller's buffer succeeds exactly if its arguments make sense and its whole result has
room there; otherwise the buffer, and the cell for the kind, are as they were. A code that decodes
at all is short, so it goes through buffers as it goes without them.
-/
namespace PeerCall.Code.Buffer

open Deflate Text

variable {content before after : Bytes}

/-! ## Writing -/

/-- A content has room in a buffer, and a call can answer with its length. -/
structure Fits (content buffer : Bytes) : Prop where
  room : content.length ≤ buffer.length
  answerable : content.length ≤ maxAnswer

/-- A buffer before and after a content was written to its front. -/
structure Filled (content before after : Bytes) : Prop where
  length_eq : after.length = before.length
  front : after.take content.length = content
  rest : after.drop content.length = before.drop content.length

theorem write_of_fits (h : Fits content before) :
    ∃ after, write content before = ((content.length : Int), after) ∧
      Filled content before after := by
  have hroom := h.room
  refine ⟨content ++ before.drop content.length, ?_, ?_, List.take_left, List.drop_left⟩
  · rw [write, if_neg]
    simpa using ⟨h.room, h.answerable⟩
  · rw [List.length_append, List.length_drop]
    omega

theorem write_of_not_fits (h : ¬ Fits content before) :
    write content before = (failed, before) := by
  rw [write, if_pos]
  rw [Bool.or_eq_true, decide_eq_true_eq, decide_eq_true_eq]
  by_contra hfits
  exact h ⟨by omega, by omega⟩

/-! ## Encoding -/

theorem kindOfNumber?_eq_some_iff {number : Int} {kind : SdpKind} :
    kindOfNumber? number = some kind ↔ number = numberOfKind kind := by
  rw [kindOfNumber?]
  split_ifs <;> cases kind <;> simp_all [numberOfKind]

/-- An encoding call under any deflater. -/
def encodeWith (deflate : Bytes → Bytes) (kind : Int) (sdp buffer : Option Bytes) :
    Int × Option Bytes :=
  match sdp, buffer, kindOfNumber? kind with
  | some sdp, some buffer, some kind =>
    match Utf8.decode sdp with
    | .ok text =>
      let code := Code.encodeWith deflate kind text candidates
      let (answer, buffer) := write (Utf8.encode code) buffer
      (answer, some buffer)
    | .error _ => (failed, some buffer)
  | _, buffer, _ => (failed, buffer)

theorem encode_eq (kind : Int) (sdp buffer : Option Bytes) :
    encode kind sdp buffer = encodeWith Deflate.deflate kind sdp buffer := rfl

/-- The arguments of an encoding call that can succeed, and the code that it is to write. -/
structure Encodes (deflate : Bytes → Bytes) (kind : Int) (sdp buffer : Option Bytes)
    (code before : Bytes) : Prop where
  code_eq : ∃ side text, kind = numberOfKind side ∧ sdp = some (Utf8.encode text) ∧
    code = Utf8.encode (Code.encodeWith deflate side text candidates)
  buffer_eq : buffer = some before
  fits : Fits code before

variable {deflate : Bytes → Bytes} {number : Int} {sdp code buffer : Option Bytes}
  {kind : Option Int} {decoded : Decoded}

theorem encodeWith_of_encodes (h : Encodes deflate number sdp buffer content before) :
    ∃ after, encodeWith deflate number sdp buffer = ((content.length : Int), some after) ∧
      Filled content before after := by
  obtain ⟨side, text, hnumber, rfl, rfl⟩ := h.code_eq
  obtain rfl := h.buffer_eq
  obtain ⟨after, hwrite, hfilled⟩ := write_of_fits h.fits
  refine ⟨after, ?_, hfilled⟩
  simp only [encodeWith, kindOfNumber?_eq_some_iff.mpr hnumber, Utf8.decode_encode, hwrite]

theorem encodeWith_of_not_encodes
    (h : ¬ ∃ code before, Encodes deflate number sdp buffer code before) :
    encodeWith deflate number sdp buffer = (failed, buffer) := by
  cases sdp with
  | none => rfl
  | some sdp =>
  cases buffer with
  | none => rfl
  | some before =>
  cases hside : kindOfNumber? number with
  | none => simp only [encodeWith, hside]
  | some side =>
      cases htext : Utf8.decode sdp with
      | error fault => simp only [encodeWith, hside, htext]
      | ok text =>
          have hsdp : some sdp = some (Utf8.encode text) := by rw [Utf8.encode_of_decode htext]
          have hfits : ¬ Fits (Utf8.encode (Code.encodeWith deflate side text candidates)) before :=
            fun hfits => h ⟨_, before,
              ⟨side, text, kindOfNumber?_eq_some_iff.mp hside, hsdp, rfl⟩, rfl, hfits⟩
          simp only [encodeWith, hside, htext, write_of_not_fits hfits]

/-! ## Decoding -/

/-- The arguments of a decoding call that can succeed, and what it is to write. -/
structure Decodes (code : Option Bytes) (kind : Option Int) (buffer : Option Bytes)
    (decoded : Decoded) (before : Bytes) : Prop where
  decoded_eq : ∃ text, code = some (Utf8.encode text) ∧ Code.decode text = .ok decoded
  kind_ne_none : kind ≠ none
  buffer_eq : buffer = some before
  fits : Fits (Utf8.encode decoded.sdp) before

theorem decode_of_decodes (h : Decodes code kind buffer decoded before) :
    ∃ after, decode code kind buffer =
        ⟨(Utf8.encode decoded.sdp).length, some (numberOfKind decoded.kind), some after⟩ ∧
      Filled (Utf8.encode decoded.sdp) before after := by
  obtain ⟨text, rfl, hdecoded⟩ := h.decoded_eq
  obtain ⟨old, rfl⟩ := Option.ne_none_iff_exists'.mp h.kind_ne_none
  obtain rfl := h.buffer_eq
  obtain ⟨after, hwrite, hfilled⟩ := write_of_fits h.fits
  refine ⟨after, ?_, hfilled⟩
  have hnonneg : ¬ ((Utf8.encode decoded.sdp).length : Int) < 0 := by omega
  simp only [decode, Utf8.decode_encode, hdecoded, hwrite, if_neg hnonneg]

theorem decode_of_not_decodes (h : ¬ ∃ decoded before, Decodes code kind buffer decoded before) :
    decode code kind buffer = ⟨failed, kind, buffer⟩ := by
  -- One case for each way to fail, in the order of the checks.
  cases code with
  | none => rfl
  | some code =>
  cases kind with
  | none => rfl
  | some old =>
  cases buffer with
  | none => rfl
  | some before =>
      cases htext : Utf8.decode code with
      | error fault => simp only [decode, htext]
      | ok text =>
          cases hdecoded : Code.decode text with
          | error fault => simp only [decode, htext, hdecoded]
          | ok decoded =>
              have hcode : some code = some (Utf8.encode text) := by
                rw [Utf8.encode_of_decode htext]
              have hfits : ¬ Fits (Utf8.encode decoded.sdp) before := fun hfits =>
                h ⟨decoded, before, ⟨text, hcode, hdecoded⟩, Option.some_ne_none old, rfl, hfits⟩
              simp only [decode, htext, hdecoded, write_of_not_fits hfits]
              rfl

/-! ## Both calls -/

/-- A call that either answers with a length or fails. -/
theorem nonneg_iff {answer : Int} {succeeds : Prop} (hdone : succeeds → ∃ n : Nat, answer = n)
    (hfailed : ¬ succeeds → answer = failed) : 0 ≤ answer ↔ succeeds := by
  constructor
  · intro hnonneg
    by_contra hfails
    rw [hfailed hfails] at hnonneg
    exact absurd hnonneg (by decide)
  · intro hsucceeds
    obtain ⟨n, rfl⟩ := hdone hsucceeds
    exact Int.natCast_nonneg n

theorem encodeWith_nonneg_iff : 0 ≤ (encodeWith deflate number sdp buffer).1 ↔
    ∃ code before, Encodes deflate number sdp buffer code before := by
  refine nonneg_iff ?_ fun hnone => by rw [encodeWith_of_not_encodes hnone]
  rintro ⟨code, before, hencodes⟩
  obtain ⟨after, hcall, -⟩ := encodeWith_of_encodes hencodes
  exact ⟨code.length, by rw [hcall]⟩

theorem decode_nonneg_iff : 0 ≤ (decode code kind buffer).answer ↔
    ∃ decoded before, Decodes code kind buffer decoded before := by
  refine nonneg_iff ?_ fun hnone => by rw [decode_of_not_decodes hnone]
  rintro ⟨decoded, before, hdecodes⟩
  obtain ⟨after, hcall, -⟩ := decode_of_decodes hdecodes
  exact ⟨(Utf8.encode decoded.sdp).length, by rw [hcall]⟩

/-- What an encoding call wrote, a decoding call reads, wherever there is room for both. -/
theorem decode_written {side : SdpKind} {text : String} {codeBuffer sdpBuffer : Bytes}
    (hdeflate : Faithful deflate) (hbounded : Bounded deflate) (htext : Addressable text)
    (hdecoded : Code.decode (Code.encodeWith deflate side text candidates) = .ok decoded)
    (hcode : (Utf8.encode (Code.encodeWith deflate side text candidates)).length ≤
      codeBuffer.length)
    (hsdp : (Utf8.encode decoded.sdp).length ≤ sdpBuffer.length) (cell : Int) :
    ∃ (n : Nat) (written after : Bytes),
      encodeWith deflate (numberOfKind side) (some (Utf8.encode text)) (some codeBuffer) =
        ((n : Int), some written) ∧
      decode (some (written.take n)) (some cell) (some sdpBuffer) =
        ⟨(Utf8.encode decoded.sdp).length, some (numberOfKind decoded.kind), some after⟩ ∧
      Filled (Utf8.encode decoded.sdp) sdpBuffer after := by
  have hcodeFits : Fits _ codeBuffer :=
    ⟨hcode, Nat.le_trans (length_code_le hdeflate hbounded htext hdecoded) (by decide)⟩
  have hsdpFits : Fits _ sdpBuffer :=
    ⟨hsdp, Nat.le_trans (length_decoded_le hdeflate htext hdecoded) (by decide)⟩
  obtain ⟨written, hencode, hwritten⟩ :=
    encodeWith_of_encodes ⟨⟨side, text, rfl, rfl, rfl⟩, rfl, hcodeFits⟩
  obtain ⟨after, hdecode, hafter⟩ := decode_of_decodes
    ⟨⟨_, congrArg some hwritten.front, hdecoded⟩, Option.some_ne_none cell, rfl, hsdpFits⟩
  exact ⟨_, written, after, hencode, hdecode, hafter⟩

/-- **Calls with buffers write all or nothing.** A decoding call answers with a number from zero on
exactly if no argument is missing, the code is UTF-8 text that decodes, and its description has room
in the buffer and a length that can be answered with. Then it answers with that length, the
description is at the front of the buffer and the rest is as before, and the cell holds its kind;
otherwise it answers with -1 and nothing has changed. So do encoding calls. A code made here that
decodes at all goes through both calls, and what comes out is what it decodes to. -/
theorem calls_all_or_nothing :
    (∀ code kind buffer,
      (0 ≤ (decode code kind buffer).answer ↔
        ∃ decoded before, Decodes code kind buffer decoded before) ∧
      (∀ decoded before, Decodes code kind buffer decoded before →
        ∃ after, decode code kind buffer =
            ⟨(Utf8.encode decoded.sdp).length, some (numberOfKind decoded.kind), some after⟩ ∧
          Filled (Utf8.encode decoded.sdp) before after) ∧
      ((¬ ∃ decoded before, Decodes code kind buffer decoded before) →
        decode code kind buffer = ⟨-1, kind, buffer⟩)) ∧
    (∀ deflate number sdp buffer,
      (0 ≤ (encodeWith deflate number sdp buffer).1 ↔
        ∃ code before, Encodes deflate number sdp buffer code before) ∧
      (∀ code before, Encodes deflate number sdp buffer code before →
        ∃ after, encodeWith deflate number sdp buffer = ((code.length : Int), some after) ∧
          Filled code before after) ∧
      ((¬ ∃ code before, Encodes deflate number sdp buffer code before) →
        encodeWith deflate number sdp buffer = (-1, buffer))) ∧
    (∀ deflate, Faithful deflate → Bounded deflate →
      ∀ side text decoded, Addressable text →
        Code.decode (Code.encodeWith deflate side text candidates) = .ok decoded →
        ∀ (codeBuffer sdpBuffer : Bytes) (cell : Int),
          (Utf8.encode (Code.encodeWith deflate side text candidates)).length ≤
            codeBuffer.length →
          (Utf8.encode decoded.sdp).length ≤ sdpBuffer.length →
          ∃ (n : Nat) (written after : Bytes),
            encodeWith deflate (numberOfKind side) (some (Utf8.encode text)) (some codeBuffer) =
              ((n : Int), some written) ∧
            decode (some (written.take n)) (some cell) (some sdpBuffer) =
              ⟨(Utf8.encode decoded.sdp).length, some (numberOfKind decoded.kind), some after⟩ ∧
            Filled (Utf8.encode decoded.sdp) sdpBuffer after) := by
  refine ⟨?_, ?_, ?_⟩
  · intro code kind buffer
    exact ⟨decode_nonneg_iff, fun _ _ => decode_of_decodes, decode_of_not_decodes⟩
  · intro deflate number sdp buffer
    exact ⟨encodeWith_nonneg_iff, fun _ _ => encodeWith_of_encodes, encodeWith_of_not_encodes⟩
  · intro deflate hdeflate hbounded side text decoded htext hdecoded codeBuffer sdpBuffer cell
      hcode hsdp
    exact decode_written hdeflate hbounded htext hdecoded hcode hsdp cell

/-- A short answer in buffers of 64 bytes. -/
theorem calls_all_or_nothing_short :
    ∃ (n : Nat) (written after : Bytes),
      encode 1 (some (Utf8.encode "v=0\r\n")) (some (List.replicate 64 0)) =
        ((n : Int), some written) ∧
      decode (some (written.take n)) (some (-1)) (some (List.replicate 64 7)) =
        ⟨5, some 1, some after⟩ ∧
      Filled (Utf8.encode "v=0\r\n") (List.replicate 64 7) after := by
  have hshort : Addressable "v=0\r\n" := by decide
  have hcarried : carried "v=0\r\n" candidates = "v=0\r\n" := by decide
  have hdecodes : Code.decode (Code.encodeWith Deflate.deflate .answer "v=0\r\n" candidates) =
      .ok ⟨.answer, "v=0\r\n"⟩ := by
    rw [decode_encodeWith faithful_deflate, decodeCompact_of_le faithful_deflate hshort (by decide),
      hcarried]
  rw [encode_eq]
  exact calls_all_or_nothing.2.2 Deflate.deflate faithful_deflate bounded_deflate .answer _ _ hshort
    hdecodes (List.replicate 64 0) (List.replicate 64 7) (-1) (by decide +kernel) (by decide)

end PeerCall.Code.Buffer
