import PeerCall.Binary.Format

/-!
# Frames

A frame is a value's binary form behind its length, four bytes little-endian; at most 16 MiB are
framed. A reader takes a frame off the front of a buffer; bytes between the end of the value and
the announced end of its frame are skipped.
-/

namespace PeerCall.Frame

open Binary

/-- Bytes of a frame's length. -/
def lengthSize : Nat := 4

/-- The longest content of a frame. -/
def maxLength : Nat := 16 * 1024 * 1024

/-- Why a value has no frame. -/
inductive EncodeError
  | tooLarge
  deriving DecidableEq, Repr

/-- The wording of an encoding error. -/
def EncodeError.message : EncodeError → String
  | .tooLarge => "frame too large"

/-- Why the front of a buffer is no frame. -/
inductive DecodeError
  /-- The frame is not complete yet. -/
  | needMore
  /-- The announced length is above the limit. -/
  | tooLarge
  /-- The content is not the value's binary form. -/
  | malformed (fault : Fault)
  deriving DecidableEq, Repr

/-- The wording of a decoding error. -/
def DecodeError.message : DecodeError → String
  | .needMore => "need more bytes"
  | .tooLarge => "frame too large"
  | .malformed fault => s!"decode error: {fault.message}"

variable {α : Type}

/-- The frame of a content. The length is cut to its four bytes before it is compared with the limit. -/
def wrap (content : Bytes) : Except EncodeError Bytes :=
  let length := content.length % Bytes.bound lengthSize
  if length > maxLength then .error .tooLarge
  else .ok (Bytes.ofNatLE lengthSize length ++ content)

/-- Bytes of the frame of a content, by the number of the content's. -/
def framedSize (length : Nat) : Except EncodeError Nat :=
  if length % Bytes.bound lengthSize > maxLength then .error .tooLarge
  else .ok (lengthSize + length)

/-- How much is framed is known without the content. -/
theorem map_length_wrap (content : Bytes) :
    (wrap content).map List.length = framedSize content.length := by
  unfold wrap framedSize
  dsimp only
  split
  · rfl
  · simp [Except.map]

/-- The frame of a value. -/
def encode (f : Format α) (a : α) : Except EncodeError Bytes := wrap (f.encode a)

/-- The content of the frame at the front of a buffer, and the number of bytes it takes there. -/
def content (buffer : Bytes) : Except DecodeError (Bytes × Nat) :=
  match split? lengthSize buffer with
  | none => .error .needMore
  | some (front, rest) =>
    let length := Bytes.toNatLE front
    if length > maxLength then .error .tooLarge
    else match split? length rest with
      | none => .error .needMore
      | some (content, _) => .ok (content, lengthSize + length)

/-- The value framed at the front of a buffer, and the number of bytes it takes there. -/
def decode (f : Format α) (buffer : Bytes) : Except DecodeError (α × Nat) := do
  let (bytes, used) ← content buffer
  match f.decode bytes with
  | .ok (a, _) => pure (a, used)
  | .error fault => throw (.malformed fault)

/-- The value of a buffer that has to be one frame and nothing else. -/
def decodeWhole (f : Format α) (buffer : Bytes) : Except DecodeError α := do
  let (a, used) ← decode f buffer
  if used = buffer.length then pure a else throw (.malformed .trailingBytes)

/-- What taking frames off a buffer yields: the values with their sizes, the error that ended it
and the bytes left, a bad frame among them. -/
structure Drained (α : Type) where
  taken : List (α × Nat)
  stop : DecodeError
  left : Bytes

/-- A frame takes the bytes of its length at least, and no more than the buffer holds. -/
theorem used_of_content {buffer bytes : Bytes} {used : Nat}
    (h : content buffer = .ok (bytes, used)) : lengthSize ≤ used ∧ used ≤ buffer.length := by
  unfold content at h
  split at h
  · cases h
  · rename_i front rest hfront
    have hb := split?_eq_some hfront
    dsimp only at h
    split at h
    · cases h
    · split at h
      · cases h
      · rename_i bytes' rest' hrest
        have hr := split?_eq_some hrest
        cases h
        have : buffer.length = front.length + rest.length := by simp [hb.1]
        have : rest.length = bytes.length + rest'.length := by simp [hr.1]
        omega

theorem used_of_decode {f : Format α} {buffer : Bytes} {a : α} {used : Nat}
    (h : decode f buffer = .ok (a, used)) : lengthSize ≤ used ∧ used ≤ buffer.length := by
  unfold decode at h
  cases hc : content buffer with
  | error e => simp [hc, bind, Except.bind] at h
  | ok x =>
    obtain ⟨bytes, n⟩ := x
    simp only [hc, bind, Except.bind] at h
    split at h
    · cases h
      exact used_of_content hc
    · cases h

/-- Take frames off the front of a buffer until one fails. -/
def drain (f : Format α) (buffer : Bytes) : Drained α :=
  match _h : decode f buffer with
  | .error stop => ⟨[], stop, buffer⟩
  | .ok (a, used) =>
    let more := drain f (buffer.drop used)
    ⟨(a, used) :: more.taken, more.stop, more.left⟩
termination_by buffer.length
decreasing_by
  have := used_of_decode _h
  simp only [List.length_drop, lengthSize] at *
  omega

/-- Append each chunk to the buffer in turn and drain it. -/
def stream (f : Format α) : Bytes → List Bytes → List (Drained α)
  | _, [] => []
  | buffer, chunk :: chunks =>
    let drained := drain f (buffer ++ chunk)
    drained :: stream f drained.left chunks

end PeerCall.Frame
