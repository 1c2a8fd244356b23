import PeerCall.Code.Basic
import PeerCall.Identity

/-!
# Codes in caller-provided buffers

The calls that hosts without strings of their own link against. A null pointer is an absent
argument; a call writes all of its result or nothing, and answers with the number of bytes
written, or -1.
-/

namespace PeerCall.Code.Buffer

/-- What a failed call answers with. -/
def failed : Int := -1

/-- The largest number that a call can answer with. -/
def maxAnswer : Nat := Bytes.bound 4 / 2 - 1

/-- The candidates that codes made here carry. -/
def candidates : Nat := 3

/-- The version that hosts can ask for. -/
def version : UInt8 := protocolVersion

/-- The side of the exchange that a number stands for. -/
def kindOfNumber? (kind : Int) : Option SdpKind :=
  if kind = 0 then some .offer else if kind = 1 then some .answer else none

/-- The number that stands for a side of the exchange. -/
def numberOfKind : SdpKind → Int
  | .offer => 0
  | .answer => 1

/-- A buffer with the bytes at its front replaced, and the answer; as it was if they do not fit. -/
def write (content : Bytes) (buffer : Bytes) : Int × Bytes :=
  if content.length > buffer.length || content.length > maxAnswer then (failed, buffer)
  else (content.length, content ++ buffer.drop content.length)

/-- Encode a description into a buffer: the answer, and the buffer after the call. -/
def encode (kind : Int) (sdp buffer : Option Bytes) : Int × Option Bytes :=
  match sdp, buffer, kindOfNumber? kind with
  | some sdp, some buffer, some kind =>
    match Text.Utf8.decode sdp with
    | .ok text =>
      let (answer, buffer) := write (Text.Utf8.encode (Code.encode kind text candidates)) buffer
      (answer, some buffer)
    | .error _ => (failed, some buffer)
  | _, buffer, _ => (failed, buffer)

/-- What a decoding call leaves behind. -/
structure DecodeResult where
  answer : Int
  kind : Option Int
  buffer : Option Bytes
  deriving DecidableEq

/-- Decode a code into a buffer and a cell for its kind. -/
def decode (code : Option Bytes) (kind : Option Int) (buffer : Option Bytes) : DecodeResult :=
  match code, kind, buffer with
  | some code, some old, some buffer =>
    match Text.Utf8.decode code with
    | .error _ => ⟨failed, some old, some buffer⟩
    | .ok text =>
      match Code.decode text with
      | .error _ => ⟨failed, some old, some buffer⟩
      | .ok decoded =>
        let (answer, written) := write (Text.Utf8.encode decoded.sdp) buffer
        ⟨answer, some (if answer < 0 then old else numberOfKind decoded.kind), some written⟩
  | _, kind, buffer => ⟨failed, kind, buffer⟩

end PeerCall.Code.Buffer
