import PeerCall.Binary.Format
import PeerCall.Code.Marker
import PeerCall.Deflate.Inflate
import PeerCall.Deflate.Stored
import PeerCall.Json.Value
import PeerCall.Media
import PeerCall.Sdp.Minify
import PeerCall.Text.Base64

/-!
# Out-of-band codes

A session description as one short printable text, for optical codes and manual entry: minified,
its frequent pieces written as markers, packed with a version and its kind, deflated, and written
in the address-safe base64 alphabet. A plain JSON form with a kind and a description is read too.
-/

namespace PeerCall.Code

open Binary

/-- The version of the packed form. -/
def version : UInt8 := 1

/-- How far a code is inflated. -/
def maxInflated : Nat := 64 * 1024

/-- What a code packs. -/
structure Payload where
  version : UInt8
  kind : SdpKind
  /-- The minified description, with markers. -/
  body : String
  deriving DecidableEq

/-- The binary form of a payload. -/
def Payload.format : Format Payload :=
  (Format.u8.pair ((Format.choice [.offer, .answer]).pair Format.text)).imap
    (fun (version, kind, body) => ⟨version, kind, body⟩) (fun p => (p.version, p.kind, p.body))

/-- A decoded code: which side of the exchange it is, and its description. -/
structure Decoded where
  kind : SdpKind
  sdp : String
  deriving DecidableEq

/-- What is wrong with a code. -/
inductive Fault
  | notBase64
  | notDeflate
  | badPayload
  | marker (fault : MarkerFault)
  deriving DecidableEq, Repr

/-- The wording of a fault. -/
def Fault.message : Fault → String
  | .notBase64 => "not base64"
  | .notDeflate => "not deflate"
  | .badPayload => "bad payload"
  | .marker .unknown => "unknown marker"
  | .marker .dangling => "dangling marker"

/-- Why a text is no code. -/
inductive Error
  | empty
  | unsupportedVersion (version : UInt8)
  | invalid (fault : Fault)
  deriving DecidableEq, Repr

/-- The wording of an error. -/
def Error.message : Error → String
  | .empty => "empty code"
  | .unsupportedVersion version => s!"unsupported code version {version.toNat}"
  | .invalid fault => s!"invalid code: {fault.message}"

/-- The bytes that the code of a description packs. -/
def pack (kind : SdpKind) (sdp : String) (candidates : Nat) : Bytes :=
  Payload.format.encode
    ⟨version, kind, String.ofList (substitute (Sdp.minify sdp candidates).toList)⟩

/-- The code of a description, with no more than `candidates` network candidates. -/
def encode (kind : SdpKind) (sdp : String) (candidates : Nat) : String :=
  Text.Base64.encode .urlSafe (Deflate.deflate (pack kind sdp candidates))

/-- The lines of a text, each ended in the way descriptions are. -/
def withLineEnds (body : List Char) : List Char :=
  ((Text.split '\n' body).filter (· ≠ [])).flatMap (· ++ ['\r', '\n'])

/-- The bytes that a text packs, as far as they are inflated. -/
def unpack (code : String) : Except Error Bytes :=
  match Text.Base64.decode .urlSafe code with
  | none => .error (.invalid .notBase64)
  | some stream =>
    match Deflate.inflate maxInflated stream with
    | none => .error (.invalid .notDeflate)
    | some packed => .ok packed

/-- Read the packed form. -/
def decodeCompact (code : String) : Except Error Decoded := do
  let packed ← unpack code
  match Payload.format.decode packed with
  | .error _ => throw (.invalid .badPayload)
  | .ok (payload, _) =>
    if payload.version ≠ version then throw (.unsupportedVersion payload.version)
    else match restore payload.body.toList with
      | .error fault => throw (.invalid (.marker fault))
      | .ok body => pure ⟨payload.kind, String.ofList (withLineEnds body)⟩

/-- The side of the exchange that a name in small or capital letters stands for. -/
def kindOfName? (name : String) : Option SdpKind :=
  let name := Text.asciiLower name.toList
  if name = "offer".toList then some .offer
  else if name = "answer".toList then some .answer
  else none

/-- Read the JSON form: a kind and a description that starts like one. -/
def decodeJson (code : String) : Option Decoded := do
  let field : String → Option Json.Value ← match ← Json.parse? code with
    | .object members => do
      let members ← Json.namedMembers? members
      if ["type", "sdp"].any fun name => (members.filter (·.1 = name)).length > 1 then none
      else some fun name => members.lookup name
    | .array [kind, sdp] => some fun name => if name = "type" then some kind else some sdp
    | _ => none
  match field "type", field "sdp" with
  | some (.text (some name)), some (.text (some sdp)) =>
    let kind ← kindOfName? name
    if "v=".toList.isPrefixOf sdp.toList then some ⟨kind, sdp⟩ else none
  | _, _ => none

/-- Read a code. Blanks around it do not count, and a text that is neither form has the error of
the packed one. -/
def decode (text : String) : Except Error Decoded :=
  let code := String.ofList (Text.trim text.toList)
  if code.isEmpty then .error .empty
  else match decodeCompact code with
    | .ok decoded => .ok decoded
    | .error e =>
      match decodeJson code with
      | some decoded => .ok decoded
      | none => .error e

end PeerCall.Code
