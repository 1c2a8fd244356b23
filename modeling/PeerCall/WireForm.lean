import PeerCall.Json.Value
import PeerCall.Json.Printer
import PeerCall.Message
import PeerCall.Text.Base64

/-!
# The text form of messages

Relays carry a message as a flat JSON object: its kind, its sender, and the fields that its kind
needs. Keys are hexadecimal and envelopes base64. A message of a kind not known here, or without
the payload its kind needs, is read as an unknown message; one without a sender is refused.
-/

namespace PeerCall

/-- A message as a set of named fields. -/
structure WireForm where
  tag : Option Tag
  sender : String
  sdp : Option String
  iceCandidate : Option String
  sdpMid : Option String
  sdpMLineIndex : Option UInt16
  ephemeralKey : Option String
  encryptedPayload : Option String
  deriving DecidableEq

/-- Why a text is no message. -/
inductive WireError
  /-- Not JSON, or not with fields of the right types. -/
  | json
  | missingSender
  | invalidKey
  | invalidPayload
  deriving DecidableEq, Repr

/-- The wording of an error. -/
def WireError.message : WireError → String
  | .json => "malformed json"
  | .missingSender => "message has no sender id"
  | .invalidKey => "invalid public key"
  | .invalidPayload => "invalid encrypted payload"

namespace WireForm

/-- Fields that no kind needs are absent. -/
def bare (tag : Option Tag) (sender : String) : WireForm :=
  ⟨tag, sender, none, none, none, none, none, none⟩

/-- The fields of a message. -/
def ofMessage (m : Message) : WireForm :=
  let base := bare (some m.tag) m.sender
  match m.signal with
  | .offer sdp | .answer sdp => { base with sdp := some sdp }
  | .chat text => { base with sdp := some text }
  | .iceCandidate c =>
    { base with iceCandidate := some c.candidate, sdpMid := c.mid, sdpMLineIndex := c.mline }
  | .identity key => { base with ephemeralKey := some (Text.Hex.encode key.bytes) }
  | .encrypted key payload =>
    { base with
      ephemeralKey := some (Text.Hex.encode key.bytes)
      encryptedPayload := some (Text.Base64.encode .standard payload) }
  | .join | .bye | .selectMode _ | .unknown => base

/-- Read a key of 64 digits. -/
def parseKey (text : String) : Except WireError PublicKey :=
  match (Text.Hex.decode text).bind (Octets.ofBytes? 32) with
  | some key => .ok key
  | none => .error .invalidKey

/-- Read an envelope's payload. -/
def parsePayload (text : String) : Except WireError Bytes :=
  match Text.Base64.decode .standard text with
  | some bytes => .ok bytes
  | none => .error .invalidPayload

/-- The signal that the fields stand for. -/
def signal (w : WireForm) : Except WireError Signal :=
  match w.tag.getD .unknown with
  | .join => .ok .join
  | .bye => .ok .bye
  | .voiceCall => .ok (.selectMode .voice)
  | .videoCall => .ok (.selectMode .video)
  | .offer => .ok ((w.sdp.map .offer).getD .unknown)
  | .answer => .ok ((w.sdp.map .answer).getD .unknown)
  | .message => .ok ((w.sdp.map .chat).getD .unknown)
  | .iceCandidate =>
    .ok ((w.iceCandidate.map fun c => .iceCandidate ⟨c, w.sdpMid, w.sdpMLineIndex⟩).getD .unknown)
  | .identity =>
    match w.ephemeralKey with
    | some key => (parseKey key).map .identity
    | none => .ok .unknown
  | .encrypted =>
    match w.ephemeralKey, w.encryptedPayload with
    | some key, some payload => do
      let key ← parseKey key
      let payload ← parsePayload payload
      pure (.encrypted key payload)
    | _, _ => .ok .unknown
  | .unknown => .ok .unknown

/-- The message that the fields stand for. -/
def toMessage (w : WireForm) : Except WireError Message :=
  if w.sender.isEmpty then .error .missingSender
  else w.signal.map (⟨w.sender, ·⟩)

/-- Write the fields: kind and sender always, the others where they are present. -/
def print (w : WireForm) : List Char :=
  let text (name : String) (value : Option String) : List (String × List Char) :=
    (value.map fun v => (name, Json.quote v)).toList
  let tag := match w.tag with
    | some tag => Json.quote tag.text
    | none => "null".toList
  Json.object
    ([("type", tag), ("senderId", Json.quote w.sender)] ++ text "sdp" w.sdp
      ++ text "iceCandidate" w.iceCandidate ++ text "sdpMid" w.sdpMid
      ++ (w.sdpMLineIndex.map fun n => ("sdpMLineIndex", (toString n.toNat).toList)).toList
      ++ text "ephemeralKey" w.ephemeralKey ++ text "encryptedPayload" w.encryptedPayload)

/-- The names of the fields, in order. -/
def names : List String :=
  ["type", "senderId", "sdp", "iceCandidate", "sdpMid", "sdpMLineIndex", "ephemeralKey",
    "encryptedPayload"]

/-- An optional text field: absent, null or a text. -/
def textField : Option Json.Value → Option (Option String)
  | none | some .null => some none
  | some (.text (some s)) => some (some s)
  | _ => none

/-- An optional 16-bit field. -/
def indexField : Option Json.Value → Option (Option UInt16)
  | none | some .null => some none
  | some (.natural n) => if n < 65536 then some (some (UInt16.ofNat n)) else none
  | _ => none

/-- The form with the given field values. -/
def ofFields (field : String → Option Json.Value) : Option WireForm := do
  let tag ← textField (field "type")
  let sender ← (← textField (field "senderId"))
  let sdp ← textField (field "sdp")
  let iceCandidate ← textField (field "iceCandidate")
  let sdpMid ← textField (field "sdpMid")
  let sdpMLineIndex ← indexField (field "sdpMLineIndex")
  let ephemeralKey ← textField (field "ephemeralKey")
  let encryptedPayload ← textField (field "encryptedPayload")
  pure ⟨tag.map Tag.ofText, sender, sdp, iceCandidate, sdpMid, sdpMLineIndex, ephemeralKey,
    encryptedPayload⟩

/-- Read the fields of an object, no known name twice, or of an array in their order. -/
def ofJson : Json.Value → Option WireForm
  | .object members => do
    let members ← Json.namedMembers? members
    if names.any fun name => (members.filter (·.1 = name)).length > 1 then none
    else ofFields fun name => members.lookup name
  | .array items =>
    if items.length > names.length then none else ofFields fun name => (names.zip items).lookup name
  | _ => none

/-- Read the fields from a text. -/
def parse (text : String) : Except WireError WireForm :=
  match (Json.parse? text).bind ofJson with
  | some w => .ok w
  | none => .error .json

end WireForm

namespace Message

/-- The text form of a message. -/
def toJson (m : Message) : String := String.ofList (WireForm.ofMessage m).print

/-- Read a message from its text form. -/
def ofJson (text : String) : Except WireError Message := (WireForm.parse text).bind WireForm.toMessage

end Message

end PeerCall
