import PeerCall.Binary.Format

/-!
# Signaling messages

What two parties of a call tell each other while they set it up: who sent it, and one signal. The
binary form numbers the signals in the order of the type's constructors.
-/

namespace PeerCall

/-- A public key for key agreement. -/
abbrev PublicKey := Octets 32

/-- Which media the host wants for the call. -/
inductive CallMode
  | voice
  | video
  deriving DecidableEq, Repr

/-- Whether the mode has a picture. -/
def CallMode.hasVideo : CallMode → Bool
  | .voice => false
  | .video => true

/-- One network path that a peer offers, as its media engine describes it. -/
structure IceCandidate where
  candidate : String
  /-- The media section it belongs to, by name. -/
  mid : Option String
  /-- The media section it belongs to, by number. -/
  mline : Option UInt16
  deriving DecidableEq

/-- What a signaling message carries. -/
inductive Signal
  /-- Presence announcement. -/
  | join
  | offer (sdp : String)
  | answer (sdp : String)
  | iceCandidate (candidate : IceCandidate)
  /-- Hang up. -/
  | bye
  | chat (text : String)
  /-- The sender's long-term public key, to which envelopes for it are sealed. -/
  | identity (key : PublicKey)
  /-- A sealed envelope around another message. -/
  | encrypted (key : PublicKey) (payload : Bytes)
  /-- The host's choice of media. -/
  | selectMode (mode : CallMode)
  /-- Not understood, or without the payload its kind needs. -/
  | unknown
  deriving DecidableEq

/-- A signaling message. -/
structure Message where
  sender : String
  signal : Signal
  deriving DecidableEq

/-- Whether a signal is a sealed envelope. -/
def Signal.isEnvelope : Signal → Bool
  | .encrypted .. => true
  | _ => false

/-- The kinds that messages are told apart by in texts. -/
inductive Tag
  | join
  | offer
  | answer
  | iceCandidate
  | bye
  | message
  | identity
  | encrypted
  | voiceCall
  | videoCall
  | unknown
  deriving DecidableEq, Repr

/-- The kind of a signal. -/
def Signal.tag : Signal → Tag
  | .join => .join
  | .offer _ => .offer
  | .answer _ => .answer
  | .iceCandidate _ => .iceCandidate
  | .bye => .bye
  | .chat _ => .message
  | .identity _ => .identity
  | .encrypted .. => .encrypted
  | .selectMode .voice => .voiceCall
  | .selectMode .video => .videoCall
  | .unknown => .unknown

/-- The kind of a message. -/
def Message.tag (m : Message) : Tag := m.signal.tag

namespace Tag

/-- The written form of a kind. -/
def text : Tag → String
  | .join => "JOIN"
  | .offer => "OFFER"
  | .answer => "ANSWER"
  | .iceCandidate => "ICE_CANDIDATE"
  | .bye => "BYE"
  | .message => "MESSAGE"
  | .identity => "IDENTITY"
  | .encrypted => "ENCRYPTED"
  | .voiceCall => "VOICE_CALL"
  | .videoCall => "VIDEO_CALL"
  | .unknown => "UNKNOWN"

/-- Read a kind; a text that is none of theirs is the unknown kind. -/
def ofText : String → Tag
  | "JOIN" => .join
  | "OFFER" => .offer
  | "ANSWER" => .answer
  | "ICE_CANDIDATE" => .iceCandidate
  | "BYE" => .bye
  | "MESSAGE" => .message
  | "IDENTITY" => .identity
  | "ENCRYPTED" => .encrypted
  | "VOICE_CALL" => .voiceCall
  | "VIDEO_CALL" => .videoCall
  | _ => .unknown

@[simp] theorem ofText_text (t : Tag) : ofText t.text = t := by cases t <;> rfl

end Tag

open Binary

/-- The binary form of a call mode. -/
def CallMode.format : Format CallMode := .choice [.voice, .video]

/-- The binary form of a network path. -/
def IceCandidate.format : Format IceCandidate :=
  (Format.text.pair ((Format.option .text).pair (Format.option .u16))).imap
    (fun (candidate, mid, mline) => ⟨candidate, mid, mline⟩)
    (fun c => (c.candidate, c.mid, c.mline))

/-- The binary form of a public key: a byte list that has to be 32 long. -/
def publicKeyFormat : Format PublicKey := .octets 32 .endsInNumber

namespace Signal

/-- How many alternatives a signal has. -/
def count : Nat := 10

/-- A signal as its index and its contents. -/
def encode : Signal → Bytes
  | .join => Format.index.encode 0
  | .offer sdp => Format.index.encode 1 ++ Format.text.encode sdp
  | .answer sdp => Format.index.encode 2 ++ Format.text.encode sdp
  | .iceCandidate c => Format.index.encode 3 ++ IceCandidate.format.encode c
  | .bye => Format.index.encode 4
  | .chat text => Format.index.encode 5 ++ Format.text.encode text
  | .identity key => Format.index.encode 6 ++ publicKeyFormat.encode key
  | .encrypted key payload =>
    Format.index.encode 7 ++ (publicKeyFormat.pair .bytes).encode (key, payload)
  | .selectMode mode => Format.index.encode 8 ++ CallMode.format.encode mode
  | .unknown => Format.index.encode 9

/-- Read the index, then the contents that belong to it. -/
def decode (bs : Bytes) : Except Fault (Signal × Bytes) := do
  let (i, rest) ← Format.index.decode bs
  match i with
  | 0 => pure (.join, rest)
  | 1 => Format.text.decodeAs .offer rest
  | 2 => Format.text.decodeAs .answer rest
  | 3 => IceCandidate.format.decodeAs .iceCandidate rest
  | 4 => pure (.bye, rest)
  | 5 => Format.text.decodeAs .chat rest
  | 6 => publicKeyFormat.decodeAs .identity rest
  | 7 => (publicKeyFormat.pair .bytes).decodeAs (fun (key, payload) => .encrypted key payload) rest
  | 8 => CallMode.format.decodeAs .selectMode rest
  | 9 => pure (.unknown, rest)
  | i => throw (.variant i count)

/-- The binary form of a signal. -/
def format : Format Signal := ⟨encode, decode⟩

end Signal

/-- The binary form of a message. -/
def Message.format : Format Message :=
  (Format.text.pair Signal.format).imap (fun (sender, signal) => ⟨sender, signal⟩)
    (fun m => (m.sender, m.signal))

end PeerCall
