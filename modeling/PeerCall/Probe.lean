import PeerCall.Media
import PeerCall.Net.Address

/-!
# The probe engine

A media engine without devices: it describes sessions that carry no media and reports a connection
once an offer of one side and an answer of the other are in place. A daemon exercises its signaling
with it end to end.
-/

namespace PeerCall

/-- A session of the probe engine. -/
structure ProbeSession where
  video : Bool
  id : UInt64
  /-- How many descriptions it has made. -/
  version : UInt64
  /-- How often its credentials were renewed. -/
  generation : UInt32
  /-- Our description in place. -/
  ours : Option SdpKind
  /-- The peer's description in place. -/
  theirs : Option SdpKind
  /-- How many network paths the peer has told. -/
  remoteCandidates : Nat
  /-- The video bitrate allowed, in kilobits per second. -/
  bitrate : Option Nat
  deriving DecidableEq

/-- The state of the probe engine. -/
structure Probe where
  report : Watched EngineState
  session : Option ProbeSession
  /-- Its own network paths reported so far. -/
  gathered : List IceCandidate
  /-- The id of the next session. -/
  nextId : UInt64
  deriving DecidableEq

namespace ProbeSession

/-- A number in hexadecimal digits, filled up with zeros to a width. -/
def hexPadded (width n : Nat) : String :=
  let ds := Nat.toDigits 16 n
  String.ofList (List.replicate (width - ds.length) '0' ++ ds)

/-- The user name of the session's credentials. -/
def ufrag (s : ProbeSession) : String := hexPadded 8 (s.id.toUInt32 + s.generation).toNat

/-- The password of the session's credentials. -/
def password (s : ProbeSession) : String :=
  hexPadded 16 s.id.toNat ++ hexPadded 8 s.generation.toNat

/-- The two hexadecimal digits of a byte, in capitals. -/
def hexByte (x : UInt8) : String := (hexPadded 2 x.toNat).map Char.toUpper

/-- A made-up fingerprint: the id in both byte orders, twice. -/
def fingerprint (id : UInt64) : String :=
  let bytes := Bytes.ofNatLE 8 id.toNat
  let once := bytes.reverse ++ bytes
  ":".intercalate ((once ++ once).map hexByte)

/-- A kind of media with its payload types, and what each of them is. -/
structure MediaSection where
  name : String
  payloads : String
  rtpmaps : List String

def audio : MediaSection :=
  ⟨"audio", "111 0 8", ["111 opus/48000/2", "0 PCMU/8000", "8 PCMA/8000"]⟩

def picture : MediaSection :=
  ⟨"video", "96 97 102", ["96 VP8/90000", "97 rtx/90000", "102 H264/90000"]⟩

/-- The media of a session. -/
def sections (s : ProbeSession) : List MediaSection :=
  if s.video then [audio, picture] else [audio]

/-- The part that a side takes in setting up the transport. -/
def setupRole : SdpKind → String
  | .offer => "actpass"
  | .answer => "active"

/-- The lines of one kind of media. -/
def sectionLines (s : ProbeSession) (kind : SdpKind) (m : MediaSection) (mid : Nat) :
    List String :=
  [ s!"m={m.name} 9 UDP/TLS/RTP/SAVPF {m.payloads}",
    "c=IN IP4 0.0.0.0",
    s!"a=mid:{mid}",
    s!"a=ice-ufrag:{s.ufrag}",
    s!"a=ice-pwd:{s.password}",
    s!"a=fingerprint:sha-256 {fingerprint s.id}",
    s!"a=setup:{setupRole kind}",
    "a=sendrecv",
    "a=rtcp-mux" ] ++ m.rtpmaps.map ("a=rtpmap:" ++ ·)

/-- The lines of a description. -/
def lines (s : ProbeSession) (kind : SdpKind) : List String :=
  let mids := " ".intercalate ((List.range s.sections.length).map toString)
  [ "v=0",
    s!"o=- {s.id.toNat} {s.version.toNat} IN IP4 127.0.0.1",
    "s=-",
    "t=0 0",
    s!"a=group:BUNDLE {mids}" ]
    ++ s.sections.zipIdx.flatMap fun (m, mid) => s.sectionLines kind m mid

/-- The description of a session. -/
def describe (s : ProbeSession) (kind : SdpKind) : String :=
  String.join ((s.lines kind).map (· ++ "\r\n"))

end ProbeSession

namespace Probe

open ProbeSession

/-- No session yet; the first one will have the id given. -/
def start (nextId : UInt64) : Probe := ⟨.start .idle, none, [], nextId⟩

/-- The port of the one network path: the one that discards what it gets. -/
def discardPort : Nat := 9

/-- The one network path of a host. -/
def hostCandidate (host : Net.Address) : IceCandidate :=
  ⟨s!"candidate:1 1 udp 2122260223 {host.print} {discardPort} typ host", some "0", some 0⟩

/-- Report the connection, or that it is coming. -/
def settle (paired : Bool) (p : Probe) : Probe :=
  { p with report := p.report.set (if paired then .connected else .connecting) }

/-- Create a session, or switch the mode of the one there is. -/
def setUp (video : Bool) (p : Probe) : Except MediaError Unit × Probe :=
  match p.session with
  | some s => (.ok (), { p with session := some { s with video } })
  | none => (.ok (), { p with
      session := some ⟨video, p.nextId, 0, 0, none, none, 0, none⟩
      report := p.report.set .ready })

/-- Make a description of a session and put it in place. A new offer waits for its answer. -/
def makeDescription (host : Net.Address) (kind : SdpKind) (s : ProbeSession) (p : Probe) :
    Except MediaError String × Probe :=
  if kind = .answer ∧ s.theirs ≠ some .offer then
    (.error (.negotiation "no remote offer to answer"), p)
  else
    let s := { s with
      version := s.version + 1
      ours := some kind
      theirs := if kind = .offer then none else s.theirs }
    (.ok (s.describe kind),
      settle s.theirs.isSome { p with
        session := some s
        gathered := p.gathered ++ [hostCandidate host] })

/-- Make a description of the session there is. -/
def describe (host : Net.Address) (kind : SdpKind) (p : Probe) : Except MediaError String × Probe :=
  match p.session with
  | some s => p.makeDescription host kind s
  | none => (.error .noSession, p)

/-- Renew the credentials, then offer. -/
def restart (host : Net.Address) (p : Probe) : Except MediaError String × Probe :=
  match p.session with
  | some s => p.makeDescription host .offer { s with generation := s.generation + 1 }
  | none => (.error .noSession, p)

/-- Take the peer's description. An answer needs an offer of ours. -/
def setRemote (kind : SdpKind) (sdp : String) (p : Probe) : Except MediaError Unit × Probe :=
  if !sdp.startsWith "v=0" then (.error (.negotiation s!"malformed remote {kind.text}"), p)
  else match p.session with
    | none => (.error .noSession, p)
    | some s =>
      if kind = .answer ∧ s.ours ≠ some .offer then
        (.error (.negotiation "answer without a local offer"), p)
      else (.ok (), settle (kind = .answer) { p with session := some { s with theirs := some kind } })

/-- Count a network path of the peer. -/
def addIce (p : Probe) : Except MediaError Unit × Probe :=
  match p.session with
  | some s =>
    (.ok (), { p with session := some { s with remoteCandidates := s.remoteCandidates + 1 } })
  | none => (.error .noSession, p)

/-- Allow a video bitrate, if there is a session. -/
def allowBitrate (kbps : Nat) (p : Probe) : Probe :=
  { p with session := p.session.map ({ · with bitrate := some kbps }) }

/-- Drop the session. -/
def close (p : Probe) : Probe := { p with session := none, report := p.report.set .closed }

/-- How many network paths the peer has told in this session. -/
def remoteCandidates (p : Probe) : Nat := (p.session.map (·.remoteCandidates)).getD 0

/-- The video bitrate allowed in this session. -/
def bitrate (p : Probe) : Option Nat := p.session.bind (·.bitrate)

/-- The probe engine of a host. -/
def engine (host : Net.Address) : MediaEngine Probe where
  setUp := setUp
  createOffer := describe host .offer
  createAnswer := describe host .answer
  setRemote := setRemote
  addIce _ := addIce
  restartIce? := some (restart host)
  close := close
  report := (·.report)
  hasSession := (·.session.isSome)
  gathered := (·.gathered)
  gatheredCapacity := 32

end Probe

end PeerCall
