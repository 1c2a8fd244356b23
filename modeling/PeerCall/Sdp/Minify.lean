import PeerCall.Text.Blank

/-!
# Minified session descriptions

Of a session description a code carries only what a peer needs to connect: session and transport
lines, media lines cut down to the payload types in use, the descriptions of those types, and the
first few network candidates over UDP.
-/

namespace PeerCall.Sdp

open Text

/-- A line of a description. -/
abbrev Line := List Char

/-- The payload types in use: PCMU, PCMA, VP8, its retransmissions, H264 and Opus. -/
def allowedTypes : List Line := ["0", "8", "96", "97", "102", "111"].map String.toList

/-- What lines start with that are kept as they are. -/
def keptStarts : List Line :=
  ["v=", "o=", "s=", "t=", "c=", "a=group:", "a=ice-ufrag:", "a=ice-pwd:", "a=ice-options:",
   "a=fingerprint:", "a=setup:", "a=mid:", "a=sendrecv", "a=sendonly", "a=recvonly", "a=rtcp-mux",
   "a=sctp-port:", "a=max-message-size:"].map String.toList

/-- What a line starts with and what follows it. -/
def after? (start : String) (line : Line) : Option Line :=
  if start.toList.isPrefixOf line then some (line.drop start.toList.length) else none

/-- What a line is to the minifier. -/
inductive LineKind
  /-- A network candidate over UDP. -/
  | udpCandidate
  | media
  /-- A line that is kept whole. -/
  | kept
  | dropped
  deriving DecidableEq

/-- Whether a candidate, behind its name, is one over UDP: its third word says so. -/
def isUdp (candidate : Line) : Bool :=
  match (words candidate)[2]? with
  | some transport => asciiLower transport = "udp".toList
  | none => false

/-- Whether the payload type in front is in use. -/
def isAllowed (description : Line) : Bool := allowedTypes.contains ((words description).headD [])

/-- Tell what a line is. -/
def kindOf (line : Line) : LineKind :=
  match after? "a=candidate:" line with
  | some candidate => if isUdp candidate then .udpCandidate else .dropped
  | none =>
    if (after? "m=" line).isSome then .media
    else match (after? "a=rtpmap:" line).or (after? "a=fmtp:" line) with
      | some description => if isAllowed description then .kept else .dropped
      | none => if keptStarts.any (·.isPrefixOf line) then .kept else .dropped

/-- A media line with the payload types in use alone. Lines of data channels, lines without
payload types and lines with none in use stay as they are. -/
def trimMedia (line : Line) : Line :=
  let fields := split ' ' line
  if fields.length ≤ 3 || (after? "m=application" line).isSome then line
  else
    let allowed := (fields.drop 3).filter allowedTypes.contains
    if allowed.isEmpty then line else [' '].intercalate (fields.take 3 ++ allowed)

/-- The lines that are kept, with no more than `candidates` candidates. -/
def keep : Nat → List Line → List Line
  | _, [] => []
  | candidates, line :: rest =>
    match kindOf line with
    | .udpCandidate =>
      match candidates with
      | 0 => keep 0 rest
      | left + 1 => line :: keep left rest
    | .media => trimMedia line :: keep candidates rest
    | .kept => line :: keep candidates rest
    | .dropped => keep candidates rest

/-- The lines of a text: a byte-order mark in front dropped, blanks at their ends dropped, and
empty ones left out. -/
def linesOf (text : List Char) : List Line :=
  let text := match text with
    | '\ufeff' :: rest => rest
    | text => text
  ((split '\n' text).map trimEnd).filter (· ≠ [])

/-- The lines of a minified description. -/
def minifiedLines (text : List Char) (candidates : Nat) : List Line := keep candidates (linesOf text)

/-- A description minified, its lines joined by line feeds. -/
def minify (sdp : String) (candidates : Nat) : String :=
  String.ofList (['\n'].intercalate (minifiedLines sdp.toList candidates))

end PeerCall.Sdp
