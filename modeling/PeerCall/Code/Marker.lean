/-!
# Markers

Frequent pieces of session descriptions are written as a tilde and a letter, and a tilde as two.
Restoring gives back what was substituted.
-/

namespace PeerCall.Code

/-- Marker letters and the texts they stand for. -/
def tokens : List (Char × List Char) :=
  [('C', "a=candidate:"), ('F', "a=fingerprint:sha-256 "), ('U', "a=ice-ufrag:"),
   ('P', "a=ice-pwd:"), ('O', "a=ice-options:"), ('R', "a=rtpmap:"), ('M', "a=fmtp:"),
   ('B', "a=group:BUNDLE"), ('S', "a=setup:"), ('I', "a=mid:"), ('A', "a=sendrecv"),
   ('X', "a=rtcp-mux"), ('V', "m=video "), ('D', "m=audio "), ('W', "m=application "),
   ('T', "UDP/TLS/RTP/SAVPF"), ('N', "IN IP4 "), ('h', " typ host"), ('s', " typ srflx"),
   ('r', " typ relay"), ('u', " udp "), ('o', "opus/48000/2"), ('p', "a=sctp-port:"),
   ('x', "a=max-message-size:")].map fun (letter, text) => (letter, text.toList)

/-- The longer of two tokens, the second if they are equally long. -/
def longer (best : Option (Char × List Char)) (t : Char × List Char) : Option (Char × List Char) :=
  match best with
  | some b => if b.2.length ≤ t.2.length then some t else some b
  | none => some t

/-- The longest token at the front of a text. -/
def longestToken? (cs : List Char) : Option (Char × List Char) :=
  (tokens.filter fun t => t.2.isPrefixOf cs).foldl longer none

/-- Write tokens as markers; the first `skip` characters belong to a token already written. -/
def substituteFrom : Nat → List Char → List Char
  | _, [] => []
  | skip + 1, _ :: rest => substituteFrom skip rest
  | 0, c :: rest =>
    if c = '~' then '~' :: '~' :: substituteFrom 0 rest
    else match longestToken? (c :: rest) with
      | some (letter, text) => '~' :: letter :: substituteFrom (text.length - 1) rest
      | none => c :: substituteFrom 0 rest

/-- A text with its tokens written as markers, the longest that fits at each place. -/
def substitute (cs : List Char) : List Char := substituteFrom 0 cs

/-- Why a text is not one with markers. -/
inductive MarkerFault
  /-- No token has the letter. -/
  | unknown
  /-- The text ends behind a tilde. -/
  | dangling
  deriving DecidableEq, Repr

/-- The text that one with markers stands for. -/
def restore : List Char → Except MarkerFault (List Char)
  | [] => .ok []
  | ['~'] => .error .dangling
  | '~' :: letter :: rest =>
    if letter = '~' then (restore rest).map ('~' :: ·)
    else match tokens.lookup letter with
      | some text => (restore rest).map (text ++ ·)
      | none => .error .unknown
  | c :: rest => (restore rest).map (c :: ·)

end PeerCall.Code
