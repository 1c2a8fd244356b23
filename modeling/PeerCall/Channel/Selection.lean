import PeerCall.Channel.State
import PeerCall.Channel.Transport

/-!
# Selecting a transport

Of several channels, each of some transport, the best connected one is selected: the one of least
rank and among equals the one added first. What counts is the state recorded for a channel, which
follows the channel's own state at some delay.
-/

namespace PeerCall

/-- A channel that may be selected. -/
structure Candidate where
  transport : Transport
  /-- Which channel it is. -/
  channel : Nat
  /-- The state recorded for it. -/
  state : ChannelState
  deriving DecidableEq

/-- Notice that another connected channel was selected. -/
structure Switch where
  /-- The transport selected before, if any was. -/
  previous : Option Transport
  current : Transport
  /-- The video bitrate to aim for from now on. -/
  bitrate : Nat
  deriving DecidableEq

/-- Candidates in the order of their addition, and which of them is selected. -/
structure Selection where
  candidates : List Candidate
  best : Option Nat
  /-- The state of all of them together. -/
  state : Watched ChannelState

namespace Selection

/-- No candidates. -/
def empty : Selection := ⟨[], none, .start .idle⟩

/-- The better of two candidates with their positions; of equals the first. -/
def better (a b : Nat × Candidate) : Nat × Candidate :=
  if b.2.transport.rank < a.2.transport.rank then b else a

/-- The first of the candidates of least rank. -/
def leastRank : List (Nat × Candidate) → Option (Nat × Candidate)
  | [] => none
  | c :: cs => some (cs.foldl better c)

/-- The position of the best connected candidate. -/
def bestOf (cs : List Candidate) : Option Nat :=
  (leastRank ((cs.zipIdx.map fun (c, i) => (i, c)).filter fun (_, c) => c.state = .connected)).map
    (·.1)

/-- The state of several candidates together. -/
def jointState (cs : List Candidate) : ChannelState :=
  if cs.any (·.state = .connected) then .connected
  else if cs.any (·.state = .connecting) then .connecting
  else .idle

/-- The transport of a candidate given by position. -/
def transportAt (s : Selection) (i : Option Nat) : Option Transport := do
  (← s.candidates[← i]?).transport

/-- The selected transport. -/
def bestTransport (s : Selection) : Option Transport := s.transportAt s.best

/-- Select again, with a notice if that selected another candidate. -/
def evaluate (s : Selection) : Option Switch × Selection :=
  let best := bestOf s.candidates
  let next := { s with best, state := s.state.set (jointState s.candidates) }
  if best = s.best then (none, next)
  else ((s.transportAt best).map fun t => Switch.mk s.bestTransport t t.bitrateHint, next)

/-- Add a candidate whose channel has a state now. -/
def add (transport : Transport) (channel : Nat) (state : ChannelState) (s : Selection) :
    Option Switch × Selection :=
  evaluate { s with candidates := s.candidates ++ [⟨transport, channel, state⟩] }

/-- Record a state for the candidate at a position. -/
def record (i : Nat) (state : ChannelState) (s : Selection) : Option Switch × Selection :=
  match s.candidates[i]? with
  | some c => evaluate { s with candidates := s.candidates.set i { c with state } }
  | none => (none, s)

/-- Whom a message or a command is for. -/
inductive Route
  /-- The selected channel, and without one every channel that is connected. -/
  | best
  /-- Every channel that is connected. -/
  | connected
  | everyone

/-- The channels on a route, where `live` tells which channels are connected right now. -/
def recipients (live : Nat → Bool) (s : Selection) : Route → List Nat
  | .best => match s.best.bind (s.candidates[·]?) with
    | some c => [c.channel]
    | none => (s.candidates.map (·.channel)).filter live
  | .connected => (s.candidates.map (·.channel)).filter live
  | .everyone => s.candidates.map (·.channel)

end Selection

end PeerCall
