import PeerCall.Channel.Inbox
import PeerCall.Channel.State

/-!
# Loopback channels

A channel inside one program. It connects at once, keeps a record of all that was passed to it, and
hands a message to its far end, if it has one, while both ends are connected.
-/

namespace PeerCall

/-- One end of a loopback channel. -/
structure Loopback where
  state : Watched ChannelState
  /-- All that was passed to it, delivered or not. -/
  sent : List Message

namespace Loopback

/-- An end that was never used. -/
def idle : Loopback := ⟨.start .idle, []⟩

/-- Report a state. -/
def setState (s : ChannelState) (l : Loopback) : Loopback := { l with state := l.state.set s }

def connect (l : Loopback) : Loopback := l.setState .connected

/-- An end that never connected stays idle. -/
def disconnect (l : Loopback) : Loopback :=
  if l.state.value = .idle then l else l.setState .disconnected

/-- Keep a record of a message. -/
def record (m : Message) (l : Loopback) : Loopback := { l with sent := l.sent ++ [m] }

def isConnected (l : Loopback) : Bool := l.state.value = .connected

/-- Whether a message passed to one end reaches the other. -/
def reaches (near : Loopback) (far : Option Loopback) : Bool :=
  near.isConnected && far.any isConnected

end Loopback

end PeerCall
