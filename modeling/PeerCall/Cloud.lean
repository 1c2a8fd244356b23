import PeerCall.Backoff
import PeerCall.Channel.State
import PeerCall.WireForm

/-!
# The channel over a relay server

A channel to a room on a relay server. Messages go both ways in their JSON form, one to a text
frame; any other frame, and a text that is no message, is passed over. Until it is told to stop the
channel dials again after every failure, with growing delays that start over after a success.

It does no input or output: it reacts to events, and answers with what its owner has to do.
-/

namespace PeerCall.Cloud

/-- The address of a room: the server's, without slashes at its end, and the room's name. -/
def roomUrl (base room : String) : String :=
  String.ofList (base.toList.reverse.dropWhile (· = '/')).reverse ++ "/" ++ room

/-- What happens to a channel. -/
inductive Event
  | connect
  | disconnect
  /-- The application sends. -/
  | send (message : Message)
  /-- The server was reached. -/
  | opened
  /-- The server was not reached. -/
  | failed
  /-- A text frame arrives. -/
  | text (content : String)
  /-- The connection is no more. -/
  | closed
  /-- The delay is over. -/
  | retry

/-- What the owner of a channel has to do. -/
inductive Request
  | dial (url : String)
  /-- Send a text frame. -/
  | write (content : String)
  /-- Hand a message to the application. -/
  | deliver (message : Message)
  /-- Come back after a delay. -/
  | wait (delay : Duration)
  /-- Drop the connection, or the attempt at one. -/
  | close

/-- How far a channel has come. -/
inductive Phase
  | off
  | dialing
  | up
  | waiting
  deriving DecidableEq, Repr

/-- A channel to a room. -/
structure Channel where
  url : String
  state : Watched ChannelState
  phase : Phase
  backoff : Backoff

namespace Channel

/-- A channel that was never connected. -/
def idle (base room : String) : Channel := ⟨roomUrl base room, .start .idle, .off, .standard⟩

/-- Report a state. -/
def report (s : ChannelState) (c : Channel) : Channel := { c with state := c.state.set s }

/-- Dial after a delay. -/
def retryLater (c : Channel) : List Request × Channel :=
  let (delay, backoff) := c.backoff.take
  ([.wait delay], { c with phase := .waiting, backoff })

/-- React to an event. -/
def handle (c : Channel) (event : Event) : List Request × Channel :=
  match c.phase, event with
  | .off, .connect => ([.dial c.url], { c with phase := .dialing }.report .connecting)
  | .off, _ => ([], c)
  | _, .disconnect =>
    ([.close], { c with phase := .off, backoff := c.backoff.reset }.report .disconnected)
  | .dialing, .opened =>
    ([], { c with phase := .up, backoff := c.backoff.reset }.report .connected)
  | .dialing, .failed => (c.report .error).retryLater
  | .up, .send m => ([.write m.toJson], c)
  | .up, .text content => match Message.ofJson content with
    | .ok m => ([.deliver m], c)
    | .error _ => ([], c)
  | .up, .closed => (c.report .connecting).retryLater
  | .waiting, .retry => ([.dial c.url], { c with phase := .dialing }.report .connecting)
  | _, _ => ([], c)

end Channel

end PeerCall.Cloud
