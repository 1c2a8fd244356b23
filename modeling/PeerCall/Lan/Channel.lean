import PeerCall.Channel.State
import PeerCall.Lan.Hello
import PeerCall.Lan.Record

/-!
# The channel over a local network

A channel holds one link to every device of its room, and every message goes to all of them. Of two
devices that sight each other the one with the lower id dials, so that each pair ends up with one
link. The channel is connected while it has a link.

It does no input or output: it reacts to events, and answers with what its owner has to do.
-/

namespace PeerCall.Lan

open Crypto

/-- One end of a link. -/
structure Link where
  peer : DeviceId
  /-- None once a frame could not be encrypted. -/
  writer : Option Writer
  reader : Reader

/-- The end of a fresh link, by who dialed. -/
def Link.start (peer : DeviceId) (key : Octets 32) (dialer : Bool) : Link :=
  let nonces := Nonces.first dialer
  ⟨peer, some ⟨key, nonces.write⟩, ⟨key, nonces.read, []⟩⟩

/-- Write a frame on a link: its record, and the link after it. A frame that cannot be encrypted
silences the link. -/
def Link.write (s : Suite) (frame : Bytes) (l : Link) : Option Bytes × Link :=
  match l.writer with
  | none => (none, l)
  | some w => match w.encrypt s frame with
    | .error _ => (none, { l with writer := none })
    | .ok (ciphertext, w) => (some (record ciphertext), { l with writer := some w })

/-- What happens to a channel. -/
inductive ChannelEvent
  | connect
  | disconnect
  /-- The application sends. -/
  | send (message : Message)
  /-- Discovery reports a device. -/
  | sighted (device : DeviceId)
  /-- Dialing a device has ended, with what its hello settled, if it was sound. -/
  | dialed (device : DeviceId) (outcome : Option (DeviceId × Octets 32))
  /-- A device dialed, and its hello was sound. -/
  | accepted (device : DeviceId) (key : Octets 32)
  | arrived (peer : DeviceId) (bytes : Bytes)
  /-- The other end hung up. -/
  | hungUp (peer : DeviceId)

/-- What the owner of a channel has to do. -/
inductive ChannelRequest
  /-- Dial a device, and exchange hellos with it. -/
  | dial (device : DeviceId)
  | write (peer : DeviceId) (bytes : Bytes)
  /-- Hand a message to the application. -/
  | deliver (message : Message)
  /-- Drop the connection that was just made. -/
  | refuse (device : DeviceId)
  /-- Drop the connection of a link. -/
  | close (peer : DeviceId)

/-- The channel over a local network. -/
structure Channel where
  keys : Keypair
  state : Watched ChannelState
  running : Bool
  links : List Link
  dialing : List DeviceId

namespace Channel

/-- A channel that was never connected. -/
def idle (keys : Keypair) : Channel := ⟨keys, .start .idle, false, [], []⟩

def isLinked (device : DeviceId) (c : Channel) : Bool := c.links.any (·.peer = device)

/-- Report connected while there is a link, and connecting otherwise. -/
def refreshState (c : Channel) : Channel :=
  { c with state := c.state.set (if c.links.isEmpty then .connecting else .connected) }

/-- Hellos were exchanged with a device. A second link to it is refused. -/
def addLink (device : DeviceId) (key : Octets 32) (dialer : Bool) (c : Channel) :
    List ChannelRequest × Channel :=
  if c.isLinked device then ([.refuse device], c)
  else ([], refreshState { c with links := c.links ++ [.start device key dialer] })

/-- A link is no more. -/
def dropLink (peer : DeviceId) (c : Channel) : Channel :=
  refreshState { c with links := c.links.filter (·.peer ≠ peer) }

/-- Bytes arrive on a link. -/
def read (s : Suite) (bytes : Bytes) (l : Link) (c : Channel) : List ChannelRequest × Channel :=
  let reading := l.reader.feed s bytes
  let delivered := reading.messages.map ChannelRequest.deliver
  match reading.next with
  | .ok reader =>
    (delivered, { c with links := c.links.map fun m =>
      if m.peer = l.peer then { m with reader } else m })
  | .error _ => (delivered ++ [.close l.peer], c.dropLink l.peer)

/-- React to an event while connected. -/
def react (s : Suite) (c : Channel) : ChannelEvent → List ChannelRequest × Channel
  | .connect => ([], c)
  | .disconnect =>
    (c.links.map (.close ·.peer),
      { c with running := false, links := [], dialing := [], state := c.state.set .disconnected })
  | .send m => match Frame.encode Message.format m with
    | .error _ => ([], c)
    | .ok frame =>
      let written := c.links.map fun l => (l.peer, l.write s frame)
      (written.filterMap fun (peer, bytes, _) => bytes.map (.write peer),
        { c with links := written.map (·.2.2) })
  | .sighted device =>
    if c.keys.deviceId.lt device && !c.isLinked device && !c.dialing.contains device then
      ([.dial device], { c with dialing := c.dialing ++ [device] })
    else ([], c)
  | .dialed device outcome =>
    let c := { c with dialing := c.dialing.filter (· ≠ device) }
    match outcome with
    | some (peer, key) => c.addLink peer key true
    | none => ([], c)
  | .accepted device key => c.addLink device key false
  | .arrived peer bytes => match c.links.find? (·.peer = peer) with
    | some l => c.read s bytes l
    | none => ([], c)
  | .hungUp peer => ([], c.dropLink peer)

/-- React to an event. A channel that is not connected reacts to nothing else. -/
def handle (s : Suite) (c : Channel) (event : ChannelEvent) : List ChannelRequest × Channel :=
  if c.running then c.react s event
  else match event with
    | .connect => ([], { c with running := true, state := c.state.set .connecting })
    | _ => ([], c)

end Channel

end PeerCall.Lan
