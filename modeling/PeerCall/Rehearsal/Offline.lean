import PeerCall.Cloud
import PeerCall.Lan.Channel
import PeerCall.Mesh.Neighborhood

/-!
# Rehearsing links without a network

Links on a host whose sockets reach nobody. What a link does by itself shows as ever; a rehearsal
ends at the first step that depends on the network, either at once, because a peer cannot reach the
link, or after a wait for something that never comes.
-/

namespace PeerCall.Rehearsal.Offline

/-- Why a rehearsal ends early. -/
inductive Obstacle
  /-- A peer cannot reach the link. -/
  | unreachable
  /-- What was waited for did not come. -/
  | timeout
  deriving DecidableEq, Repr

/-! ## The channel over a local network -/

/-- What can be done with a channel over a local network. -/
inductive LanStep
  /-- A peer connects, or does something with its connection. -/
  | peer
  /-- Discovery reports devices, and a peer waits to be dialed. -/
  | found
  | send (message : Message)
  | disconnect
  /-- Wait for a state. -/
  | state (state : ChannelState)
  /-- Wait for so many messages. -/
  | receive (count : Nat)

/-- A step of a channel, and the state where a step shows it. -/
def lanStep (s : Crypto.Suite) (c : Lan.Channel) :
    LanStep → Except Obstacle (Option ChannelState × Lan.Channel)
  | .peer => .error .unreachable
  | .found => .error .timeout
  | .send m => .ok (none, (c.handle s (.send m)).2)
  | .disconnect =>
    let c := (c.handle s .disconnect).2
    .ok (some c.state.value, c)
  | .state expected =>
    if c.state.value = expected then .ok (some expected, c) else .error .timeout
  | .receive count => if count = 0 then .ok (none, c) else .error .timeout

/-- The states that steps show, and the number of peers linked in the end. -/
def runLan (s : Crypto.Suite) : Lan.Channel → List LanStep →
    Except Obstacle (List (Option ChannelState) × Nat)
  | c, [] => .ok ([], c.links.length)
  | c, step :: steps => do
    let (shown, c) ← lanStep s c step
    let (more, linked) ← runLan s c steps
    pure (shown :: more, linked)

/-- A channel that was told to connect. -/
def startLan (s : Crypto.Suite) (keys : Keypair) : Lan.Channel :=
  ((Lan.Channel.idle keys).handle s .connect).2

/-! ## The stand-in radio -/

/-- What can be done with the stand-in radio. -/
inductive RadioStep
  | advertise
  | scan
  /-- Take the next neighbour that a scan finds before it ends. -/
  | found
  | listen
  /-- Link to a neighbour by its name. -/
  | connect (neighbor : String)
  | write (neighbor : String)
  /-- Anything that asks for no answer: stop adverts, notify those subscribed, let time pass. -/
  | quiet
  /-- A peer sends a datagram. -/
  | datagram
  /-- Wait for a datagram. -/
  | receive

/-- How the operating system words that no datagram can be sent. The radio's sockets take addresses
of the shorter kind only. -/
def undeliverable (e : Net.Endpoint) : Mesh.RadioError :=
  .io (match e.address with
    | .v4 .. => "Network is unreachable (os error 101)"
    | .v6 _ => "Address family not supported by protocol (os error 97)")

/-- A step of the radio: its error, if it has one. Adverts may need a socket that is missing. -/
def radioStep (adverts : Bool) : RadioStep → Except Obstacle (Option Mesh.RadioError)
  | .advertise | .scan => .ok (if adverts then none else some .noAdverts)
  | .connect neighbor | .write neighbor => match Mesh.endpointOf neighbor with
    | .ok endpoint => .ok (some (undeliverable endpoint))
    | .error e => .ok (some e)
  | .found | .listen | .quiet => .ok none
  | .datagram => .error .unreachable
  | .receive => .error .timeout

/-- The errors that steps show. -/
def runRadio (adverts : Bool) (steps : List RadioStep) :
    Except Obstacle (List (Option Mesh.RadioError)) := steps.mapM (radioStep adverts)

/-! ## Discovery -/

/-- What can be done with discovery. -/
inductive DiscoveryStep
  /-- A peer sends a datagram. -/
  | datagram
  /-- Wait for a sighting, or for a response. -/
  | receive

/-- Every step needs the network. -/
def discoveryStep : DiscoveryStep → Except Obstacle Unit
  | .datagram => .error .unreachable
  | .receive => .error .timeout

/-- All the steps, if there are none that need the network. -/
def runDiscovery (steps : List DiscoveryStep) : Except Obstacle (List Unit) :=
  steps.mapM discoveryStep

/-! ## The channel over a relay server -/

/-- A channel over a relay server is waited for until it is connected. Its server is not reached. -/
def startCloud (base room : String) : Except Obstacle Cloud.Channel :=
  let c := ((Cloud.Channel.idle base room).handle .connect).2
  let c := (c.handle .failed).2
  if c.state.value = .connected then .ok c else .error .timeout

end PeerCall.Rehearsal.Offline
