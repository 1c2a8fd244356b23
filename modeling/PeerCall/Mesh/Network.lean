import PeerCall.Mesh.Router

/-!
# Networks of routers

Several routers and the frames that they have sent so far, in order. Any frame may be fed to any
router at any time and as often as wanted, so loss, repetition and reordering on the way are all
choices of the steps.
-/

namespace PeerCall.Mesh

/-- Routers, numbered by position, and every frame transmitted so far. -/
structure Network where
  routers : List Router
  frames : List Bytes

namespace Network

/-- What can happen to one router. -/
inductive Step
  /-- Its application sends a message. -/
  | originate (id : PacketId) (timestamp : UInt64) (message : Message)
  /-- Its application floods a packet. -/
  | broadcast (packet : Packet)
  /-- A datagram arrives. -/
  | bytes (datagram : Bytes)
  /-- A frame arrives that some router transmitted. -/
  | feed (frame : Nat)
  /-- It forgets by age. -/
  | sweep

/-- What one router does in a step, given all the frames sent before. -/
def act (frames : List Bytes) (now : Instant) (r : Router) : Step → List RelayAction × Router
  | .originate id timestamp m => r.originate id timestamp m now
  | .broadcast p => r.broadcastPacket p now
  | .bytes datagram => r.onBytes datagram now
  | .feed k => match frames[k]? with
    | some frame => r.onBytes frame now
    | none => ([], r)
  | .sweep => ([], r.sweep now)

/-- The frames among actions. -/
def transmitted (actions : List RelayAction) : List Bytes :=
  actions.filterMap fun
    | .transmit frame => some frame
    | .deliver _ => none

/-- A step of one router at a reading of the clock. -/
def step (i : Nat) (now : Instant) (s : Step) (n : Network) : List RelayAction × Network :=
  match n.routers[i]? with
  | none => ([], n)
  | some r =>
    let (actions, r) := act n.frames now r s
    (actions, ⟨n.routers.set i r, n.frames ++ transmitted actions⟩)

end Network

end PeerCall.Mesh
