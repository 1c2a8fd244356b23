import PeerCall.Config.Basic
import PeerCall.Mesh.RecentIds
import PeerCall.WireForm

/-!
# Flooding

A router floods: a packet that it has not handled before is delivered to the application, if it is
for this node, and sent on to every neighbour while its relay budget lasts. It does no input or
output of its own; what is to be done comes back as a list of actions.
-/

namespace PeerCall.Mesh

/-- What the owner of a router has to do. -/
inductive RelayAction
  /-- Hand a message to the application. -/
  | deliver (message : Message)
  /-- Send a frame to every neighbour. -/
  | transmit (frame : Bytes)
  deriving DecidableEq

/-- A node's part in the flood. -/
structure Router where
  node : String
  /-- Relay budget of the packets that it originates. -/
  ttl : UInt8
  recent : RecentIds

namespace Router

/-- A router that has handled nothing. -/
def start (node : String) (config : MeshConfig) : Router :=
  ⟨node, config.defaultTtl, .empty config.seenCapacity config.seenWindow⟩

/-- Send a packet on; one that is too large for a frame stays. -/
def transmit (p : Packet) : List RelayAction :=
  match p.toDatagram with
  | .ok frame => [.transmit frame]
  | .error _ => []

/-- Flood a packet unless it was handled before. -/
def broadcastPacket (p : Packet) (now : Instant) (r : Router) : List RelayAction × Router :=
  match r.recent.insert p.id now with
  | (true, recent) => (transmit p, { r with recent })
  | (false, recent) => ([], { r with recent })

/-- The packet around a message of this node's application, with an id and a timestamp that nobody
used before. -/
def packetFor (id : PacketId) (timestamp : UInt64) (m : Message) (r : Router) : Packet :=
  .broadcast id timestamp r.node .signaling (Text.Utf8.encode m.toJson) r.ttl

/-- Flood a message of this node's application. -/
def originate (id : PacketId) (timestamp : UInt64) (m : Message) (now : Instant) (r : Router) :
    List RelayAction × Router :=
  r.broadcastPacket (r.packetFor id timestamp m) now

/-- The message in a packet's payload, if it holds one. -/
def payloadMessage? (payload : Bytes) : Option Message := do
  let text ← (Text.Utf8.decode payload).toOption
  (Message.ofJson text).toOption

/-- Whether a packet is for a node's application. -/
def isFor (p : Packet) (node : String) : Bool :=
  p.kind = .signaling && (p.isBroadcast || p.target = node)

/-- What to do about a packet seen for the first time. -/
def handle (p : Packet) (node : String) : List RelayAction :=
  (if isFor p node then (payloadMessage? p.payload).toList.map .deliver else [])
    ++ (match p.relayed with
      | some next => transmit next
      | none => [])

/-- Handle the bytes of one datagram. What is no packet is ignored, without a look at the clock. -/
def onBytes (bytes : Bytes) (now : Instant) (r : Router) : List RelayAction × Router :=
  match Packet.ofDatagram bytes with
  | .error _ => ([], r)
  | .ok p =>
    match r.recent.insert p.id now with
    | (true, recent) => (handle p r.node, { r with recent })
    | (false, recent) => ([], { r with recent })

/-- Forget packets by age. -/
def sweep (now : Instant) (r : Router) : Router := { r with recent := r.recent.expire now }

end Router

end PeerCall.Mesh
