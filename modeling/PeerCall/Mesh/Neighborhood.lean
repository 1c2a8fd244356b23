import PeerCall.Duration
import PeerCall.Mesh.Datagram

/-!
# Neighbourhoods

What a node of the stand-in radio knows of its neighbours, each named by the address of its data
socket: the ones it is linked to, the ones that subscribed to it, and when it last heard of each. A
neighbour that stays silent too long is forgotten altogether.
-/

namespace PeerCall.Mesh

open Net

/-- How long a neighbour may be silent. -/
def neighborTimeout : Duration := Duration.ofSecs 15

/-- How long a scan listens for adverts. -/
def scanWindow : Duration := Duration.ofSecs 5

/-- Why the radio does not do what it is asked to. -/
inductive RadioError
  | unavailable (reason : String)
  | link (neighbor reason : String)
  | io (reason : String)
  deriving DecidableEq, Repr

/-- The wording of an error. -/
def RadioError.message : RadioError → String
  | .unavailable reason => s!"radio unavailable: {reason}"
  | .link neighbor reason => s!"link to {neighbor} failed: {reason}"
  | .io reason => s!"io: {reason}"

/-- The error of a radio without a socket for adverts. -/
def RadioError.noAdverts : RadioError := .unavailable "no advertisement socket"

/-- The data socket that a neighbour's name stands for. -/
def endpointOf (neighbor : String) : Except RadioError Endpoint :=
  match Endpoint.parse? neighbor with
  | some endpoint => .ok endpoint
  | none => .error (.link neighbor "not a socket address")

/-- A node's tables of its neighbours. -/
structure Neighborhood where
  node : String
  /-- The neighbours linked to, each with the number of the stream that its notifications go to. -/
  links : List (Endpoint × Nat)
  /-- The neighbours that are to be notified. -/
  subscribers : List Endpoint
  /-- When an advert, a subscription or else the first link was last seen. -/
  heard : List (Endpoint × Instant)
  /-- Whether anybody takes what neighbours write. -/
  listening : Bool
  /-- Streams opened so far. -/
  streams : Nat

/-- What happens to a node's tables. -/
inductive NeighborhoodEvent
  /-- A datagram arrives on the data socket. -/
  | datagram (sender : Endpoint) (bytes : Bytes)
  /-- A datagram arrives on the socket for adverts. -/
  | advert (sender : Endpoint) (bytes : Bytes)
  | connect (neighbor : Endpoint)
  | listen
  /-- Time to forget. -/
  | prune

/-- What comes of a datagram. -/
inductive Delivery
  /-- A neighbour wrote to us. -/
  | inbound (neighbor : Endpoint) (bytes : Bytes)
  /-- A neighbour notifies; the stream is that of the link to it. -/
  | notification (stream : Nat) (bytes : Bytes)
  deriving DecidableEq

namespace Neighborhood

/-- A node that has met nobody. -/
def empty (node : String) : Neighborhood := ⟨node, [], [], [], false, 0⟩

/-- Somebody takes what neighbours write. -/
def listen (n : Neighborhood) : Neighborhood := { n with listening := true }

/-- Note that a neighbour was heard. -/
def hear (e : Endpoint) (now : Instant) (n : Neighborhood) : Neighborhood :=
  { n with heard := n.heard.filter (·.1 ≠ e) ++ [(e, now)] }

/-- A datagram arrives on the data socket. -/
def onDatagram (sender : Endpoint) (bytes : Bytes) (now : Instant) (n : Neighborhood) :
    Option Delivery × Neighborhood :=
  match Frame.decode Datagram.format bytes with
  | .error _ => (none, n)
  | .ok (.subscribe, _) =>
    (none, hear sender now { n with
      subscribers := if n.subscribers.contains sender then n.subscribers
        else n.subscribers ++ [sender] })
  | .ok (.write payload, _) => (if n.listening then some (.inbound sender payload) else none, n)
  | .ok (.notify payload, _) => ((n.links.lookup sender).map (.notification · payload), n)

/-- A datagram arrives on the socket for adverts: what it makes known to those that scan. -/
def onAdvert (sender : Endpoint) (bytes : Bytes) (now : Instant) (n : Neighborhood) :
    Option (Advert × Endpoint) × Neighborhood :=
  match Advert.hear? n.node sender bytes with
  | none => (none, n)
  | some (advert, e) => (some (advert, e), n.hear e now)

/-- Link to a neighbour: the number of its stream. A stream that it had before ends. A link alone
does not make an old acquaintance any fresher. -/
def connect (e : Endpoint) (now : Instant) (n : Neighborhood) : Nat × Neighborhood :=
  (n.streams, { n with
    links := n.links.filter (·.1 ≠ e) ++ [(e, n.streams)]
    heard := if (n.heard.lookup e).isSome then n.heard else n.heard ++ [(e, now)]
    streams := n.streams + 1 })

/-- The neighbours that have been silent too long. -/
def stale (now : Instant) (n : Neighborhood) : List Endpoint :=
  (n.heard.filter fun (_, last) => neighborTimeout ≤ now - last).map (·.1)

/-- Forget the neighbours that have been silent too long. -/
def prune (now : Instant) (n : Neighborhood) : Neighborhood :=
  let gone := n.stale now
  { n with
    heard := n.heard.filter fun (e, _) => !gone.contains e
    subscribers := n.subscribers.filter fun e => !gone.contains e
    links := n.links.filter fun (e, _) => !gone.contains e }

/-- The tables after an event. -/
def after (now : Instant) (n : Neighborhood) : NeighborhoodEvent → Neighborhood
  | .datagram sender bytes => (n.onDatagram sender bytes now).2
  | .advert sender bytes => (n.onAdvert sender bytes now).2
  | .connect neighbor => (n.connect neighbor now).2
  | .listen => n.listen
  | .prune => n.prune now

end Neighborhood

/-- A scan under way. -/
structure Scan where
  service : String
  /-- The neighbours reported so far. -/
  reported : List Endpoint
  deadline : Instant

namespace Scan

/-- A scan that starts. -/
def start (service : String) (now : Instant) : Scan := ⟨service, [], now + scanWindow⟩

/-- An advert was heard: the name of the neighbour, if it offers the service and is new. -/
def hear (advert : Advert) (e : Endpoint) (s : Scan) : Option String × Scan :=
  if advert.service = s.service && !s.reported.contains e then
    (some e.print, { s with reported := s.reported ++ [e] })
  else (none, s)

end Scan

end PeerCall.Mesh
