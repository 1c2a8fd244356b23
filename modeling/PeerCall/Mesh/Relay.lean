import PeerCall.Channel.State
import PeerCall.Mesh.Router

/-!
# The mesh relay

A relay drives a router over a radio. It links to every neighbour that a scan discovers, writes each
transmitted frame to every link and to the node's own notification surface, and handles whatever
arrives. Each link has a writer with a queue of its own, so a slow neighbour delays nobody else; a
full queue loses the frame for that neighbour only.

The relay does no input or output. It reacts to events and answers with what its owner has to do;
writers hand out their next frame when they are asked.
-/

namespace PeerCall.Mesh

/-- The most frames that wait for one writer. -/
def queueCapacity : Nat := 64

/-- How long a write may take. -/
def writeTimeout : Duration := Duration.ofSecs 2

/-- Writes frames in order, to one neighbour or to all that listen to our notifications. -/
structure Writer where
  /-- The neighbour; none for notifications. -/
  target : Option String
  waiting : List Bytes
  /-- When the write under way is given up. -/
  busyUntil : Option Instant

/-- Add a frame to the queue if there is room. -/
def Writer.enqueue (frame : Bytes) (w : Writer) : Writer :=
  if w.waiting.length < queueCapacity then { w with waiting := w.waiting ++ [frame] } else w

/-- What happens to a relay. -/
inductive RelayEvent
  /-- The application sends; id and timestamp are fresh. -/
  | outbound (id : PacketId) (timestamp : UInt64) (message : Message)
  /-- A neighbour's bytes, written to us or notified. -/
  | inbound (neighbor : String) (bytes : Bytes)
  | discovered (neighbor : String)
  | linked (neighbor : String)
  | linkFailed (neighbor : String)
  | linkClosed (neighbor : String)
  | scanEnded
  /-- Time to look for neighbours; `scans` tells whether the radio will scan if asked. -/
  | rescan (scans : Bool)
  /-- Time to forget. -/
  | sweep

/-- What happens to a relay as a channel. -/
inductive RelayStep
  /-- It starts to run, unless it runs already. A start that the radio refuses is no step. -/
  | connect
  /-- It stops. -/
  | disconnect
  /-- An event, which is lost while it does not run. -/
  | event (e : RelayEvent)

/-- What the owner of a relay has to do. -/
inductive RelayRequest
  /-- Hand a message to the application. -/
  | deliver (message : Message)
  | advertise
  | scan
  /-- Link to a neighbour, and report how that went and what it notifies. -/
  | link (neighbor : String)

/-- A relay that runs. -/
structure Relay where
  router : Router
  config : MeshConfig
  /-- All writers that ever were; the first one notifies. -/
  writers : List Writer
  /-- The neighbours linked to, each with the number of its writer. -/
  links : List (String × Nat)
  /-- The neighbours that a link is under way to. -/
  pending : List String
  /-- The neighbours that wrote to us without a link of ours, with the time of the last write. -/
  accepted : List (String × Instant)
  /-- Whether a scan is under way. -/
  scanning : Bool
  /-- The state of the relay as a channel. -/
  state : ChannelState

namespace Relay

/-- A relay that has met nobody. -/
def start (node : String) (config : MeshConfig) : Relay :=
  ⟨.start node config, config, [⟨none, [], none⟩], [], [], [], false, .connecting⟩

/-- Whether a neighbour is linked. -/
def isLinked (neighbor : String) (r : Relay) : Bool := (r.links.lookup neighbor).isSome

/-- Report connected if anybody can hear us, and connecting otherwise. -/
def updateState (r : Relay) : Relay :=
  { r with state := if r.links.isEmpty && r.accepted.isEmpty then .connecting else .connected }

/-- The writers that frames go to: the notifications' and those of the links. -/
def activeWriters (r : Relay) : List Nat := 0 :: r.links.map (·.2)

/-- Queue a frame for everybody. -/
def transmit (frame : Bytes) (r : Relay) : Relay :=
  { r with writers := r.activeWriters.foldl (fun ws i => ws.modify i (.enqueue frame)) r.writers }

/-- Carry out an action of the router. -/
def apply (r : Relay) : RelayAction → List RelayRequest × Relay
  | .deliver m => ([.deliver m], r)
  | .transmit frame => ([], r.transmit frame)

/-- Carry out actions of the router. -/
def applyAll : List RelayAction → Relay → List RelayRequest × Relay
  | [], r => ([], r)
  | a :: actions, r =>
    let (requests, r) := r.apply a
    let (more, r) := applyAll actions r
    (requests ++ more, r)

/-- Note that a neighbour wrote to us. -/
def accept (neighbor : String) (now : Instant) (r : Relay) : Relay :=
  updateState { r with accepted := r.accepted.filter (·.1 ≠ neighbor) ++ [(neighbor, now)] }

/-- A link is up: it gets a writer. -/
def addLink (neighbor : String) (r : Relay) : Relay :=
  updateState { r with
    pending := r.pending.filter (· ≠ neighbor)
    links := r.links.filter (·.1 ≠ neighbor) ++ [(neighbor, r.writers.length)]
    writers := r.writers ++ [⟨some neighbor, [], none⟩] }

/-- How long a neighbour counts after its last write, if that is a length of time. -/
def acceptedFor? (config : MeshConfig) : Option Duration := config.rescanInterval.times? 3

/-- The neighbours that have written within some time; all of them if that is no length of time. -/
def writtenWithin (now : Instant) (limit? : Option Duration) (accepted : List (String × Instant)) :
    List (String × Instant) :=
  match limit? with
  | some limit => accepted.filter fun (_, last) => now - last < limit
  | none => accepted

/-- Forget packets and neighbours by age. If neighbours count for no length of time, the relay gets
as far as the packets. -/
def sweep (now : Instant) (r : Relay) : Relay :=
  let accepted := writtenWithin now (acceptedFor? r.config) r.accepted
  let swept := { r with router := r.router.sweep now, accepted }
  if accepted.length = r.accepted.length then swept else swept.updateState

/-- Whether a relay ends with an event: a sweep that does not get to the neighbours. -/
def endsWith (r : Relay) : RelayEvent → Bool
  | .sweep => (acceptedFor? r.config).isNone
  | _ => false

/-- React to an event. -/
def handle (now : Instant) (r : Relay) : RelayEvent → List RelayRequest × Relay
  | .outbound id timestamp m =>
    let (actions, router) := r.router.originate id timestamp m now
    applyAll actions { r with router }
  | .inbound neighbor bytes =>
    let r := if r.isLinked neighbor then r else r.accept neighbor now
    let (actions, router) := r.router.onBytes bytes now
    applyAll actions { r with router }
  | .discovered neighbor =>
    if r.isLinked neighbor || r.pending.contains neighbor then ([], r)
    else ([.link neighbor], { r with pending := r.pending ++ [neighbor] })
  | .linked neighbor => ([], r.addLink neighbor)
  | .linkFailed neighbor => ([], { r with pending := r.pending.filter (· ≠ neighbor) })
  | .linkClosed neighbor =>
    ([], updateState { r with links := r.links.filter (·.1 ≠ neighbor) })
  | .scanEnded => ([], { r with scanning := false })
  | .rescan scans =>
    if r.scanning then ([.advertise], r)
    else if scans then ([.advertise, .scan], { r with scanning := true })
    else ([.advertise], r)
  | .sweep => ([], r.sweep now)

/-- A step of a relay that runs or not. A relay that starts is a new one, and one that stops or ends
leaves nothing behind. -/
def step (node : String) (config : MeshConfig) (now : Instant) (running : Option Relay) :
    RelayStep → List RelayRequest × Option Relay
  | .connect => ([], some (running.getD (.start node config)))
  | .disconnect => ([], none)
  | .event e => match running with
    | none => ([], none)
    | some r =>
      let (requests, after) := r.handle now e
      (requests, if r.endsWith e then none else some after)

/-- The next frame of a writer that is free, or whose write took too long, and the relay with the
writer busy on it. -/
def nextWrite? (now : Instant) (i : Nat) (r : Relay) : Option (Writer × Bytes × Relay) := do
  let w ← r.writers[i]?
  if w.busyUntil.any (now < ·) then none
  else match w.waiting with
    | [] => none
    | frame :: waiting =>
      let busy := { w with waiting, busyUntil := some (now + writeTimeout) }
      some (w, frame, { r with writers := r.writers.set i busy })

/-- The write of a writer has ended, well or not. -/
def writeEnded (i : Nat) (r : Relay) : Relay :=
  { r with writers := r.writers.modify i ({ · with busyUntil := none }) }

end Relay

end PeerCall.Mesh
