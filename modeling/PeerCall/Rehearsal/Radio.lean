import PeerCall.Channel.Inbox
import PeerCall.Mesh.Relay

/-!
# Rehearsing relays over a simulated radio

Relays by name over a radio that a script controls: which nodes are in range of each other, which
operations fail, and which writes never end. The clock moves from one due moment to the next. At a
moment all relays react to what has arrived, then all writers write, and so on until nothing waits;
frames therefore spread by hops.
-/

namespace PeerCall.Rehearsal.Radio

open Mesh

/-- The operations of the radio that can be set to fail. -/
inductive Operation
  | advertise
  | listen
  | scan
  | connect
  | write
  | notify
  deriving DecidableEq, Repr

/-- What the radio carries. -/
inductive Line
  | links (node neighbor : String)
  /-- A write starts; to no neighbour in particular for a notification. -/
  | writes (node : String) (target : Option String) (frame : Bytes)

/-- A node. -/
structure Node where
  name : String
  config : MeshConfig
  /-- The relay, while it runs. -/
  relay : Option Relay
  /-- Whether it was told to run and not to stop since; it may have failed to. -/
  wanted : Bool
  /-- Whether the relay is about to start. -/
  starting : Bool
  state : Watched ChannelState
  inbox : Inbox Message
  /-- What waits for the relay. -/
  events : List RelayEvent
  nextRescan : Instant
  nextSweep : Instant

/-- All nodes and the radio between them. -/
structure World where
  now : Instant
  /-- In the order of their names. -/
  nodes : List Node
  edges : List (String × String)
  /-- The nodes that advertise, each with its service. -/
  advertising : List (String × String)
  /-- Who listens to whose notifications, the listener first. -/
  subscriptions : List (String × String)
  failing : List (String × Operation)
  /-- From whom to whom writes never end. -/
  stalled : List (String × String)
  /-- How many packets were originated. -/
  originated : Nat
  /-- What the radio carried, latest last. -/
  lines : List Line

/-- What a script can do. -/
inductive Step
  | connectAll
  | connect (node : String)
  | disconnect (node : String)
  | send (node : String) (messages : List Message)
  | edge (a b : String) (on : Bool)
  | stall (a b : String) (on : Bool)
  | fail (node : String) (operation : Operation) (on : Bool)
  /-- The notifications of one node to another end. -/
  | cut (listener node : String)
  /-- Bytes arrive at a node. -/
  | inbound (sender node : String) (bytes : Bytes)
  | advance (d : Duration)

namespace World

/-- Whether an operation of a node fails. -/
def fails (node : String) (operation : Operation) (w : World) : Bool :=
  w.failing.contains (node, operation)

/-- Change a node. -/
def onNode (name : String) (f : Node → Node) (w : World) : World :=
  { w with nodes := w.nodes.map fun n => if n.name = name then f n else n }

/-- Keep what the radio carried. -/
def carry (line : Line) (w : World) : World := { w with lines := w.lines ++ [line] }

/-- An event waits for a node's relay, if it runs. -/
def post (name : String) (e : RelayEvent) (w : World) : World :=
  w.onNode name fun n => if n.relay.isSome then { n with events := n.events ++ [e] } else n

/-- Whether two nodes are in range of each other. -/
def inRange (a b : String) (w : World) : Bool :=
  w.edges.contains (a, b) || w.edges.contains (b, a)

/-- Register a node and its service. -/
def advertise (n : Node) (w : World) : World :=
  if w.fails n.name .advertise then w
  else { w with advertising :=
    w.advertising.filter (·.1 ≠ n.name) ++ [(n.name, n.config.serviceId)] }

/-- The neighbours that a scan of a node finds, in the order of their names. -/
def visible (n : Node) (w : World) : List String :=
  (w.nodes.map (·.name)).filter fun other =>
    w.advertising.lookup other == some n.config.serviceId && w.inRange n.name other

/-- Do what a node's relay asks for. -/
def serve (name : String) (w : World) (request : RelayRequest) : World :=
  match w.nodes.find? (·.name = name), request with
  | none, _ => w
  | some _, .deliver m => w.onNode name fun n => { n with inbox := n.inbox.push m }
  | some n, .advertise => w.advertise n
  | some n, .scan =>
    ((w.visible n).foldl (fun w other => w.post name (.discovered other)) w).post name .scanEnded
  | some _, .link neighbor =>
    if w.fails name .connect then w.post name (.linkFailed neighbor)
    else
      let w := w.carry (.links name neighbor)
      post name (.linked neighbor) { w with subscriptions := w.subscriptions ++ [(name, neighbor)] }

/-- A node's relay has ended, and all that it had under way is gone. Nobody is told. -/
def lose (name : String) (w : World) : World :=
  let w := w.onNode name fun n => { n with relay := none, events := [] }
  { w with subscriptions := w.subscriptions.filter (·.1 ≠ name) }

/-- A node's relay reacts to an event. -/
def react (name : String) (w : World) (e : RelayEvent) : World :=
  match w.nodes.find? (·.name = name) with
  | none => w
  | some n => match Relay.step n.name n.config w.now n.relay (.event e) with
    | (_, none) => w.lose name
    | (requests, some after) =>
      let w := w.onNode name fun n =>
        { n with relay := some after, state := n.state.set after.state }
      requests.foldl (serve name) w

/-- The events that are due at a node by the clock. -/
def dueEvents (n : Node) (w : World) : List RelayEvent :=
  (if n.nextRescan ≤ w.now then [.rescan (!w.fails n.name .scan)] else [])
    ++ (if n.nextSweep ≤ w.now then [.sweep] else [])

/-- A node's relay starts: it advertises, then it listens. -/
def startRelay (n : Node) (w : World) : World :=
  let advertised := w.advertise n
  if w.fails n.name .advertise || w.fails n.name .listen then
    advertised.onNode n.name fun n => { n with starting := false, state := n.state.set .error }
  else
    advertised.onNode n.name fun n => { n with
      starting := false
      relay := (Relay.step n.name n.config w.now n.relay .connect).2
      nextRescan := w.now
      nextSweep := w.now }

/-- A node's relay starts if it has to. -/
def runStart (w : World) (name : String) : World :=
  match w.nodes.find? (·.name = name) with
  | some n => if n.starting then w.startRelay n else w
  | none => w

/-- A node's relay reacts to all that is due and all that has arrived. -/
def runRelay (w : World) (name : String) : World :=
  let w := w.runStart name
  match w.nodes.find? (·.name = name) with
  | none => w
  | some n =>
    if n.relay.isNone then w
    else
      let due := w.dueEvents n
      let w := w.onNode name fun n => { n with
        events := []
        nextRescan := if n.nextRescan ≤ w.now then n.nextRescan + n.config.rescanInterval
          else n.nextRescan
        nextSweep := if n.nextSweep ≤ w.now then n.nextSweep + n.config.sweepInterval
          else n.nextSweep }
      (due ++ n.events).foldl (react name) w

/-- A frame reaches whom it is for. -/
def hand (name : String) (target : Option String) (frame : Bytes) (w : World) : World :=
  let e := RelayEvent.inbound name frame
  match target with
  | some neighbor => w.post neighbor e
  | none => (w.subscriptions.filter (·.2 = name)).foldl (fun w (listener, _) => w.post listener e) w

/-- A node's writer writes until its queue is empty or a write does not end. -/
def runWriter (name : String) (i : Nat) : Nat → World → World
  | 0, w => w
  | fuel + 1, w =>
    match (w.nodes.find? (·.name = name)).bind (·.relay) with
    | none => w
    | some relay => match relay.nextWrite? w.now i with
      | none => w
      | some (writer, frame, busy) =>
        let w := w.carry (.writes name writer.target frame)
        let keep (r : Relay) := w.onNode name fun n => { n with relay := some r }
        let operation := if writer.target.isSome then Operation.write else .notify
        if w.fails name operation then runWriter name i fuel (keep (busy.writeEnded i))
        else if writer.target.any fun t => w.stalled.contains (name, t) then keep busy
        else runWriter name i fuel ((keep (busy.writeEnded i)).hand name writer.target frame)

/-- All writers of a node write. -/
def runWriters (w : World) (name : String) : World :=
  match (w.nodes.find? (·.name = name)).bind (·.relay) with
  | none => w
  | some relay => (List.range relay.writers.length).foldl
    (fun w i => w.runWriter name i (queueCapacity + 1)) w

/-- Whether anything waits: an event, or a frame whose writer is free. -/
def isBusy (w : World) : Bool :=
  w.nodes.any fun n => n.starting || n.relay.any fun r =>
    !n.events.isEmpty || !(w.dueEvents n).isEmpty
      || (List.range r.writers.length).any fun i => (r.nextWrite? w.now i).isSome

/-- Rounds that a rehearsal has patience for at one moment. -/
def patience : Nat := 4096

/-- Rounds until nothing waits: all relays, then all writers. -/
def settle : Nat → World → World
  | 0, w => w
  | rounds + 1, w =>
    if w.isBusy then
      let names := w.nodes.map (·.name)
      settle rounds (names.foldl runWriters (names.foldl runRelay w))
    else w

/-- The next moment by which something is due. A writer with nothing to write is not waited for. -/
def nextDue? (target : Instant) (w : World) : Option Instant :=
  let ofNode (n : Node) : List Instant := match n.relay with
    | none => []
    | some r => [n.nextRescan, n.nextSweep]
      ++ (r.writers.filter (!·.waiting.isEmpty)).filterMap (·.busyUntil)
  ((w.nodes.flatMap ofNode).filter (· ≤ target)).min?

/-- The clock moves to a moment, with a stop wherever something is due. -/
def advanceTo (target : Instant) : Nat → World → World
  | 0, w => { w with now := target }
  | stops + 1, w => match w.nextDue? target with
    | some due => advanceTo target stops (settle patience { w with now := max due w.now })
    | none => { w with now := target }

/-- A node is told to run, unless it does. -/
def connect (w : World) (name : String) : World :=
  w.onNode name fun n =>
    if n.relay.isSome || n.starting then n
    else { n with wanted := true, starting := true, state := n.state.set .connecting, events := [] }

/-- A node is told to stop: its relay and all that it had under way are gone. -/
def disconnect (name : String) (w : World) : World :=
  let wanted := w.nodes.any fun n => n.name = name && n.wanted
  let w := w.onNode name fun n => { n with
    relay := (Relay.step n.name n.config w.now n.relay .disconnect).2
    wanted := false
    starting := false
    events := []
    state := if n.state.value = .idle then n.state else n.state.set .disconnected }
  if wanted then { w with
    advertising := w.advertising.filter (·.1 ≠ name)
    subscriptions := w.subscriptions.filter (·.1 ≠ name) }
  else w

/-- A node's application sends a message. -/
def send (name : String) (w : World) (m : Message) : World :=
  (w.post name (.outbound (.numbered w.originated) 0 m)) |> fun w =>
    { w with originated := w.originated + 1 }

/-- Add something to a list, or remove it. -/
def toggle {α : Type} [DecidableEq α] (a : α) (on : Bool) (l : List α) : List α :=
  if on then a :: l.filter (· ≠ a) else l.filter (· ≠ a)

/-- A step of the script. -/
def act (s : Step) (w : World) : World :=
  match s with
  | .connectAll => (w.nodes.map (·.name)).foldl connect w
  | .connect name => w.connect name
  | .disconnect name => w.disconnect name
  | .send name ms => ms.foldl (send name) w
  | .edge a b on => { w with edges := toggle (a, b) on (w.edges.filter (· ≠ (b, a))) }
  | .stall a b on => { w with stalled := toggle (a, b) on w.stalled }
  | .fail name operation on => { w with failing := toggle (name, operation) on w.failing }
  | .cut listener name =>
    let (lost, kept) := w.subscriptions.partition (· = (listener, name))
    lost.foldl (fun w _ => w.post listener (.linkClosed name)) { w with subscriptions := kept }
  | .inbound sender name bytes => w.post name (.inbound sender bytes)
  | .advance d => w.advanceTo (w.now + d) (d / Duration.ofMillis 1 + 1)

end World

/-- The record of what the radio carried. A frame is shown by its packet. -/
def Line.text : Line → String
  | .links node neighbor => s!"{node} links {neighbor}"
  | .writes node target frame =>
    let whom := target.getD "*"
    let hop := s!"{node}->{whom}"
    match Packet.ofDatagram frame with
    | .ok p =>
      let payload := Text.Utf8.decodeLossy p.payload
      s!"{hop} {payload} from {p.sender} hop {p.hop.toNat} ttl {p.ttl.toNat}"
    | .error _ => hop

/-- What shows after a step. -/
structure Row where
  /-- The state of each node and the messages that its application got. -/
  nodes : List (String × ChannelState × List (Receipt Message))
  /-- What the radio carried, in alphabetical order. -/
  lines : List String
  advertising : List String

/-- What shows of a world. -/
def row (w : World) : Row :=
  ⟨w.nodes.map fun n => (n.name, n.state.value, n.inbox.receipts),
    (w.lines.map (·.text)).mergeSort (· ≤ ·),
    (w.nodes.map (·.name)).filter fun name => (w.advertising.lookup name).isSome⟩

/-- The rows after each step. -/
def run : World → List Step → List Row
  | _, [] => []
  | w, s :: steps =>
    let after := (w.act s).settle World.patience
    row after :: run { after with
      lines := []
      nodes := after.nodes.map fun n => { n with inbox := n.inbox.cleared } } steps

/-- A node that was never told to run. -/
def Node.idle (name : String) (config : MeshConfig) : Node :=
  ⟨name, config, none, false, false, .start .idle, .empty messageCapacity, [], 0, 0⟩

/-- Nodes before anything happens. -/
def start (nodes : List (String × MeshConfig)) (edges : List (String × String)) : World :=
  ⟨0, (nodes.map fun (name, config) => Node.idle name config).mergeSort (·.name ≤ ·.name), edges,
    [], [], [], [], 0, []⟩

end PeerCall.Rehearsal.Radio
