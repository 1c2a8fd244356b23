import PeerCall.Rehearsal.World
import PeerCall.Text.Quoted

/-!
# Rehearsing one call with a scripted media engine

The scripted engine does what its script says: a call may be set to fail, and any other may move it
to a state. Descriptions are numbered. One party plays over channels that lead nowhere, so the
script also plays everybody else.
-/

namespace PeerCall.Rehearsal.Scripted

open Handshake

/-- The calls that a script speaks of. -/
inductive Method
  | setUp
  | createOffer
  | createAnswer
  | setRemote
  | addIce
  | restartIce
  | close
  deriving DecidableEq, Repr

/-- The state of the engine with its script. -/
structure Engine where
  report : Watched EngineState
  session : Bool
  gathered : List IceCandidate
  /-- How many descriptions it has made. -/
  made : Nat
  /-- States that calls move it to. -/
  moves : List (Method × EngineState)
  /-- Calls that fail. -/
  failing : List (Method × MediaError)

namespace Engine

variable {α : Type}

/-- Report a state. -/
def publish (s : EngineState) (e : Engine) : Engine := { e with report := e.report.publish s }

/-- Move to the state that the script has for a call, if any. -/
def move (m : Method) (e : Engine) : Engine :=
  match e.moves.lookup m with
  | some s => e.publish s
  | none => e

/-- Set a call to fail, or to stop failing. -/
def setFailing (m : Method) (cause : Option MediaError) (e : Engine) : Engine :=
  let others := e.failing.filter (·.1 ≠ m)
  { e with failing := match cause with
    | some cause => (m, cause) :: others
    | none => others }

/-- A call that fails if its script says so, and otherwise moves the engine. -/
def attempt (m : Method) (f : Engine → α × Engine) (e : Engine) : Except MediaError α × Engine :=
  match e.failing.lookup m with
  | some cause => (.error cause, e)
  | none =>
    let (a, e) := f (e.move m)
    (.ok a, e)

/-- A numbered description. -/
def describe (name : String) (e : Engine) : String × Engine :=
  (s!"v=0 {name} {e.made}", { e with made := e.made + 1 })

/-- Without a move of its own, a set-up makes the engine ready. -/
def setUp (e : Engine) : Unit × Engine :=
  let e := { e with session := true }
  ((), if (e.moves.lookup .setUp).isSome then e else e.publish .ready)

/-- A close always ends closed. -/
def close (e : Engine) : Engine := { e with session := false }.publish .closed

end Engine

/-- The record of a call to the engine. -/
def callText : EngineCall → String
  | .setUp video => s!"initialize({video})"
  | .createOffer => "create_offer"
  | .createAnswer => "create_answer"
  | .setRemote kind sdp => s!"set_remote({kind.text}, {sdp})"
  | .addIce c =>
    let mid := match c.mid with
      | some mid => s!"Some({Text.Quoted.encode mid})"
      | none => "None"
    let mline := match c.mline with
      | some mline => s!"Some({mline.toNat})"
      | none => "None"
    s!"add_ice({c.candidate}, {mid}, {mline})"
  | .close => "close"
  | .restartIce => "restart_ice"

/-- The scripted engine; `plain` leaves it without a restart of its own. -/
def engine (plain : Bool) : MediaEngine Engine where
  setUp _ := Engine.attempt .setUp Engine.setUp
  createOffer := Engine.attempt .createOffer (Engine.describe "offer")
  createAnswer := Engine.attempt .createAnswer (Engine.describe "answer")
  setRemote _ _ := Engine.attempt .setRemote ((), ·)
  addIce _ := Engine.attempt .addIce ((), ·)
  restartIce? := if plain then none
    else some (Engine.attempt .restartIce (Engine.describe "restart"))
  close := .close
  report := (·.report)
  hasSession := (·.session)
  gathered := (·.gathered)
  gatheredCapacity := 16

/-- What a script can do. -/
inductive Step
  | bind (channel : Nat)
  | hangUp
  | chat (text : String)
  | set (channel : Nat) (state : ChannelState)
  | receive (channel : Nat) (messages : List Message)
  | engine (state : EngineState)
  | session (value : Bool)
  | candidates (candidates : List IceCandidate)
  | fail (method : Method) (cause : Option MediaError)
  | advance (d : Duration)

/-- A step of the script. -/
def act (s : Step) (w : World Engine) : World Engine :=
  match s with
  | .bind channel => w.bind 0 channel
  | .hangUp => w.hangUp 0
  | .chat text => w.tell 0 fun _ c => c.chat text
  | .set channel state => w.onChannel channel (.setState state)
  | .receive channel ms => w.arrive channel ms
  | .engine state => w.onEngine 0 (.publish state)
  | .session value => w.onEngine 0 ({ · with session := value })
  | .candidates cs => w.onEngine 0 fun e => { e with gathered := e.gathered ++ cs }
  | .fail m cause => w.onEngine 0 (.setFailing m cause)
  | .advance d => w.advance d

/-- What shows after a step. -/
structure Row where
  stage : Stage
  deeds : List (Stage × Deed)
  notices : List (Receipt Notice)
  channels : List ChannelState
  engine : EngineState
  session : Bool

/-- What shows of a world, given how long the log was before the step. -/
def row? (shown : Nat) (w : World Engine) : Option Row := do
  let (_, c) ← w.calls.head?
  let s := c.session
  let deeds := s.log.drop shown
  pure ⟨s.stage, visibleDeeds deeds, noticesOf deeds, w.channels.map (·.state.value),
    s.media.report.value, s.media.session⟩

/-- How long the log is. -/
def logLength (w : World Engine) : Nat :=
  (w.calls.head?.map fun (_, c) => c.session.log.length).getD 0

/-- The rows after each step. -/
def run : World Engine → List Step → List Row
  | _, [] => []
  | w, s :: steps =>
    let after := w.play (act s)
    (row? (logLength w) after).toList ++ run after steps

/-- One party and its channels, before anything happens. -/
def start (p : Party Engine) (media : Engine) (channels : Nat) (autoConnect : Bool) :
    World Engine :=
  ⟨0, .replicate channels .idle, fun _ => none, autoConnect, [(p, .start media)]⟩

end PeerCall.Rehearsal.Scripted
