import PeerCall.Probe
import PeerCall.Rehearsal.World

/-!
# Rehearsing a call between two devices

A host and a joiner, each with a probe engine, on the two ends of a loopback channel. The host is
number zero and the joiner number one, calls and channels alike.
-/

namespace PeerCall.Rehearsal.Duet

open Handshake

/-- What can be done to one of the two. -/
inductive Step
  | bind
  | hangUp
  | chat (text : String)
  | set (state : ChannelState)
  /-- Its media engine closes. -/
  | close
  /-- A message arrives that the other did not send. -/
  | inject (message : Message)
  | advance (d : Duration)

/-- A step of number `i`. -/
def act (i : Nat) (s : Step) (w : World Probe) : World Probe :=
  match s with
  | .bind => w.bind i i
  | .hangUp => w.hangUp i
  | .chat text => w.tell i fun _ c => c.chat text
  | .set state => w.onChannel i (.setState state)
  | .close => w.onEngine i .close
  | .inject m => w.arrive i [m]
  | .advance d => w.advance d

/-- What shows of one side after a step. -/
structure Row where
  stage : Stage
  /-- The kinds of messages newly passed to its channel. -/
  sent : List Tag
  notices : List (Receipt Notice)
  channel : ChannelState
  engine : EngineState
  session : Bool
  remoteCandidates : Nat

/-- What shows of the calls and channels before and after a step. -/
def rows (before after : World Probe) : List Row :=
  ((before.calls.zip after.calls).zip (before.channels.zip after.channels)).map
    fun (((_, b), (_, a)), (chBefore, chAfter)) =>
      { stage := a.session.stage
        sent := (chAfter.sent.drop chBefore.sent.length).map (·.tag)
        notices := noticesOf (a.session.log.drop b.session.log.length)
        channel := chAfter.state.value
        engine := a.session.media.report.value
        session := a.session.media.session.isSome
        remoteCandidates := a.session.media.remoteCandidates }

/-- The rows after each step. -/
def run : World Probe → List (Nat × Step) → List (List Row)
  | _, [] => []
  | w, (i, s) :: steps =>
    let after := w.play (act i s)
    rows w after :: run after steps

/-- The far end of each end. -/
def far : Nat → Option Nat
  | 0 => some 1
  | 1 => some 0
  | _ => none

/-- The two before anything happens. -/
def start (host joiner : Party Probe) : World Probe :=
  ⟨0, [.idle, .idle], far, true, [(host, .start (.start 1)), (joiner, .start (.start 2))]⟩

end PeerCall.Rehearsal.Duet
