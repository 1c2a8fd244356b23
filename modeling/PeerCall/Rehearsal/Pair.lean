import PeerCall.Channel.Loopback

/-!
# Rehearsing a pair of loopback channels

One or two loopback ends, each with one reader of its state and one subscriber to its messages. An
end can be dropped; its subscriber then reads what is left, and after that finds the inbox closed.
-/

namespace PeerCall.Rehearsal.Pair

/-- What can be done to an end. -/
inductive Step
  | connect
  | disconnect
  | set (state : ChannelState)
  | send (message : Message)
  /-- Messages arrive from outside; `drain` lets the subscribers read in this step. -/
  | inject (messages : List Message) (drain : Bool)
  /-- The subscriber is replaced by a new one. -/
  | subscribe
  | drop

/-- An end with what its readers have seen so far. -/
structure End where
  loopback : Loopback
  inbox : Inbox Message
  dropped : Bool
  /-- The version of the state that its reader saw last. -/
  seen : Nat
  /-- How many of the messages passed to it were shown. -/
  shown : Nat

/-- What the readers of an end see after a step. -/
structure Row where
  state : ChannelState
  /-- Whether the state's reader finds something new; none once the end is dropped. -/
  changed : Option Bool
  sent : List Message
  got : List (Receipt Message)
  /-- Whether the subscriber also finds the inbox closed. -/
  closed : Bool

/-- An end that was never used. -/
def End.idle : End := ⟨.idle, .empty messageCapacity, false, 0, 0⟩

/-- The far end, while it exists. -/
def far (ends : List End) (i : Nat) : Option (Nat × End) := do
  let other ← (List.range ends.length).find? (· != i)
  let e ← ends[other]?
  if e.dropped then none else some (other, e)

/-- A step of one end. -/
def step (i : Nat) (s : Step) (ends : List End) : List End :=
  match ends[i]? with
  | none => ends
  | some e =>
    let on (f : Loopback → Loopback) := ends.set i { e with loopback := f e.loopback }
    if e.dropped then ends
    else match s with
      | .connect => on .connect
      | .disconnect => on .disconnect
      | .set state => on (.setState state)
      | .send m =>
        match far ends i with
        | some (j, other) =>
          if e.loopback.reaches (some other.loopback) then
            (on (.record m)).set j { other with inbox := other.inbox.push m }
          else on (.record m)
        | none => on (.record m)
      | .inject ms _ => ends.set i { e with inbox := e.inbox.append ms }
      | .subscribe => ends.set i { e with inbox := .empty messageCapacity }
      | .drop => ends.set i { e with dropped := true }

/-- What the readers of an end see, and the end afterwards. -/
def read (inboxToo : Bool) (e : End) : Row × End :=
  let l := e.loopback
  ({ state := l.state.value
     changed := if e.dropped then none else some (l.state.changedSince e.seen)
     sent := if e.dropped then [] else l.sent.drop e.shown
     got := if inboxToo then e.inbox.receipts else []
     closed := inboxToo && e.dropped },
   { e with
     seen := l.state.version
     shown := l.sent.length
     inbox := if inboxToo then e.inbox.cleared else e.inbox })

/-- Whether the subscribers read after a step. -/
def reads : Step → Bool
  | .inject _ drain => drain
  | _ => true

/-- The rows after each step. -/
def run : List End → List (Nat × Step) → List (List Row)
  | _, [] => []
  | ends, (i, s) :: steps =>
    let after := (step i s ends).map (read (reads s))
    after.map (·.1) :: run (after.map (·.2)) steps

end PeerCall.Rehearsal.Pair
