import PeerCall.Channel.Loopback
import PeerCall.Channel.Selection

/-!
# Bundles of channels

Several channels presented as one. Each candidate has an observer that notices changes of its
channel's state and reports them to the selection through one queue of commands, and passes the
channel's messages on to the bundle's subscriber. Observers and the queue advance one step at a
time, so every interleaving is a sequence of steps.
-/

namespace PeerCall

/-- Follows one candidate's channel. -/
structure Observer where
  /-- The version of the channel's state that it noticed last. -/
  seen : Nat
  inbox : Inbox Message

/-- What the selection is told to do. -/
inductive BundleCommand
  /-- Take up a channel. -/
  | add (transport : Transport) (channel : Nat)
  /-- The channel of a candidate has another state. -/
  | stateChanged (candidate : Nat) (state : ChannelState)

/-- A bundle with its channels. -/
structure Bundle where
  channels : List Loopback
  selection : Selection
  /-- One for each candidate. -/
  observers : List Observer
  /-- Commands that wait. -/
  commands : List BundleCommand
  /-- What the bundle's subscriber has not read yet. -/
  inbox : Inbox Message
  /-- All notices so far. -/
  switches : List Switch

namespace Bundle

/-- A bundle that has not taken up any of the channels. -/
def start (channels : List Loopback) : Bundle :=
  ⟨channels, .empty, [], [], .empty messageCapacity, []⟩

/-- Whether a channel is connected right now. -/
def live (b : Bundle) (channel : Nat) : Bool := b.channels[channel]?.any Loopback.isConnected

/-! ## Single steps -/

/-- Something happens to a channel. -/
def onChannel (channel : Nat) (f : Loopback → Loopback) (b : Bundle) : Bundle :=
  { b with channels := b.channels.modify channel f }

/-- A command is queued. -/
def enqueue (c : BundleCommand) (b : Bundle) : Bundle := { b with commands := b.commands ++ [c] }

/-- Messages arrive on a channel: its observers keep the latest. -/
def arrive (channel : Nat) (ms : List Message) (b : Bundle) : Bundle :=
  { b with
    observers := (b.selection.candidates.zip b.observers).map fun (c, o) =>
      if c.channel = channel then { o with inbox := o.inbox.append ms } else o }

/-- The observer of a candidate looks at its channel's state. -/
def observeState (candidate : Nat) (b : Bundle) : Bundle :=
  match b.selection.candidates[candidate]?, b.observers[candidate]? with
  | some c, some o =>
    match b.channels[c.channel]? with
    | some channel =>
      if channel.state.changedSince o.seen then
        { b with
          observers := b.observers.set candidate { o with seen := channel.state.version }
          commands := b.commands ++ [.stateChanged candidate channel.state.value] }
      else b
    | none => b
  | _, _ => b

/-- The observer of a candidate passes its oldest message on. -/
def observeMessage (candidate : Nat) (b : Bundle) : Bundle :=
  match b.observers[candidate]? with
  | some o =>
    match o.inbox.waiting with
    | m :: rest =>
      { b with
        observers := b.observers.set candidate { o with inbox := ⟨o.inbox.capacity, rest, 0⟩ }
        inbox := b.inbox.push m }
    | [] => b
  | none => b

/-- Keep the outcome of a command. -/
def adopt (outcome : Option Switch × Selection) (b : Bundle) : Bundle :=
  { b with selection := outcome.2, switches := b.switches ++ outcome.1.toList }

/-- The oldest command is carried out. A channel taken up is observed from that moment. -/
def act (b : Bundle) : Bundle :=
  match b.commands with
  | [] => b
  | .add transport channel :: commands =>
    let state := (b.channels[channel]?.map (·.state)).getD (.start .idle)
    adopt (b.selection.add transport channel state.value) { b with
      commands
      observers := b.observers ++ [⟨state.version, .empty messageCapacity⟩] }
  | .stateChanged candidate state :: commands =>
    adopt (b.selection.record candidate state) { b with commands }

/-! ## Runs -/

/-- All commands are carried out; none of them queues another. -/
def actAll (b : Bundle) : Bundle := b.commands.foldl (fun b _ => b.act) b

/-- The observer of a candidate passes all its messages on. -/
def observeMessages (candidate : Nat) (b : Bundle) : Bundle :=
  let count := (b.observers[candidate]?.map (·.inbox.waiting.length)).getD 0
  (List.range count).foldl (fun b _ => b.observeMessage candidate) b

/-- Everything runs until nothing is left to do: the queue, then the observers in the order of
addition, then what they queued. -/
def settle (b : Bundle) : Bundle :=
  let b := b.actAll
  let each (f : Nat → Bundle → Bundle) (b : Bundle) :=
    (List.range b.observers.length).foldl (fun b i => f i b) b
  each observeMessages (each observeState b).actAll

/-- Every channel on a route does something, once all commands queued so far are carried out. -/
def onRoute (route : Selection.Route) (f : Loopback → Loopback) (b : Bundle) : Bundle :=
  let b := b.actAll
  (b.selection.recipients b.live route).foldl (fun b channel => b.onChannel channel f) b

/-- Pass a message to the selected channel, or to all that are connected while none is selected. -/
def send (m : Message) (b : Bundle) : Bundle := b.onRoute .best (·.record m)

/-- Pass a message to all that are connected. -/
def broadcast (m : Message) (b : Bundle) : Bundle := b.onRoute .connected (·.record m)

def connect (b : Bundle) : Bundle := b.onRoute .everyone .connect

def disconnect (b : Bundle) : Bundle := b.onRoute .everyone .disconnect

end Bundle

end PeerCall
