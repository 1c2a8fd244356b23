import PeerCall.Channel.Bundle

/-!
# Rehearsing a bundle of channels

A bundle over loopback channels without far ends, under a script. After every step all is left to
settle and what changed is shown. A batch runs its steps before the bundle can notice any change of
state; what waits for the bundle's own answer, such as a send, lets it catch up.
-/

namespace PeerCall.Rehearsal.Bundle

/-- What can be done to a bundle and its channels. -/
inductive Step
  | add (channel : Nat)
  | set (channel : Nat) (state : ChannelState)
  | inject (channel : Nat) (messages : List Message)
  | send (message : Message)
  | broadcast (message : Message)
  | connect
  | disconnect

/-- What shows after a step. -/
structure Row where
  best : Option Transport
  state : ChannelState
  switches : List Switch
  /-- The messages newly passed to each channel. -/
  sent : List (List Message)
  got : List (Receipt Message)
  channels : List ChannelState
  /-- The bitrate of the last notice. -/
  ceiling : Option Nat

/-- A step; what asks the bundle for recipients lets it settle behind the answer. -/
def step (transports : List Transport) (b : Bundle) : Step → Bundle
  | .add channel => b.enqueue (.add (transports[channel]?.getD .cloud) channel)
  | .set channel state => b.onChannel channel (.setState state)
  | .inject channel ms => b.arrive channel ms
  | .send m => (b.send m).settle
  | .broadcast m => (b.broadcast m).settle
  | .connect => b.connect.settle
  | .disconnect => b.disconnect.settle

/-- What shows, given the same bundle before the steps. -/
def row (before after : Bundle) : Row where
  best := after.selection.bestTransport
  state := after.selection.state.value
  switches := after.switches.drop before.switches.length
  sent := (before.channels.zip after.channels).map fun (b, a) => a.sent.drop b.sent.length
  got := after.inbox.receipts
  channels := after.channels.map (·.state.value)
  ceiling := after.switches.getLast?.map (·.bitrate)

/-- The rows after each batch of steps. -/
def run (transports : List Transport) : Bundle → List (List Step) → List Row
  | _, [] => []
  | b, batch :: batches =>
    let after := (batch.foldl (step transports) b).settle
    row b after :: run transports { after with inbox := after.inbox.cleared } batches

end PeerCall.Rehearsal.Bundle
