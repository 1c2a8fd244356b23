import PeerCall.Channel.Loopback
import PeerCall.Handshake.Call

/-!
# Rehearsing calls

A world for rehearsals: parties with their calls, loopback channels between them or leading nowhere,
and a clock that moves only by steps. Deeds take effect on the channels behind the reaction that did
them, and every call in turn runs until nothing waits for it.
-/

namespace PeerCall.Rehearsal

open Handshake

/-- Calls and channels. -/
structure World (σ : Type) where
  now : Instant
  channels : List Loopback
  /-- Which channel is the far end of which. -/
  far : Nat → Option Nat
  /-- Whether channels connect when they are asked to. -/
  autoConnect : Bool
  calls : List (Party σ × Call σ)

namespace World

variable {σ : Type}

/-- The state that a channel reports. -/
def channelState (channel : Nat) (w : World σ) : Watched ChannelState :=
  (w.channels[channel]?.map (·.state)).getD (.start .idle)

/-- Something happens to a channel. -/
def onChannel (channel : Nat) (f : Loopback → Loopback) (w : World σ) : World σ :=
  { w with channels := w.channels.modify channel f }

/-- Messages arrive on a channel. -/
def arrive (channel : Nat) (ms : List Message) (w : World σ) : World σ :=
  { w with calls := w.calls.map fun (p, c) =>
      (p, if c.isBoundTo channel then c.arrive ms else c) }

/-- A message is passed to a channel. -/
def carry (channel : Nat) (m : Message) (w : World σ) : World σ :=
  let other := w.far channel
  let reached := w.channels[channel]?.any (·.reaches (other.bind (w.channels[·]?)))
  let w := w.onChannel channel (·.record m)
  match reached, other with
  | true, some other => w.arrive other [m]
  | _, _ => w

/-- A deed takes effect on the channels. -/
def perform (w : World σ) : Deed → World σ
  | .connect channel => if w.autoConnect then w.onChannel channel .connect else w
  | .disconnect channel => w.onChannel channel .disconnect
  | .send channel _ m => w.carry channel m
  | .engine _ | .notice _ => w

/-- A call changes, and its new deeds take effect. -/
def onCall (i : Nat) (f : Party σ → Call σ → Option (Call σ)) (w : World σ) : Option (World σ) := do
  let (p, c) ← w.calls[i]?
  let after ← f p c
  let deeds := after.session.log.drop c.session.log.length
  pure ((deeds.map (·.2)).foldl perform { w with calls := w.calls.set i (p, after) })

/-- One turn of a call, if anything waits for it. -/
def turn? (i : Nat) (w : World σ) : Option (World σ) :=
  w.onCall i fun p c => c.turn? p w.now (w.channelState c.session.channel)

/-- Turns of a call until nothing waits for it. -/
def exhaust (i : Nat) : Nat → World σ → World σ
  | 0, w => w
  | fuel + 1, w => match w.turn? i with
    | some w => exhaust i fuel w
    | none => w

/-- Turns in a row, and rounds of all calls, that a rehearsal has patience for. Only a handover
that fails again at once, with no grace period, could take more. -/
def patience : Nat := 2048

/-- Every call in turn runs until nothing waits for it, round by round. -/
def settle : Nat → World σ → World σ
  | 0, w => w
  | rounds + 1, w =>
    let indices := List.range w.calls.length
    if indices.any fun i => (w.turn? i).isSome then
      settle rounds (indices.foldl (fun w i => w.exhaust i patience) w)
    else w

/-- Something happens, and everything runs until it waits. -/
def play (act : World σ → World σ) (w : World σ) : World σ := (act w).settle patience

/-- A call is told something. -/
def tell (i : Nat) (f : Party σ → Call σ → Call σ) (w : World σ) : World σ :=
  (w.onCall i fun p c => some (f p c)).getD w

/-- A call is bound to a channel. -/
def bind (i channel : Nat) (w : World σ) : World σ := w.tell i fun p c => c.bind p w.now channel

/-- A call hangs up. -/
def hangUp (i : Nat) (w : World σ) : World σ := w.tell i fun p c => c.hangUp p

/-- The state of a call's media engine changes by itself. -/
def onEngine (i : Nat) (f : σ → σ) (w : World σ) : World σ :=
  { w with calls := w.calls.modify i fun (p, c) =>
      (p, { c with session := { c.session with media := f c.session.media } }) }

/-- The first watchdog that is due by a moment. -/
def nextDue? (target : Instant) (w : World σ) : Option Instant :=
  ((w.calls.filterMap fun (_, c) => c.binding.bind fun _ => c.session.watchdog).filter
    (· ≤ target)).min?

/-- The clock moves to a moment, with a stop wherever a watchdog is due. -/
def advanceTo (target : Instant) : Nat → World σ → World σ
  | 0, w => { w with now := target }
  | stops + 1, w => match w.nextDue? target with
    | some due => advanceTo target stops ({ w with now := max due w.now }.settle patience)
    | none => { w with now := target }

/-- The clock moves. A grace period of whole milliseconds bounds how often a watchdog can be due. -/
def advance (d : Duration) (w : World σ) : World σ :=
  w.advanceTo (w.now + d) ((d / Duration.ofMillis 1 + 1) * w.calls.length + patience)

end World

/-- How many notices are kept for a slow application. -/
def noticeCapacity : Nat := 64

/-- The notices among deeds, as an application reads them. -/
def noticesOf (deeds : List (Stage × Deed)) : List (Receipt Notice) :=
  ((Inbox.empty noticeCapacity).append (deeds.filterMap fun
    | (_, .notice n) => some n
    | _ => none)).receipts

/-- The deeds that are no notices. -/
def visibleDeeds (deeds : List (Stage × Deed)) : List (Stage × Deed) :=
  deeds.filter fun
    | (_, .notice _) => false
    | _ => true

end PeerCall.Rehearsal
