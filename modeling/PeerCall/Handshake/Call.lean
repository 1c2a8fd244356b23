import PeerCall.Channel.Inbox
import PeerCall.Handshake.Session

/-!
# Calls

A device's call: its session, and while it is bound to a channel what waits for the session. The
session takes up one thing at a time, in a turn: news of the channel, then messages, news of the
media engine, its network paths, chat, and last the watchdog. Binding to another channel begins a
new session and drops whatever waited for the old one.
-/

namespace PeerCall.Handshake

/-- What waits for a bound session, and what it has seen. -/
structure Binding where
  /-- Whether the session has taken its first look at the channel and the media engine. -/
  started : Bool
  /-- The version of the channel's state that it saw last. -/
  channelSeen : Nat
  /-- The version of the media engine's state that it saw last. -/
  engineSeen : Nat
  /-- How many of the media engine's network paths it has passed on or missed. -/
  candidatesSeen : Nat
  messages : Inbox Message
  chats : List String

/-- A device's call. -/
structure Call (σ : Type) where
  session : Session σ
  /-- Absent while no channel is bound. -/
  binding : Option Binding

section

variable {σ : Type} (p : Party σ) (now : Instant)

/-- The oldest network path that still waits, and the number seen with it. -/
def waitingCandidate? (capacity seen : Nat) (gathered : List IceCandidate) :
    Option (IceCandidate × Nat) :=
  let first := max seen (gathered.length - capacity)
  gathered[first]?.map fun c => (c, first + 1)

/-- The event that is next for a session, and what waits behind it. -/
def Binding.next? (channel : Watched ChannelState) (s : Session σ) (b : Binding) :
    Option (Event × Binding) :=
  let report := p.engine.report s.media
  let candidate := waitingCandidate? p.engine.gatheredCapacity b.candidatesSeen
    (p.engine.gathered s.media)
  if channel.changedSince b.channelSeen then
    some (.channel channel.value, { b with channelSeen := channel.version })
  else match b.messages.waiting, candidate, b.chats with
    | m :: rest, _, _ =>
      some (.message m, { b with messages := { b.messages with waiting := rest, lost := 0 } })
    | [], candidate, chats =>
      if report.changedSince b.engineSeen then
        some (.engine report.value, { b with engineSeen := report.version })
      else match candidate, chats with
        | some (c, seen), _ => some (.candidate c, { b with candidatesSeen := seen })
        | none, text :: chats => some (.chat text, { b with chats })
        | none, [] => if s.watchdog.any (· ≤ now) then some (.watchdog, b) else none

namespace Call

/-- A call before its first binding. -/
def start (media : σ) : Call σ := ⟨.start media, none⟩

/-- The first look of a session: what is connected already is news. -/
def firstLook (channel : Watched ChannelState) (b : Binding) (s : Session σ) : Call σ :=
  let report := p.engine.report s.media
  let s := if report.value = .connected then s.handle p now (.engine .connected) else s
  let s := if channel.value = .connected then s.handle p now (.channel .connected) else s
  ⟨s, some { b with
    started := true, channelSeen := channel.version, engineSeen := report.version }⟩

/-- The next turn of a call, given the state of its channel; none if nothing waits. -/
def turn? (channel : Watched ChannelState) (c : Call σ) : Option (Call σ) := do
  let b ← c.binding
  if b.started then
    let (e, b) ← b.next? p now channel c.session
    pure ⟨c.session.handle p now e, some b⟩
  else pure (firstLook p now channel b c.session)

/-- Bind to a channel. The old channel is given up after the new one is asked to connect. -/
def bind (channel : Nat) (c : Call σ) : Call σ :=
  let s := (c.session.bind p now channel).after (does (.connect channel))
  let s := if c.binding.isSome && c.session.channel ≠ channel then
      s.after (does (.disconnect c.session.channel))
    else s
  ⟨s, some ⟨false, 0, 0, (p.engine.gathered s.media).length, .empty messageCapacity, []⟩⟩

/-- Hang up: say so, give the channel up and close the media engine. -/
def hangUp (c : Call σ) : Call σ :=
  let goodbye : Reaction σ Unit := do
    does (.send c.session.channel false ⟨p.sender, .bye⟩)
    does (.disconnect c.session.channel)
  let s := if c.binding.isSome then c.session.after goodbye else c.session
  ⟨s.after (do closeMedia p; enter .idle), none⟩

/-- The application says something; nobody hears it while no channel is bound. -/
def chat (text : String) (c : Call σ) : Call σ :=
  { c with binding := c.binding.map fun b => { b with chats := b.chats ++ [text] } }

/-- Messages arrive on the bound channel. -/
def arrive (ms : List Message) (c : Call σ) : Call σ :=
  { c with binding := c.binding.map fun b => { b with messages := b.messages.append ms } }

/-- Whether a call is bound to a channel. -/
def isBoundTo (channel : Nat) (c : Call σ) : Bool :=
  c.binding.isSome && c.session.channel = channel

end Call

end

end PeerCall.Handshake
