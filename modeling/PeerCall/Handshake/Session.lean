import PeerCall.Config.Basic
import PeerCall.Handshake.Failure
import PeerCall.Handshake.Stage
import PeerCall.Role

/-!
# Sessions

A session sets up one call over one channel. It reacts to events, one at a time: news of the
channel, messages, news of the media engine, chat of the application, and the watchdog, which gives
the media one grace period after a failure before the host hands over. A reaction changes the
session and its media engine and does deeds, which are kept in a log.

The host offers when a peer announces itself and the joiner answers; who is host is fixed. The
session carries no copy of the engine's state: where a step depends on it, the engine is asked.
-/

namespace PeerCall.Handshake

open Crypto

/-- What the application is told besides the stage. -/
inductive Notice
  | chat (sender : String) (text : String)
  | failed (failure : Failure)
  | modeSelected (mode : CallMode)
  | peerIdentified (sender : String)
  /-- The host offers again because the media did not recover. -/
  | handover
  deriving DecidableEq

/-- What a session does that others can see. Channels are known by number. -/
inductive Deed
  | engine (call : EngineCall)
  | connect (channel : Nat)
  | disconnect (channel : Nat)
  /-- Pass a message to a channel; `everywhere` asks for every path that the channel has. -/
  | send (channel : Nat) (everywhere : Bool) (message : Message)
  | notice (notice : Notice)
  deriving DecidableEq

/-- What stays the same through all calls of one device. -/
structure Party (σ : Type) where
  role : Role
  /-- The sender id of its messages. -/
  sender : String
  keypair : Keypair
  config : HandshakeConfig
  engine : MediaEngine σ
  suite : Suite
  /-- The secrets for its envelopes, each used once. -/
  ephemeral : Nat → SecretKey

/-- The state of a call setup. -/
structure Session (σ : Type) where
  stage : Stage
  /-- The media engine's own state. -/
  media : σ
  /-- The channel of this session. -/
  channel : Nat
  mode : CallMode
  /-- The public key that the peer told last. -/
  peerKey : Option PublicKey
  /-- When the last offer was sent. -/
  offerSentAt : Option Instant
  /-- When this side announced itself last. -/
  lastJoin : Option Instant
  /-- When the watchdog is due, while it is armed. -/
  watchdog : Option Instant
  /-- How many envelopes were sealed. -/
  sealedCount : Nat
  /-- All deeds with the stage at that moment. -/
  log : List (Stage × Deed)

/-- What a session reacts to. -/
inductive Event
  /-- The channel reports another state. -/
  | channel (state : ChannelState)
  | message (message : Message)
  /-- The media engine reports a state. -/
  | engine (state : EngineState)
  /-- The media engine found a network path of its own. -/
  | candidate (candidate : IceCandidate)
  /-- The application has something to say. -/
  | chat (text : String)
  /-- The watchdog is due. -/
  | watchdog

/-- A part of a reaction, which may fail half-way with all its effects so far. -/
abbrev Reaction (σ α : Type) := ExceptT Failure (StateM (Session σ)) α

/-! ## Deeds and stages -/

section

variable {σ α : Type}

/-- Keep a deed in the log. -/
def does (d : Deed) : Reaction σ Unit :=
  modify fun s => { s with log := s.log ++ [(s.stage, d)] }

/-- Tell the application. -/
def tell (n : Notice) : Reaction σ Unit := does (.notice n)

/-- Go to a stage. -/
def enter (stage : Stage) : Reaction σ Unit := modify fun s => { s with stage }

variable (p : Party σ)

/-- The state that the media engine reports now. -/
def engineState (s : Session σ) : EngineState := (p.engine.report s.media).value

/-- Call the media engine. -/
def engage (call : EngineCall) (during : Activity) (run : σ → Except MediaError α × σ) :
    Reaction σ α := do
  does (.engine call)
  let (outcome, media) := run (← get).media
  modify fun s => { s with media }
  match outcome with
  | .ok a => pure a
  | .error cause => throw (.media during cause)

/-- Set the media engine up for the session's mode. -/
def setUp (during : Activity) : Reaction σ Unit := do
  let video := (← get).mode.hasVideo
  engage (.setUp video) during (p.engine.setUp video)

/-- Set the media engine up unless it has a session. -/
def setUpForOffer : Reaction σ Unit := do
  if !p.engine.hasSession (← get).media then setUp p .settingUpForOffer

/-- Close the media engine. -/
def closeMedia : Reaction σ Unit := do
  does (.engine .close)
  modify fun s => { s with media := p.engine.close s.media }

/-- A new offer on the session there is. -/
def renewOffer : Reaction σ String :=
  match p.engine.restartIce? with
  | some restart => engage .restartIce .restartingIce restart
  | none => engage .createOffer .restartingIce p.engine.createOffer

/-! ## Sending -/

/-- The signals that are sealed once the peer's key is known: descriptions, network paths, chat. -/
def isConfidential : Signal → Bool
  | .offer _ | .answer _ | .iceCandidate _ | .chat _ => true
  | _ => false

/-- The form in which a signal goes out: under a seal if it is confidential, sealing is on and the
peer's key is known. -/
def dress (signal : Signal) : Reaction σ Message := do
  let s ← get
  let plain : Message := ⟨p.sender, signal⟩
  match s.peerKey with
  | some key =>
    if isConfidential signal && p.config.encryptSignaling then
      set { s with sealedCount := s.sealedCount + 1 }
      match plain.sealFor p.suite key (p.ephemeral s.sealedCount) with
      | .ok envelope => pure envelope
      | .error cause => throw (.sealing cause)
    else pure plain
  | none => pure plain

/-- Pass a signal to the channel; `everywhere` asks for every path that the channel has. -/
def post (everywhere : Bool) (signal : Signal) : Reaction σ Unit := do
  let message ← dress p signal
  does (.send (← get).channel everywhere message)

/-- Send a signal. -/
def send (signal : Signal) : Reaction σ Unit := post p false signal

variable (now : Instant)

/-- Note a failure. The watchdog is armed, if it was not. -/
def fail (failure : Failure) : Reaction σ Unit := do
  enter .failed
  tell (.failed failure)
  modify fun s => { s with watchdog := some (s.watchdog.getD (now + p.config.watchdogGrace)) }

/-- A reaction whose failure is noted. -/
def guarded (r : Reaction σ Unit) : Reaction σ Unit := tryCatch r (fail p now)

/-- Send a signal and note a failure. -/
def sendGuarded (signal : Signal) : Reaction σ Unit := guarded p now (send p signal)

/-- Announce this side. -/
def announce : Reaction σ Unit := do
  modify fun s => { s with lastJoin := some now }
  sendGuarded p now .join

/-- Tell this side's public key. -/
def sendIdentity : Reaction σ Unit := sendGuarded p now (.identity p.keypair.publicKey)

/-! ## The media engine -/

/-- News of the media engine: a connection disarms the watchdog, a failure arms it. -/
def onEngineState : EngineState → Reaction σ Unit
  | .connected => do
    modify fun s => { s with watchdog := none }
    enter .linkEstablished
  | .failed => fail p now .engine
  | _ => pure ()

/-- Go to the last stage if the media are connected already. -/
def settle : Reaction σ Unit := do
  if engineState p (← get) = .connected then onEngineState p now .connected

/-- The watchdog is due. Without media the host offers again, over every path. -/
def onWatchdog : Reaction σ Unit := do
  modify fun s => { s with watchdog := none }
  if engineState p (← get) = .connected then settle p now
  else match p.role with
    | .joiner => pure ()
    | .host => do
      enter .reconnecting
      tell .handover
      guarded p now do
        let sdp ← renewOffer p
        post p true (.offer sdp)
        modify fun s => { s with offerSentAt := some now }

/-! ## Messages -/

/-- Whether a moment is less than a length of time ago. -/
def isRecent (length : Duration) : Option Instant → Bool
  | some moment => now - moment < length
  | none => false

/-- Whether a host leaves an announcement unanswered: in a call, with the media engine busy, or
within the grace period of an offer. -/
def ignoresJoin (s : Session σ) : Bool :=
  s.stage = .linkEstablished
    || !(engineState p s ∈ [.idle, .ready, .closed])
    || isRecent now p.config.watchdogGrace s.offerSentAt

/-- Select the mode and offer. -/
def startOffer : Reaction σ Unit := do
  if !ignoresJoin p now (← get) then
    setUpForOffer p
    send p (.selectMode (← get).mode)
    enter .exchangingOffer
    let sdp ← engage .createOffer .creatingOffer p.engine.createOffer
    send p (.offer sdp)
    modify fun s => { s with offerSentAt := some now }
    enter .gatheringCandidates

/-- A peer announced itself: the host offers, and a joiner that is not negotiating announces itself
again, but not too often. -/
def onJoin : Reaction σ Unit := do
  match p.role with
  | .host => startOffer p now
  | .joiner =>
    let s ← get
    if s.stage.isPreNegotiation && !isRecent now p.config.rejoinInterval s.lastJoin then
      announce p now

/-- The host selected a mode. -/
def onMode (mode : CallMode) : Reaction σ Unit := do
  match p.role with
  | .host => pure ()
  | .joiner =>
    modify fun s => { s with mode }
    tell (.modeSelected mode)
    setUp p .settingUpForMode

/-- Answer an offer. -/
def onOffer (sdp : String) : Reaction σ Unit := do
  enter .exchangingOffer
  setUpForOffer p
  engage (.setRemote .offer sdp) .applyingOffer (p.engine.setRemote .offer sdp)
  enter .exchangingAnswer
  let answer ← engage .createAnswer .creatingAnswer p.engine.createAnswer
  send p (.answer answer)
  enter .gatheringCandidates
  settle p now

/-- Take an answer. -/
def onAnswer (sdp : String) : Reaction σ Unit := do
  enter .waitingForVideo
  engage (.setRemote .answer sdp) .applyingAnswer (p.engine.setRemote .answer sdp)
  settle p now

/-- The peer hung up. -/
def onBye : Reaction σ Unit := do
  closeMedia p
  modify fun s => { s with watchdog := none, offerSentAt := none, lastJoin := none }
  enter .idle

/-- The peer told its key. A new one is answered with this side's, if sealing is on. -/
def onIdentity (sender : String) (key : PublicKey) : Reaction σ Unit := do
  if (← get).peerKey ≠ some key then
    modify fun s => { s with peerKey := some key }
    tell (.peerIdentified sender)
    if p.config.encryptSignaling then sendIdentity p now

/-- React to a message in the clear. -/
def onPlain (m : Message) : Reaction σ Unit :=
  match m.signal with
  | .join => onJoin p now
  | .selectMode mode => onMode p mode
  | .offer sdp => onOffer p now sdp
  | .answer sdp => onAnswer p now sdp
  | .iceCandidate c => engage (.addIce c) .addingCandidate (p.engine.addIce c)
  | .bye => onBye p
  | .chat text => tell (.chat m.sender text)
  | .identity key => onIdentity p now m.sender key
  | .encrypted .. => throw (.nested m.sender)
  | .unknown => pure ()

/-- React to a message of another device. An envelope that is sealed for somebody else, or by one
who is not its sender, is passed over. -/
def dispatch (m : Message) : Reaction σ Unit :=
  if m.signal.isEnvelope then
    match m.openWith p.suite p.keypair.secret with
    | .ok inner => onPlain p now inner
    | .error (.crypto .decrypt) | .error .senderMismatch => pure ()
    | .error cause => throw (.opening m.sender cause)
  else onPlain p now m

/-- React to a message; one's own come back on some channels and are passed over. -/
def onMessage (m : Message) : Reaction σ Unit :=
  if m.sender = p.sender then pure () else guarded p now (dispatch p now m)

/-! ## The channel -/

/-- The channel connected: introduce this side. -/
def onConnected : Reaction σ Unit := do
  let s ← get
  if s.stage.isPreNegotiation || s.stage = .reconnecting then enter .peerFound
  if p.config.encryptSignaling then sendIdentity p now
  announce p now
  match p.config.readyMessage with
  | some text => sendGuarded p now (.chat text)
  | none => pure ()

/-- News of the channel. -/
def onChannelState : ChannelState → Reaction σ Unit
  | .connected => onConnected p now
  | _ => do if (← get).stage.isNegotiating then enter .reconnecting

/-- React to an event. -/
def react : Event → Reaction σ Unit
  | .channel state => onChannelState p now state
  | .message m => onMessage p now m
  | .engine state => onEngineState p now state
  | .candidate c => sendGuarded p now (.iceCandidate c)
  | .chat text => sendGuarded p now (.chat text)
  | .watchdog => onWatchdog p now

/-- The session after a part of a reaction. -/
def Session.after (r : Reaction σ α) (s : Session σ) : Session σ := (r.run.run s).2

/-- The session after an event. -/
def Session.handle (e : Event) (s : Session σ) : Session σ := s.after (react p now e)

/-- The session of a new binding to a channel: nothing is known of the peer, and the media engine
is set up in the configured mode. -/
def Session.bind (channel : Nat) (s : Session σ) : Session σ :=
  let mode := if p.config.video then CallMode.video else .voice
  let fresh := { s with
    channel, mode, peerKey := none, offerSentAt := none, lastJoin := none, watchdog := none }
  fresh.after (guarded p now do
    enter .initializingHardware
    setUp p .settingUp
    enter .startingDiscovery)

/-- A session before its first binding. -/
def Session.start (media : σ) : Session σ :=
  ⟨.idle, media, 0, .voice, none, none, none, none, 0, []⟩

end

end PeerCall.Handshake
