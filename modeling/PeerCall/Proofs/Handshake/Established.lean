import PeerCall.Proofs.Handshake.Opening

/-!
# An established call goes on

A call is up when its stage is the last one and the media engine reports the connection. Only a
description, a network path, a choice of mode or a farewell of the peer then reaches the media
engine, and only trouble that can be noted leaves the stage. Whatever else happens, the session says
something about itself at most: it announces itself, tells its key, or passes on what its own side
has to say.

Apart from the stage, a connection that the media engine reports is enough to keep a host from
offering, and for the watchdog to put the stage right.
-/
namespace PeerCall.Handshake

variable {σ α β : Type} {p : Party σ} {now : Instant} {s t u : Session σ} {limit : Nat}
  {signal : Signal} {m : Message}

/-! ## Calls that are up -/

/-- A call is up. -/
structure IsUp (p : Party σ) (s : Session σ) : Prop where
  stage : s.stage = .linkEstablished
  connected : engineState p s = .connected

/-- What a session may say about itself while a call is up. -/
def isAside : Signal → Bool
  | .join | .identity _ | .chat _ | .iceCandidate _ => true
  | _ => false

/-- A message is a signal of a device, in the clear or sealed to some key. -/
def Party.Utters (p : Party σ) (signal : Signal) (m : Message) : Prop :=
  m = ⟨p.sender, signal⟩ ∨
    ∃ key i, Message.sealFor p.suite key (p.ephemeral i) ⟨p.sender, signal⟩ = .ok m

/-- Deeds that leave the call alone: the media engine is not called, no failure is noted, and what
is sent is said aside. -/
inductive Deed.IsAside (p : Party σ) : Deed → Prop
  | chat (sender text : String) : Deed.IsAside p (.notice (.chat sender text))
  | identified (sender : String) : Deed.IsAside p (.notice (.peerIdentified sender))
  | send {signal : Signal} {m : Message} (channel : Nat) (haside : isAside signal = true)
    (hutters : p.Utters signal m) : Deed.IsAside p (.send channel false m)

/-- A call is still up, the media engine is as it was, and nothing was done but aside. -/
structure Upheld (p : Party σ) (s s' : Session σ) : Prop where
  up : IsUp p s'
  media : s'.media = s.media
  deeds : ∃ ds, Added s s' ds ∧ ∀ d ∈ ds, d.IsAside p

theorem upheld_of_eq (hup : IsUp p s) (hstage : t.stage = s.stage) (hmedia : t.media = s.media)
    (hlog : t.log = s.log) : Upheld p s t := by
  refine ⟨⟨hstage.trans hup.stage, ?_⟩, hmedia, [], added_nil hlog, List.forall_mem_nil _⟩
  rw [engineState, hmedia]
  exact hup.connected

theorem Upheld.trans (h : Upheld p s t) (h' : Upheld p t u) : Upheld p s u := by
  obtain ⟨ds, hds, haside⟩ := h.deeds
  obtain ⟨es, hes, haside'⟩ := h'.deeds
  refine ⟨h'.up, h'.media.trans h.media, ds ++ es, hds.trans hes, ?_⟩
  intro d hd
  rcases List.mem_append.mp hd with hd | hd
  · exact haside d hd
  · exact haside' d hd

/-! ## Reactions that uphold a call -/

/-- A reaction that does not fail while a call is up, and upholds it. -/
def Upholds (p : Party σ) (r : Reaction σ α) : Prop :=
  ∀ s, IsUp p s → ∃ a t, outcome r s = (.ok a, t) ∧ Upheld p s t

section
variable {r : Reaction σ α} {f : α → Reaction σ β}

theorem upholds_pure (a : α) : Upholds p (pure a : Reaction σ α) :=
  fun s hup => ⟨a, s, rfl, upheld_of_eq hup rfl rfl rfl⟩

theorem Upholds.bind (hr : Upholds p r) (hf : ∀ a, Upholds p (f a)) : Upholds p (r >>= f) := by
  intro s hup
  obtain ⟨a, t, ho, ht⟩ := hr s hup
  obtain ⟨b, u, ho', hu⟩ := hf a t ht.up
  refine ⟨b, u, ?_, ht.trans hu⟩
  rw [outcome_bind, ho]
  exact ho'

/-- A reaction that looks at the session first finds the call up. -/
theorem upholds_get {f : Session σ → Reaction σ β} (hf : ∀ s, IsUp p s → Upholds p (f s)) :
    Upholds p (get >>= f) :=
  fun s hup => hf s hup s hup

/-- A change that the call does not depend on. -/
theorem upholds_modify {g : Session σ → Session σ} (hstage : ∀ s, (g s).stage = s.stage)
    (hmedia : ∀ s, (g s).media = s.media) (hlog : ∀ s, (g s).log = s.log) :
    Upholds p (modify g : Reaction σ PUnit) :=
  fun s hup => ⟨_, g s, rfl, upheld_of_eq hup (hstage s) (hmedia s) (hlog s)⟩

theorem upholds_tell {n : Notice} (haside : (Deed.notice n).IsAside p) : Upholds p (tell n) := by
  intro s hup
  refine ⟨(), _, rfl, ⟨hup.stage, hup.connected⟩, rfl, [.notice n], added_does _ s, ?_⟩
  intro d hd
  rw [List.mem_singleton.mp hd]
  exact haside

/-- A guard has nothing to do. -/
theorem Upholds.guarded {r : Reaction σ Unit} (hr : Upholds p r) :
    Upholds p (guarded p now r) := by
  intro s hup
  obtain ⟨a, t, ho, ht⟩ := hr s hup
  refine ⟨a, t, ?_, ht⟩
  rw [Handshake.guarded, outcome_tryCatch, ho]

theorem Upholds.after (hr : Upholds p r) (hup : IsUp p s) : Upheld p s (s.after r) := by
  obtain ⟨a, t, ho, ht⟩ := hr s hup
  rw [after_eq, ho]
  exact ht

end

/-! ## Asides -/

/-- A signal that is small enough is dressed; at most another envelope is counted. -/
theorem dressed_of_sendable (hsuite : p.suite.DecryptsUpTo limit)
    (hsize : Sendable limit p signal) (hplain : signal.isEnvelope = false) (s : Session σ) :
    ∃ m count, p.Utters signal m ∧
      outcome (dress p signal) s = (.ok m, { s with sealedCount := count }) := by
  rw [outcome_dress]
  rcases s with ⟨stage, media, channel, mode, known, offerSentAt, lastJoin, watchdog, count, log⟩
  cases known with
  | none => exact ⟨_, count, Or.inl rfl, rfl⟩
  | some key =>
      dsimp only
      split
      · rename_i hseal
        obtain ⟨hconfidential, hencrypts⟩ := Bool.and_eq_true_iff.mp hseal
        obtain ⟨e, he⟩ := Message.exists_sealFor (m := ⟨p.sender, signal⟩) hsuite
          (hsize hencrypts hconfidential) hplain key (p.ephemeral count)
        rw [he]
        exact ⟨e, count + 1, Or.inr ⟨key, count, he⟩, rfl⟩
      · exact ⟨_, count, Or.inl rfl, rfl⟩

/-- It is sent, on the session's channel. -/
theorem outcome_send_of_sendable (hsuite : p.suite.DecryptsUpTo limit)
    (hsize : Sendable limit p signal) (hplain : signal.isEnvelope = false) (s : Session σ) :
    ∃ m count, p.Utters signal m ∧ outcome (send p signal) s = (.ok (), { s with
      sealedCount := count, log := s.log ++ [(s.stage, .send s.channel false m)] }) := by
  obtain ⟨m, count, hutters, ho⟩ := dressed_of_sendable hsuite hsize hplain s
  refine ⟨m, count, hutters, ?_⟩
  rw [send, post, outcome_bind, ho]
  rfl

theorem isEnvelope_of_isAside (h : isAside signal = true) : signal.isEnvelope = false := by
  cases signal with
  | encrypted key payload => cases h
  | _ => rfl

theorem upholds_sendGuarded (hsuite : p.suite.DecryptsUpTo limit)
    (hsize : Sendable limit p signal) (haside : isAside signal = true) :
    Upholds p (sendGuarded p now signal) := by
  refine Upholds.guarded fun s hup => ?_
  obtain ⟨m, count, hutters, ho⟩ :=
    outcome_send_of_sendable hsuite hsize (isEnvelope_of_isAside haside) s
  refine ⟨(), _, ho, ⟨hup.stage, hup.connected⟩, rfl, [.send s.channel false m], ⟨_, rfl, rfl⟩, ?_⟩
  exact List.forall_mem_singleton.mpr (.send s.channel haside hutters)

theorem upholds_sendIdentity (hsuite : p.suite.DecryptsUpTo limit) :
    Upholds p (sendIdentity p now) :=
  upholds_sendGuarded hsuite (sendable_of_open rfl) rfl

theorem upholds_announce (hsuite : p.suite.DecryptsUpTo limit) : Upholds p (announce p now) := by
  have hnote : Upholds p (modify fun s => { s with lastJoin := some now }) :=
    upholds_modify (fun _ => rfl) (fun _ => rfl) fun _ => rfl
  exact hnote.bind fun _ => upholds_sendGuarded hsuite (sendable_of_open rfl) rfl

/-! ## The channel -/

theorem upholds_onConnected (hsuite : p.suite.DecryptsUpTo limit)
    (hready : ∀ text, p.config.readyMessage = some text → Sendable limit p (.chat text)) :
    Upholds p (onConnected p now) := by
  -- The stage is neither one before the negotiation nor that of a lost channel, so it is kept.
  have hfind : Upholds p findPeer := by
    refine upholds_get fun s hup => ?_
    rw [hup.stage]
    exact upholds_pure _
  rw [onConnected_eq]
  refine hfind.bind fun _ => Upholds.bind ?_ fun _ => (upholds_announce hsuite).bind fun _ => ?_
  · unfold introduce
    split
    · exact upholds_sendIdentity hsuite
    · exact upholds_pure _
  · unfold declareReady
    split
    · rename_i text htext
      exact upholds_sendGuarded hsuite (hready text htext) rfl
    · exact upholds_pure _

theorem upholds_onChannelState (hsuite : p.suite.DecryptsUpTo limit)
    (hready : ∀ text, p.config.readyMessage = some text → Sendable limit p (.chat text))
    (state : ChannelState) : Upholds p (onChannelState p now state) := by
  unfold onChannelState
  split
  · exact upholds_onConnected hsuite hready
  · refine upholds_get fun s hup => ?_
    rw [hup.stage]
    exact upholds_pure _

/-! ## Messages -/

/-- A host whose media engine reports a connection leaves an announcement unanswered. -/
theorem outcome_onJoin_of_connected (hrole : p.role = .host) (h : engineState p s = .connected) :
    outcome (onJoin p now) s = (.ok (), s) := by
  rw [onJoin, hrole]
  exact outcome_startOffer_of_busy (Or.inr h)

theorem upholds_onJoin : Upholds p (onJoin p now) := by
  cases hrole : p.role with
  | host =>
      intro s hup
      exact ⟨(), s, outcome_onJoin_of_connected hrole hup.connected, upheld_of_eq hup rfl rfl rfl⟩
  | joiner =>
      unfold onJoin
      rw [hrole]
      refine upholds_get fun s hup => ?_
      rw [hup.stage]
      exact upholds_pure _

theorem upholds_onIdentity (hsuite : p.suite.DecryptsUpTo limit) (sender : String)
    (key : PublicKey) : Upholds p (onIdentity p now sender key) := by
  refine upholds_get fun s _ => ?_
  split
  · have hnote : Upholds p (modify fun s => { s with peerKey := some key }) :=
      upholds_modify (fun _ => rfl) (fun _ => rfl) fun _ => rfl
    refine hnote.bind fun _ => (upholds_tell (.identified sender)).bind fun _ => ?_
    split
    · exact upholds_sendIdentity hsuite
    · exact upholds_pure _
  · exact upholds_pure _

/-- Signals of a peer that are no concern of the media: announcements, keys, chat, and what is not
understood. -/
def isHarmless : Signal → Bool
  | .join | .identity _ | .chat _ | .unknown => true
  | _ => false

theorem upholds_onPlain (hsuite : p.suite.DecryptsUpTo limit)
    (h : isHarmless m.signal = true) : Upholds p (onPlain p now m) := by
  unfold onPlain
  cases hsignal : m.signal with
  | join => exact upholds_onJoin
  | identity key => exact upholds_onIdentity hsuite _ _
  | chat text => exact upholds_tell (.chat _ _)
  | unknown => exact upholds_pure _
  | _ =>
      rw [hsignal] at h
      cases h

/-! ## Events -/

/-- The watchdog finds the connection and puts the stage right, whatever it is. -/
theorem handle_watchdog_of_connected (h : engineState p s = .connected) (now : Instant) :
    s.handle p now .watchdog = { s with watchdog := none, stage := .linkEstablished } := by
  have h' : engineState p { s with watchdog := none } = .connected := h
  rw [Session.handle, after_eq, react, onWatchdog]
  simp only [outcome_bind, outcome_modify, outcome_get, h', if_true, outcome_settle]

/-- One's own messages come back without effect. -/
theorem handle_own (h : m.sender = p.sender) (now : Instant) (s : Session σ) :
    s.handle p now (.message m) = s := by
  rw [Session.handle, react, onMessage, if_pos h]
  rfl

theorem handle_join_of_connected (hrole : p.role = .host) (h : engineState p s = .connected)
    {n : Message} (hread : p.read? m = some n) (hjoin : n.signal = .join) (now : Instant) :
    s.handle p now (.message m) = s := by
  by_cases hown : m.sender = p.sender
  · exact handle_own hown now s
  · have hplain : onPlain p now n = onJoin p now := by
      rw [onPlain, hjoin]
    rw [handle_message hown, dispatch_of_read? hread, hplain, after_eq, guarded, outcome_tryCatch,
      outcome_onJoin_of_connected hrole h]

/-- Events that do no harm to a call that is up: whatever becomes of the channel, messages that are
one's own, that are sealed for others or that are no concern of the media, whatever one's own side
has to say, and news of the media engine that it has not failed. -/
inductive Event.Harmless (limit : Nat) (p : Party σ) : Event → Prop
  | channel (state : ChannelState) : Event.Harmless limit p (.channel state)
  | own {m : Message} (h : m.sender = p.sender) : Event.Harmless limit p (.message m)
  | passedOver {m : Message} (h : p.PassesOver m) : Event.Harmless limit p (.message m)
  | read {m n : Message} (hread : p.read? m = some n) (h : isHarmless n.signal = true) :
    Event.Harmless limit p (.message m)
  | news {state : EngineState} (h : state ≠ .failed) : Event.Harmless limit p (.engine state)
  | candidate {c : IceCandidate} (hsize : Sendable limit p (.iceCandidate c)) :
    Event.Harmless limit p (.candidate c)
  | chat {text : String} (hsize : Sendable limit p (.chat text)) :
    Event.Harmless limit p (.chat text)
  | watchdog : Event.Harmless limit p .watchdog

/-- **A harmless event upholds a call.** -/
theorem upheld_handle (hsuite : p.suite.DecryptsUpTo limit)
    (hready : ∀ text, p.config.readyMessage = some text → Sendable limit p (.chat text))
    {e : Event} (he : e.Harmless limit p) (hup : IsUp p s) (now : Instant) :
    Upheld p s (s.handle p now e) := by
  have hsame : Upheld p s s := upheld_of_eq hup rfl rfl rfl
  have hput : Upheld p s { s with watchdog := none, stage := .linkEstablished } :=
    upheld_of_eq hup hup.stage.symm rfl rfl
  cases he with
  | channel state => exact (upholds_onChannelState hsuite hready state).after hup
  | own hown =>
      rw [handle_own hown]
      exact hsame
  | @passedOver m h =>
      by_cases hown : m.sender = p.sender
      · rw [handle_own hown]
        exact hsame
      · rw [handle_of_passesOver hown h]
        exact hsame
  | @read m n hread h =>
      by_cases hown : m.sender = p.sender
      · rw [handle_own hown]
        exact hsame
      · rw [handle_message hown, dispatch_of_read? hread]
        exact (upholds_onPlain hsuite h).guarded.after hup
  | @news state h =>
      cases state with
      | connected => exact hput
      | failed => exact absurd rfl h
      | _ => exact hsame
  | candidate hsize => exact (upholds_sendGuarded hsuite hsize rfl).after hup
  | chat hsize => exact (upholds_sendGuarded hsuite hsize rfl).after hup
  | watchdog =>
      rw [handle_watchdog_of_connected hup.connected]
      exact hput

/-! ## Runs -/

/-- The session after events, each at its moment. -/
def Session.handleAll (p : Party σ) (s : Session σ) (events : List (Instant × Event)) :
    Session σ :=
  events.foldl (fun s x => s.handle p x.1 x.2) s

theorem upheld_handleAll (hsuite : p.suite.DecryptsUpTo limit)
    (hready : ∀ text, p.config.readyMessage = some text → Sendable limit p (.chat text))
    {events : List (Instant × Event)} (hevents : ∀ x ∈ events, x.2.Harmless limit p)
    (hup : IsUp p s) : Upheld p s (s.handleAll p events) := by
  induction events generalizing s with
  | nil => exact upheld_of_eq hup rfl rfl rfl
  | cons x events ih =>
      obtain ⟨hx, hevents⟩ := List.forall_mem_cons.mp hevents
      have hfirst := upheld_handle hsuite hready hx hup x.1
      exact hfirst.trans (ih hevents hfirst.up)

/-- **Nothing but the peer's farewell or a new description disturbs a call that is up.** After each
of any harmless events, at whatever moments, the call is up, its media engine has not been called,
and nothing was sent but asides: no description among them, in the clear or sealed. And in whatever
state a session is, as long as its media engine reports a connection, a host does nothing when a
peer announces itself, and the watchdog does nothing but put the stage right. -/
theorem established_undisturbed (p : Party σ) {limit : Nat} (hsuite : p.suite.DecryptsUpTo limit)
    (hready : ∀ text, p.config.readyMessage = some text → Sendable limit p (.chat text)) :
    (∀ s, IsUp p s → ∀ events : List (Instant × Event), (∀ x ∈ events, x.2.Harmless limit p) →
      ∀ k, Upheld p s (s.handleAll p (events.take k))) ∧
    (∀ s now, engineState p s = .connected →
      (p.role = .host → ∀ m n, p.read? m = some n → n.signal = .join →
        s.handle p now (.message m) = s) ∧
      s.handle p now .watchdog = { s with watchdog := none, stage := .linkEstablished }) := by
  refine ⟨?_, ?_⟩
  · intro s hup events hevents k
    exact upheld_handleAll hsuite hready (fun x hx => hevents x (List.mem_of_mem_take hx)) hup
  · intro s now hconnected
    refine ⟨?_, handle_watchdog_of_connected hconnected now⟩
    intro hrole m n hread hjoin
    exact handle_join_of_connected hrole hconnected hread hjoin now

/-- A call of the host: the joiner announces itself, gets an offer and answers it. -/
def answered : List (Instant × Occurrence Probe) :=
  [(0, .bind 0), (1, .event (.message ⟨"joiner", .join⟩)),
    (2, .event (.message ⟨"joiner", .answer "v=0\r\n"⟩))]

/-- What goes on around the call: the channel is lost and found, the joiner tells its key and
announces itself again, a message comes by, and the host has something to say. -/
def bustle (m : Message) : List (Instant × Event) :=
  [(3, .channel .idle), (4, .channel .connected),
    (5, .message ⟨"joiner", .identity (Crypto.Suite.standard.publicKey peerSecret)⟩),
    (6, .message ⟨"joiner", .join⟩), (7, .message m), (8, .chat "hello")]

/-- The message that comes by is sealed to a key that is not the host's. -/
theorem established_undisturbed_bustle :
    ∃ e, Message.sealFor .standard (Crypto.Suite.standard.publicKey peerSecret) peerSecret
        ⟨"joiner", .chat "hush"⟩ = .ok e ∧
      (∀ x ∈ bustle e, x.2.Harmless Crypto.Suite.maxPlaintext sealingHost) ∧
      IsUp sealingHost (sessionAt sealingHost (.start 1) answered 3) ∧
      ∀ k, Upheld sealingHost (sessionAt sealingHost (.start 1) answered 3)
        ((sessionAt sealingHost (.start 1) answered 3).handleAll sealingHost
          ((bustle e).take k)) := by
  have hsmall : Message.size ⟨"joiner", .chat "hush"⟩ ≤ Crypto.Suite.maxPlaintext := by
    decide +kernel
  obtain ⟨e, hseal⟩ := Message.exists_sealFor Crypto.Suite.decryptsUpTo_standard hsmall rfl
    (Crypto.Suite.standard.publicKey peerSecret) peerSecret
  have hrefused : (Crypto.Suite.standard.encrypt
      (envelopeKey .standard (Crypto.Suite.standard.agree peerSecret
        (Crypto.Suite.standard.publicKey peerSecret))) (counterNonce 0)
      (Message.format.encode ⟨"joiner", .chat "hush"⟩)).bind
        (Crypto.Suite.standard.decrypt (envelopeKey .standard
          (Crypto.Suite.standard.agree sealingHost.keypair.secret
            (Crypto.Suite.standard.publicKey peerSecret))) (counterNonce 0)) = none := by
    decide +kernel
  have hpassed : sealingHost.PassesOver e :=
    Party.passesOver_of_sealFor hseal (Option.bind_eq_none_iff.mp hrefused)
  have hharmless : ∀ x ∈ bustle e, x.2.Harmless Crypto.Suite.maxPlaintext sealingHost := by
    simp only [bustle, List.forall_mem_cons]
    refine ⟨.channel _, .channel _, .read (Party.read?_of_plain rfl) rfl,
      .read (Party.read?_of_plain rfl) rfl, .passedOver hpassed, .chat ?_, List.forall_mem_nil _⟩
    intro _ _
    decide +kernel
  have hup : IsUp sealingHost (sessionAt sealingHost (.start 1) answered 3) :=
    ⟨by decide +kernel, by decide +kernel⟩
  obtain ⟨hupheld, -⟩ := established_undisturbed sealingHost Crypto.Suite.decryptsUpTo_standard
    (fun _ h => nomatch h)
  exact ⟨e, hseal, hharmless, hup, hupheld _ hup _ hharmless⟩

end PeerCall.Handshake
