import PeerCall.Handshake.Call
import PeerCall.Proofs.Handshake.Established
import PeerCall.Proofs.Handshake.Parts
import PeerCall.Proofs.Handshake.Sides

/-!
# A host that waits for its peer again

A host that waits for its peer offers when the peer announces itself. It may wait because nothing
has been said yet, or again, because its channel was lost in the middle of a negotiation and came
back. What it does then depends on what the earlier attempt left in the media engine, not on the
time that has passed. The engine reports that a connection is coming as long as a description of
either side is in place, and a host takes such an engine for busy and passes announcements over. So
a negotiation that was interrupted is not begun again by an announcement, unless the media engine
was closed in between.
-/
namespace PeerCall.Handshake

variable {σ α β : Type}

/-! ## Where a session can get -/

section
variable {p : Party Probe} {now : Instant} {s : Session Probe}

/-- The sessions of a device with a probe engine: it is bound to channels, events of any kind happen
to it, its call hangs up, and something is done outside of it. In between the engine is allowed a
video bitrate, and the id that it will give to its next session changes. -/
inductive Arises (p : Party Probe) : Session Probe → Prop
  | start (nextId : UInt64) : Arises p (.start (.start nextId))
  | bind {s : Session Probe} (h : Arises p s) (now : Instant) (channel : Nat) :
      Arises p (s.bind p now channel)
  | event {s : Session Probe} (h : Arises p s) (now : Instant) (e : Event) :
      Arises p (s.handle p now e)
  | hangUp {s : Session Probe} (h : Arises p s) :
      Arises p (s.after (do closeMedia p; enter .idle))
  | aside {s : Session Probe} (h : Arises p s) (d : Deed) : Arises p (s.after (does d))
  | bitrate {s : Session Probe} (h : Arises p s) (kbps : Nat) :
      Arises p { s with media := s.media.allowBitrate kbps }
  | nextId {s : Session Probe} (h : Arises p s) (nextId : UInt64) :
      Arises p { s with media := { s.media with nextId } }

variable {c c' : Call Probe} {channel : Watched ChannelState}

/-- Whatever turn a call takes, its session arises. -/
theorem Arises.turn? (h : Arises p c.session) (hturn : c.turn? p now channel = some c') :
    Arises p c'.session := by
  obtain ⟨b, -, hturn⟩ := Option.bind_eq_some_iff.mp hturn
  split at hturn
  · obtain ⟨⟨e, b'⟩, -, hnext⟩ := Option.bind_eq_some_iff.mp hturn
    cases hnext
    exact h.event now e
  · cases hturn
    have hlook : Arises p (if (p.engine.report c.session.media).value = .connected then
        c.session.handle p now (.engine .connected) else c.session) := by
      split
      · exact h.event now _
      · exact h
    rw [Call.firstLook]
    dsimp only
    split
    · exact hlook.event now _
    · exact hlook

/-- The session of a call that is bound to a channel arises. -/
theorem Arises.bindCall (h : Arises p c.session) (channel : Nat) :
    Arises p (c.bind p now channel).session := by
  have hbound : Arises p ((c.session.bind p now channel).after (does (.connect channel))) :=
    (h.bind now channel).aside _
  rw [Call.bind]
  dsimp only
  split
  · exact hbound.aside _
  · exact hbound

/-- The session of a call that hangs up arises. -/
theorem Arises.hangUpCall (h : Arises p c.session) : Arises p (c.hangUp p).session := by
  rw [Call.hangUp]
  dsimp only
  split
  · exact ((h.aside _).aside _).hangUp
  · exact h.hangUp

end

/-! ## Parts that spare the engine -/

/-- Stages in the middle of a negotiation: descriptions are being exchanged, or were when the
channel was lost. -/
def Stage.isMidway (stage : Stage) : Bool := stage.isNegotiating || stage = .reconnecting

/-- The media engine is not touched. -/
def Untouched (s s' : Session σ) : Prop := s'.media = s.media

/-- The media engine is not touched, and the session does not get into the middle of a
negotiation. -/
structure Spares (s s' : Session σ) : Prop where
  untouched : Untouched s s'
  stage : s'.stage.isMidway = true → s.stage.isMidway = true

section
variable {p : Party σ} {now : Instant} {s t u : Session σ}

theorem Untouched.trans (h : Untouched s t) (h' : Untouched t u) : Untouched s u := Eq.trans h' h

theorem spares_of_eq (hmedia : t.media = s.media) (hstage : t.stage = s.stage) : Spares s t :=
  ⟨hmedia, by rw [hstage]; exact id⟩

theorem Spares.refl (s : Session σ) : Spares s s := spares_of_eq rfl rfl

theorem Spares.trans (h : Spares s t) (h' : Spares t u) : Spares s u :=
  ⟨h.untouched.trans h'.untouched, fun hu => h.stage (h'.stage hu)⟩

theorem spares_bind {r : Reaction σ α} {f : α → Reaction σ β} (hr : Within Spares r)
    (hf : ∀ a, Within Spares (f a)) : Within Spares (r >>= f) :=
  hr.bind Spares.trans hf

theorem spares_pure (a : α) : Within Spares (pure a : Reaction σ α) := within_pure Spares.refl a

theorem spares_get_bind {f : Session σ → Reaction σ β} (hf : ∀ s, Within Spares (f s)) :
    Within Spares (get >>= f) :=
  spares_bind (within_get Spares.refl) hf

theorem spares_does (d : Deed) : Within Spares (does d : Reaction σ Unit) :=
  fun _ => spares_of_eq rfl rfl

theorem spares_enter {stage : Stage} (h : stage.isMidway = false) :
    Within Spares (enter stage : Reaction σ Unit) :=
  fun _ => ⟨rfl, fun hmidway => absurd (h.symm.trans hmidway) Bool.false_ne_true⟩

theorem spares_dress (signal : Signal) : Within Spares (dress p signal) := by
  intro s
  rw [outcome_dress]
  split
  · split
    · split <;> exact spares_of_eq rfl rfl
    · exact Spares.refl s
  · exact Spares.refl s

theorem spares_post (everywhere : Bool) (signal : Signal) :
    Within Spares (post p everywhere signal) :=
  spares_bind (spares_dress signal) fun _ => spares_get_bind fun _ => spares_does _

theorem spares_fail (failure : Failure) : Within Spares (fail p now failure) := by
  intro s
  rw [outcome_fail]
  exact ⟨rfl, fun h => absurd h Bool.false_ne_true⟩

theorem Within.spares_guarded {r : Reaction σ Unit} (hr : Within Spares r) :
    Within Spares (guarded p now r) :=
  hr.tryCatch Spares.trans spares_fail

theorem spares_sendGuarded (signal : Signal) : Within Spares (sendGuarded p now signal) :=
  (spares_post false signal).spares_guarded

theorem spares_announce : Within Spares (announce p now) :=
  spares_bind (within_modify fun _ => spares_of_eq rfl rfl) fun _ => spares_sendGuarded _

theorem spares_onEngineState (state : EngineState) : Within Spares (onEngineState p now state) := by
  unfold onEngineState
  split
  · exact spares_bind (within_modify fun _ => spares_of_eq rfl rfl) fun _ => spares_enter rfl
  · exact spares_fail _
  · exact spares_pure _

theorem spares_settle : Within Spares (settle p now) := by
  refine spares_get_bind fun s => ?_
  split
  · exact spares_onEngineState _
  · exact spares_pure _

theorem spares_onIdentity (sender : String) (key : PublicKey) :
    Within Spares (onIdentity p now sender key) := by
  refine spares_get_bind fun s => ?_
  split
  · refine spares_bind (within_modify fun _ => spares_of_eq rfl rfl) fun _ =>
      spares_bind (spares_does _) fun _ => ?_
    split
    · exact spares_sendGuarded _
    · exact spares_pure _
  · exact spares_pure _

theorem spares_onConnected : Within Spares (onConnected p now) := by
  rw [onConnected_eq]
  refine spares_bind (spares_get_bind fun s => ?_) fun _ => spares_bind ?_ fun _ =>
    spares_bind spares_announce fun _ => ?_
  · split
    · exact spares_enter rfl
    · exact spares_pure _
  · unfold introduce
    split
    · exact spares_sendGuarded _
    · exact spares_pure _
  · unfold declareReady
    split
    · exact spares_sendGuarded _
    · exact spares_pure _

theorem spares_onChannelState (state : ChannelState) :
    Within Spares (onChannelState p now state) := by
  cases state with
  | connected => exact spares_onConnected
  | _ =>
      intro s
      change Spares s (outcome (get >>= fun s =>
        if s.stage.isNegotiating = true then enter .reconnecting else pure ()) s).2
      rw [outcome_bind, outcome_get]
      dsimp only
      split
      · rename_i hstage
        exact ⟨rfl, fun _ => by rw [Stage.isMidway, hstage, Bool.true_or]⟩
      · exact Spares.refl s

end

/-! ## The engine stays coherent -/

section
variable {p : Party Probe} {now : Instant} {s s' : Session Probe} {host : Net.Address}

theorem renewal_eq (hengine : p.engine = Probe.engine host) : p.renewal = Probe.restart host := by
  rw [Party.renewal, hengine]
  rfl

/-- No call to the engine makes what it reports unfit for what it has in place. -/
theorem coherent_of_moves (hengine : p.engine = Probe.engine host) {media media' : Probe}
    (h : p.Moves media media') (hcoherent : media.Coherent) : media'.Coherent := by
  cases h with
  | setUp video =>
      rw [hengine]
      exact hcoherent.setUp video
  | createOffer =>
      rw [hengine]
      exact hcoherent.describes (Probe.describes_describe host .offer media)
  | createAnswer =>
      rw [hengine]
      exact hcoherent.describes (Probe.describes_describe host .answer media)
  | setRemote kind sdp =>
      rw [hengine]
      exact hcoherent.describes (Probe.describes_setRemote kind sdp media)
  | addIce c =>
      rw [hengine]
      exact hcoherent.addIce
  | renewal =>
      rw [renewal_eq hengine]
      exact hcoherent.describes (Probe.describes_restart host media)
  | close =>
      rw [hengine]
      exact Probe.coherent_close media

theorem kept_coherent (hengine : p.engine = Probe.engine host) :
    Kept p (fun _ => True) fun s s' => s.media.Coherent → s'.media.Coherent where
  trans h h' hs := h' (h hs)
  aside hmedia _ _ _ _ hs := by
    rw [hmedia]
    exact hs
  moves := coherent_of_moves hengine
  engine _ _ hs := hs
  tell _ _ hs := hs
  post _ everywhere s hs := by
    rw [show _ = s.media from (spares_post everywhere _ s).untouched]
    exact hs

/-- Nor does an event that happens to the session. -/
theorem coherent_handle (hengine : p.engine = Probe.engine host) (hs : s.media.Coherent)
    (now : Instant) (e : Event) : (s.handle p now e).media.Coherent := by
  refine (kept_coherent hengine).react e (fun _ _ => trivial) ?_ s hs
  intro m n key _ _ _ _ s hs
  rw [show _ = s.media from (spares_onIdentity n.sender key s).untouched]
  exact hs

theorem coherent_bind (hengine : p.engine = Probe.engine host) (hs : s.media.Coherent)
    (now : Instant) (channel : Nat) : (s.bind p now channel).media.Coherent :=
  (kept_coherent hengine).setUpForBinding _ hs

/-! ## In the middle of a negotiation -/

/-- In the middle of a negotiation a description is in place. -/
def Engaged (s : Session Probe) : Prop := s.stage.isMidway = true → s.media.Negotiates

/-- A reaction that, if it ends well, leaves the engine engaged where it was. -/
def StaysEngaged (r : Reaction Probe α) : Prop :=
  ∀ s a t, Engaged s → outcome r s = (.ok a, t) → Engaged t

/-- A reaction that, if it ends well, leaves the engine engaged wherever it began. -/
def EndsEngaged (r : Reaction Probe α) : Prop :=
  ∀ s a t, outcome r s = (.ok a, t) → Engaged t

theorem engaged_of_not_midway (h : s.stage.isMidway = false) : Engaged s :=
  fun hmidway => absurd (h.symm.trans hmidway) Bool.false_ne_true

theorem Spares.engaged (h : Spares s s') (hs : Engaged s) : Engaged s' := by
  intro hmidway
  rw [show s'.media = s.media from h.untouched]
  exact hs (h.stage hmidway)

theorem Within.staysEngaged {r : Reaction Probe α} (h : Within Spares r) : StaysEngaged r := by
  intro s a t hs ho
  have hspares := h s
  rw [ho] at hspares
  exact hspares.engaged hs

theorem EndsEngaged.stays {r : Reaction Probe α} (h : EndsEngaged r) : StaysEngaged r :=
  fun s a t _ ho => h s a t ho

/-- What is done before makes no difference. -/
theorem EndsEngaged.before {r : Reaction Probe α} {f : α → Reaction Probe β}
    (hf : ∀ a, EndsEngaged (f a)) : EndsEngaged (r >>= f) := by
  intro s b u ho
  obtain ⟨a, t, -, ho⟩ := outcome_bind_eq_ok ho
  exact hf a t b u ho

theorem endsEngaged_enter {stage : Stage} (h : stage.isMidway = false) :
    EndsEngaged (enter stage) := by
  rintro s a t ⟨⟩
  exact engaged_of_not_midway h

/-- A call to the engine that ends well. -/
theorem outcome_engage_eq_ok {call : EngineCall} {during : Activity}
    {run : Probe → Except MediaError α × Probe} {a : α}
    (h : outcome (engage call during run) s = (.ok a, s')) :
    run s.media = (.ok a, s'.media) ∧ s'.stage = s.stage := by
  rw [outcome_engage] at h
  rcases hrun : run s.media with ⟨_ | b, media⟩ <;> rw [hrun] at h <;> cases h
  exact ⟨rfl, rfl⟩

/-- After a call for a description, or with one, that ends well, a description is in place as long
as the engine is not touched. -/
theorem endsEngaged_engage {call : EngineCall} {during : Activity}
    {run : Probe → Except MediaError α × Probe} {f : α → Reaction Probe β}
    (hrun : ∀ media : Probe, media.Describes (run media)) (hf : ∀ a, Within Untouched (f a)) :
    EndsEngaged (engage call during run >>= f) := by
  intro s b u ho _
  obtain ⟨a, t, hcall, ho⟩ := outcome_bind_eq_ok ho
  have hdescribes := hrun s.media
  rw [(outcome_engage_eq_ok hcall).1] at hdescribes
  have huntouched := hf a t
  rw [ho] at huntouched
  rw [show u.media = t.media from huntouched]
  exact hdescribes

theorem untouched_send (signal : Signal) : Within Untouched (send p signal) :=
  (spares_post false signal).mono fun _ _ h => h.untouched

theorem untouched_settle : Within Untouched (settle p now) :=
  spares_settle.mono fun _ _ h => h.untouched

theorem untouched_enter (stage : Stage) : Within Untouched (enter stage : Reaction Probe Unit) :=
  fun _ => rfl

/-! ## Handlers -/

theorem staysEngaged_startOffer (hengine : p.engine = Probe.engine host) :
    StaysEngaged (startOffer p now) := by
  -- Passing the announcement over leaves all as it is, which is why the engine has to be engaged
  -- before.
  intro s a t hs ho
  rw [startOffer, outcome_bind, outcome_get] at ho
  dsimp only at ho
  split at ho
  · refine EndsEngaged.before (fun _ => .before fun _ => .before fun _ => .before fun _ => ?_)
      s a t ho
    refine endsEngaged_engage (fun media => ?_) fun sdp => ?_
    · rw [hengine]
      exact Probe.describes_describe host .offer media
    · refine (untouched_send _).bind Untouched.trans fun _ => ?_
      exact Within.bind Untouched.trans (within_modify fun _ => rfl) fun _ => untouched_enter _
  · cases ho
    exact hs

theorem endsEngaged_onOffer (hengine : p.engine = Probe.engine host) (sdp : String) :
    EndsEngaged (onOffer p now sdp) := by
  refine .before fun _ => .before fun _ => .before fun _ => .before fun _ => ?_
  refine endsEngaged_engage (fun media => ?_) fun answer => ?_
  · rw [hengine]
    exact Probe.describes_describe host .answer media
  · refine (untouched_send _).bind Untouched.trans fun _ => ?_
    exact (untouched_enter _).bind Untouched.trans fun _ => untouched_settle

theorem endsEngaged_onAnswer (hengine : p.engine = Probe.engine host) (sdp : String) :
    EndsEngaged (onAnswer p now sdp) := by
  refine .before fun _ => endsEngaged_engage (fun media => ?_) fun _ => untouched_settle
  rw [hengine]
  exact Probe.describes_setRemote .answer sdp media

theorem endsEngaged_handOver (hengine : p.engine = Probe.engine host) :
    EndsEngaged (handOver p now) := by
  obtain ⟨call, hrenew⟩ := renewOffer_eq p
  rw [handOver, hrenew]
  refine endsEngaged_engage (fun media => ?_) fun sdp => ?_
  · rw [renewal_eq hengine]
    exact Probe.describes_restart host media
  · refine Within.bind Untouched.trans ?_ fun _ => within_modify fun _ => rfl
    exact (spares_post true _).mono fun _ _ h => h.untouched

/-- A network path of the peer changes nothing of the descriptions. -/
theorem staysEngaged_addIce (hengine : p.engine = Probe.engine host) (c : IceCandidate) :
    StaysEngaged (engage (.addIce c) .addingCandidate (p.engine.addIce c)) := by
  intro s a t hs ho hmidway
  obtain ⟨hrun, hstage⟩ := outcome_engage_eq_ok ho
  rw [hengine] at hrun
  have hmedia : (Probe.addIce s.media).2 = t.media := congrArg Prod.snd hrun
  obtain ⟨hsession, hreport⟩ := Probe.negotiating?_addIce s.media
  rw [hmedia] at hsession hreport
  rw [hstage] at hmidway
  exact (hs hmidway).of_eq hsession hreport

theorem endsEngaged_onBye : EndsEngaged (onBye p) :=
  .before fun _ => .before fun _ => endsEngaged_enter rfl

theorem staysEngaged_onPlain (hrole : p.role = .host) (hengine : p.engine = Probe.engine host)
    (m : Message) : StaysEngaged (onPlain p now m) := by
  unfold onPlain
  split
  · unfold onJoin
    rw [hrole]
    exact staysEngaged_startOffer hengine
  · unfold onMode
    rw [hrole]
    exact (spares_pure ()).staysEngaged
  · exact (endsEngaged_onOffer hengine _).stays
  · exact (endsEngaged_onAnswer hengine _).stays
  · exact staysEngaged_addIce hengine _
  · exact endsEngaged_onBye.stays
  · exact (spares_does _).staysEngaged
  · exact (spares_onIdentity _ _).staysEngaged
  · exact (within_throw Spares.refl _).staysEngaged
  · exact (spares_pure ()).staysEngaged

theorem staysEngaged_dispatch (hrole : p.role = .host) (hengine : p.engine = Probe.engine host)
    (m : Message) : StaysEngaged (dispatch p now m) := by
  unfold dispatch
  split
  · split
    · exact staysEngaged_onPlain hrole hengine _
    · exact (spares_pure ()).staysEngaged
    · exact (spares_pure ()).staysEngaged
    · exact (within_throw Spares.refl _).staysEngaged
  · exact staysEngaged_onPlain hrole hengine m

/-! ## Events -/

/-- A failure leads out of the middle of a negotiation. -/
theorem engaged_guarded {r : Reaction Probe Unit}
    (h : ∀ t, outcome r s = (.ok (), t) → Engaged t) : Engaged (s.after (guarded p now r)) := by
  rcases ho : outcome r s with ⟨failure | _, t⟩
  · rw [after_guarded_of_error ho]
    exact engaged_of_not_midway rfl
  · rw [after_guarded_of_ok ho]
    exact h t ho

theorem engaged_watchdog (hrole : p.role = .host) (hengine : p.engine = Probe.engine host) :
    Engaged (s.handle p now .watchdog) := by
  rw [Session.handle, after_eq, react, onWatchdog, outcome_bind, outcome_modify]
  dsimp only
  rw [outcome_bind, outcome_get]
  dsimp only
  split
  · rename_i hup
    rw [outcome_settle, if_pos hup]
    exact engaged_of_not_midway rfl
  · rw [hrole]
    simp only [outcome_bind, outcome_enter, outcome_tell]
    exact engaged_guarded (r := handOver p now) fun t ho => endsEngaged_handOver hengine _ () t ho

theorem engaged_handle (hrole : p.role = .host) (hengine : p.engine = Probe.engine host)
    (hs : Engaged s) (now : Instant) (e : Event) : Engaged (s.handle p now e) := by
  cases e with
  | channel state => exact (spares_onChannelState state s).engaged hs
  | message m =>
      by_cases hown : m.sender = p.sender
      · rw [handle_own hown]
        exact hs
      · rw [handle_message hown]
        exact engaged_guarded fun t ho => staysEngaged_dispatch hrole hengine m s () t hs ho
  | engine state => exact (spares_onEngineState state s).engaged hs
  | candidate c => exact (spares_sendGuarded _ s).engaged hs
  | chat text => exact (spares_sendGuarded _ s).engaged hs
  | watchdog => exact engaged_watchdog hrole hengine

theorem engaged_bind (now : Instant) (channel : Nat) : Engaged (s.bind p now channel) := by
  have hends : EndsEngaged (do
      enter .initializingHardware
      setUp p .settingUp
      enter .startingDiscovery : Reaction Probe Unit) :=
    .before fun _ => .before fun _ => endsEngaged_enter rfl
  exact engaged_guarded fun t ho => hends _ () t ho

/-- What holds of every session that arises. -/
structure Orderly (s : Session Probe) : Prop where
  coherent : s.media.Coherent
  engaged : Engaged s

/-- **The media engine of a host knows where the negotiation is.** -/
theorem Arises.orderly (hrole : p.role = .host) (hengine : p.engine = Probe.engine host)
    (h : Arises p s) : Orderly s := by
  induction h with
  | start nextId => exact ⟨Probe.coherent_start nextId, engaged_of_not_midway rfl⟩
  | bind h now channel ih =>
      exact ⟨coherent_bind hengine ih.coherent now channel, engaged_bind now channel⟩
  | event h now e ih =>
      exact ⟨coherent_handle hengine ih.coherent now e,
        engaged_handle hrole hengine ih.engaged now e⟩
  | @hangUp s h ih =>
      refine ⟨?_, engaged_of_not_midway rfl⟩
      change (p.engine.close s.media).Coherent
      rw [hengine]
      exact Probe.coherent_close s.media
  | @aside s h d ih => exact ⟨ih.coherent, (spares_does d s).engaged ih.engaged⟩
  | bitrate h kbps ih =>
      refine ⟨ih.coherent.of_eq (Probe.negotiating?_allowBitrate _ _) rfl, fun hmidway => ?_⟩
      exact (ih.engaged hmidway).of_eq (Probe.negotiating?_allowBitrate _ _) rfl
  | nextId h nextId ih =>
      exact ⟨ih.coherent.of_eq rfl rfl, fun hmidway => (ih.engaged hmidway).of_eq rfl rfl⟩

/-! ## Offering -/

/-- What the engine is told first, if it has no session. -/
def preparation (s : Session Probe) : List Deed :=
  if s.media.session.isSome then [] else [.engine (.setUp s.mode.hasVideo)]

/-- A host offers: it tells the mode, has its engine make an offer and sends it. -/
structure Offers (p : Party Probe) (now : Instant) (s s' : Session Probe) : Prop where
  stage : s'.stage = .gatheringCandidates
  offerSentAt : s'.offerSentAt = some now
  connecting : engineState p s' = .connecting
  deeds : ∃ (mode offer : Message) (sdp : String),
    deedsSince s s' = preparation s ++
      [.send s.channel false mode, .engine .createOffer, .send s.channel false offer] ∧
    p.Utters (.selectMode s.mode) mode ∧ p.Utters (.offer sdp) offer ∧ Probe.IsDescription sdp

theorem outcome_engage_of_ok {call : EngineCall} {during : Activity}
    {run : Probe → Except MediaError α × Probe} {a : α} {media : Probe}
    (h : run s.media = (.ok a, media)) :
    outcome (engage call during run) s =
      (.ok a, { s with media, log := s.log ++ [(s.stage, .engine call)] }) := by
  rw [outcome_engage, h]

/-- Whatever the engine was, it has a session when an offer is to be made. -/
theorem outcome_setUpForOffer (hengine : p.engine = Probe.engine host) (s : Session Probe) :
    ∃ media ps, outcome (setUpForOffer p) s =
        (.ok (), { s with media, log := s.log ++ (preparation s).map (Prod.mk s.stage) }) ∧
      media.session = some ps := by
  have hhas : p.engine.hasSession s.media = s.media.session.isSome := by
    rw [hengine]
    rfl
  rw [setUpForOffer, outcome_bind, outcome_get, preparation]
  dsimp only
  rw [hhas]
  cases hsession : s.media.session with
  | some ps => exact ⟨s.media, ps, by simp, hsession⟩
  | none =>
      obtain ⟨ps, hsetUp, -⟩ := Probe.setUp_of_none hsession s.mode.hasVideo
      refine ⟨{ s.media with session := some ps, report := s.media.report.set .ready }, ps, ?_, rfl⟩
      simp only [Option.isSome_none, Bool.not_false, if_true, setUp, outcome_bind, outcome_get]
      exact outcome_engage_of_ok (by rw [hengine]; exact hsetUp)

/-- **A host that does not pass an announcement over offers.** -/
theorem offers_startOffer {limit : Nat} (hengine : p.engine = Probe.engine host)
    (hsuite : p.suite.DecryptsUpTo limit)
    (hroom : p.config.encryptSignaling = true →
      (Text.Utf8.encode p.sender).length + 24000 ≤ limit)
    (hheeds : ignoresJoin p now s = false) :
    ∃ t, outcome (startOffer p now) s = (.ok (), t) ∧ Offers p now s t := by
  obtain ⟨media, ps, hsetUp, hsession⟩ := outcome_setUpForOffer hengine s
  obtain ⟨sdp, media', ps', hoffer, hsdp, -, -, -, hreport, -⟩ :=
    Probe.createOffer_of_session host hsession
  let s₁ : Session Probe :=
    { s with media, log := s.log ++ (preparation s).map (Prod.mk s.stage) }
  have hopen : Sendable limit p (.selectMode s.mode) := sendable_of_open rfl
  obtain ⟨mode, count, hmode, hsendMode⟩ := outcome_send_of_sendable hsuite hopen rfl s₁
  let s₂ : Session Probe := { s₁ with
    sealedCount := count, stage := .exchangingOffer
    log := s₁.log ++ [(s.stage, .send s.channel false mode)] }
  let s₃ : Session Probe := { s₂ with
    media := media', log := s₂.log ++ [(.exchangingOffer, .engine .createOffer)] }
  have hcall : outcome (engage .createOffer .creatingOffer p.engine.createOffer) s₂ =
      (.ok sdp, s₃) := by
    have hcreate : p.engine.createOffer s₂.media = (.ok sdp, media') := by
      rw [hengine]
      exact hoffer
    exact outcome_engage_of_ok hcreate
  obtain ⟨offer, count', hutters, hsendOffer⟩ := outcome_send_of_sendable hsuite
    (sendable_of_short hroom (length_encode_offer hsdp)) rfl s₃
  let s₄ : Session Probe := { s₃ with
    sealedCount := count', offerSentAt := some now, stage := .gatheringCandidates
    log := s₃.log ++ [(.exchangingOffer, .send s.channel false offer)] }
  have hadded : Added s s₄ (preparation s ++
      [.send s.channel false mode, .engine .createOffer, .send s.channel false offer]) := by
    refine ⟨(preparation s).map (Prod.mk s.stage) ++ [(s.stage, .send s.channel false mode),
      (.exchangingOffer, .engine .createOffer),
      (.exchangingOffer, .send s.channel false offer)], ?_, ?_⟩
    · simp [s₄, s₃, s₂, s₁]
    · simp [Function.comp_def]
  refine ⟨s₄, ?_, rfl, rfl, ?_, mode, offer, sdp, hadded.deedsSince_eq, hmode, hutters, hsdp⟩
  · rw [startOffer, outcome_bind, outcome_get]
    simp only [hheeds, Bool.not_false, if_true]
    rw [outcome_bind, hsetUp]
    dsimp only
    rw [outcome_bind, outcome_get]
    dsimp only
    rw [outcome_bind, hsendMode]
    dsimp only
    rw [outcome_bind, outcome_enter]
    dsimp only
    rw [outcome_bind, hcall]
    dsimp only
    rw [outcome_bind, hsendOffer]
    rfl
  · rw [engineState_of_probe hengine]
    exact hreport

/-! ## Announcements -/

theorem handle_join (hrole : p.role = .host) {m n : Message} (hother : m.sender ≠ p.sender)
    (hread : p.read? m = some n) (hjoin : n.signal = .join) (now : Instant) (s : Session Probe) :
    s.handle p now (.message m) = s.after (guarded p now (startOffer p now)) := by
  obtain ⟨sender, signal⟩ := n
  cases hjoin
  rw [handle_message hother, dispatch_of_read? hread, onPlain_join now hrole sender]

/-- A host that waits heeds an announcement if its engine is free and no offer is recent. -/
theorem heeds_join (hengine : p.engine = Probe.engine host) (hcoherent : s.media.Coherent)
    (hstage : s.stage = .peerFound) (hdown : engineState p s ≠ .connected)
    (hconnecting : engineState p s ≠ .connecting)
    (hold : ∀ sent, s.offerSentAt = some sent → p.config.watchdogGrace ≤ now - sent) :
    ignoresJoin p now s = false := by
  have hfree : engineState p s ∈ [.idle, .ready, .closed] := by
    rw [engineState_of_probe hengine] at hdown hconnecting ⊢
    simpa using hcoherent.report_cases hdown hconnecting
  have hrecent : isRecent now p.config.watchdogGrace s.offerSentAt = false := by
    cases hsent : s.offerSentAt with
    | none => rfl
    | some sent => exact decide_eq_false (Nat.not_lt.mpr (hold sent hsent))
  simp only [ignoresJoin, hstage, hfree, hrecent]
  rfl

/-- **A host that waits for its peer offers unless a connection is coming.** Take any session of a
host with a probe engine that can arise. In the middle of a negotiation its engine is connected or
coming to that, and so it is still whatever becomes of the channel. Where the host waits for its
peer, without a connection and with no offer within the grace period, an announcement of another
device makes it offer, unless its engine is coming to a connection, which is so exactly if a
description is in place; then the announcement is passed over. -/
theorem waiting_host_offers {limit : Nat} (hrole : p.role = .host)
    (hengine : p.engine = Probe.engine host) (hsuite : p.suite.DecryptsUpTo limit)
    (hroom : p.config.encryptSignaling = true →
      (Text.Utf8.encode p.sender).length + 24000 ≤ limit)
    (hs : Arises p s) (now : Instant) :
    (s.stage.isMidway = true → ∀ state,
      engineState p (s.handle p now (.channel state)) = .connecting ∨
        engineState p (s.handle p now (.channel state)) = .connected) ∧
    (s.stage = .peerFound → engineState p s ≠ .connected →
      (∀ sent, s.offerSentAt = some sent → p.config.watchdogGrace ≤ now - sent) →
      ∀ m n, m.sender ≠ p.sender → p.read? m = some n → n.signal = .join →
        (engineState p s ≠ .connecting → Offers p now s (s.handle p now (.message m))) ∧
        (engineState p s = .connecting → s.handle p now (.message m) = s) ∧
        (engineState p s = .connecting ↔ s.media.negotiating? = some true)) := by
  obtain ⟨hcoherent, hengaged⟩ := hs.orderly hrole hengine
  refine ⟨?_, ?_⟩
  · intro hmidway state
    have hmedia : (s.handle p now (.channel state)).media = s.media :=
      (spares_onChannelState state s).untouched
    rw [engineState_of_probe hengine, hmedia]
    exact (hengaged hmidway).report
  · intro hstage hdown hold m n hother hread hjoin
    rw [handle_join hrole hother hread hjoin]
    refine ⟨fun hconnecting => ?_, fun hconnecting => ?_, ?_⟩
    · have hheeds := heeds_join hengine hcoherent hstage hdown hconnecting hold
      obtain ⟨t, ho, hoffers⟩ := offers_startOffer hengine hsuite hroom hheeds
      rw [after_guarded_of_ok ho]
      exact hoffers
    · rw [after_guarded_of_ok (outcome_startOffer_of_busy (.inl hconnecting))]
    · rw [engineState_of_probe hengine] at hdown ⊢
      exact hcoherent.connecting_iff hdown

theorem Arises.handleAll (hs : Arises p s) (events : List (Instant × Event)) :
    Arises p (s.handleAll p events) := by
  induction events generalizing s with
  | nil => exact hs
  | cons x events ih => exact ih (hs.event x.1 x.2)

end

/-! ## A negotiation that was interrupted -/

/-- The peer announces itself. -/
def announcement : Event := .message ⟨"joiner", .join⟩

/-- The channel connects, the peer announces itself, and the channel is lost and comes back. -/
def interruption : List (Instant × Event) :=
  [(1, .channel .connected), (2, announcement), (3, .channel .idle), (4, .channel .connected)]

/-- The host's session when that much of it has happened. -/
def interruptedHost (k : Nat) : Session Probe :=
  ((Session.start (.start 1)).bind plainHost 0 0).handleAll plainHost (interruption.take k)

theorem arises_interruptedHost (k : Nat) : Arises plainHost (interruptedHost k) :=
  ((Arises.start 1).bind 0 0).handleAll _

/-- The host waits for its peer again, and the grace period has passed since its offer, but an
announcement has no effect. -/
theorem interrupted_host_passes_over :
    Arises plainHost (interruptedHost 4) ∧ (interruptedHost 3).stage = .reconnecting ∧
      (interruptedHost 4).stage = .peerFound ∧
      engineState plainHost (interruptedHost 4) = .connecting ∧
      (interruptedHost 4).offerSentAt = some 2 ∧
      plainHost.config.watchdogGrace ≤ 5000000002 - 2 ∧
      ((interruptedHost 4).handle plainHost 5000000002 announcement).stage = .peerFound ∧
      deedsSince (interruptedHost 4)
        ((interruptedHost 4).handle plainHost 5000000002 announcement) = [] :=
  ⟨arises_interruptedHost 4, by decide +kernel⟩

/-- At its first contact the host offers, and when it waits again it does not. -/
theorem waiting_host_offers_first :
    Offers plainHost 2 (interruptedHost 1) ((interruptedHost 1).handle plainHost 2 announcement) ∧
      (interruptedHost 4).handle plainHost 5000000002 announcement = interruptedHost 4 := by
  have hroom : plainHost.config.encryptSignaling = true →
      (Text.Utf8.encode plainHost.sender).length + 24000 ≤ Crypto.Suite.maxPlaintext :=
    fun h => absurd h Bool.false_ne_true
  have hengine : plainHost.engine = Probe.engine (.v4 127 0 0 1) := rfl
  obtain ⟨-, hfirst⟩ := waiting_host_offers rfl hengine
    Crypto.Suite.decryptsUpTo_standard hroom (arises_interruptedHost 1) 2
  obtain ⟨-, hagain⟩ := waiting_host_offers rfl hengine
    Crypto.Suite.decryptsUpTo_standard hroom (arises_interruptedHost 4) 5000000002
  have hnone : (interruptedHost 1).offerSentAt = none := by decide +kernel
  have hsent : (interruptedHost 4).offerSentAt = some 2 := by decide +kernel
  refine ⟨?_, ?_⟩
  · refine (hfirst (by decide +kernel) (by decide +kernel) ?_ ⟨"joiner", .join⟩ ⟨"joiner", .join⟩
      (by decide) (Party.read?_of_plain rfl) rfl).1 (by decide +kernel)
    intro sent h
    rw [hnone] at h
    cases h
  · refine (hagain (by decide +kernel) (by decide +kernel) ?_ ⟨"joiner", .join⟩ ⟨"joiner", .join⟩
      (by decide) (Party.read?_of_plain rfl) rfl).2.1 (by decide +kernel)
    intro sent h
    rw [hsent] at h
    cases h
    decide +kernel

end PeerCall.Handshake
