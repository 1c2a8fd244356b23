import PeerCall.Proofs.Handshake.Speaking

/-!
# What every part of a reaction keeps

Most of a reaction concerns the media engine, the application and the session's own notes. Only what
is posted reaches the peer, and only a message that tells a key changes the peer's key. So a
relation between sessions is kept by the whole reaction to an event as soon as it is kept where
something is posted: every path to the peer leads through there. What a session may say on which
event is listed first.
-/
namespace PeerCall.Handshake

variable {σ α β : Type} {p : Party σ} {now : Instant}

/-! ## What may be said -/

/-- What a call to the media engine gives in one of the engine's states. -/
def Yields (run : σ → Except MediaError α × σ) (a : α) : Prop :=
  ∃ media media', run media = (.ok a, media')

/-- The call for a new offer on the session there is. -/
def Party.renewal (p : Party σ) : σ → Except MediaError String × σ :=
  p.engine.restartIce?.getD p.engine.createOffer

theorem renewOffer_eq (p : Party σ) :
    ∃ call, renewOffer p = engage call .restartingIce p.renewal := by
  unfold renewOffer Party.renewal
  cases p.engine.restartIce? with
  | none => exact ⟨.createOffer, rfl⟩
  | some restart => exact ⟨.restartIce, rfl⟩

/-- What a session may reply to a signal that it reads. -/
inductive MayReply (p : Party σ) : Signal → Signal → Prop
  | join (hrole : p.role = .joiner) : MayReply p .join .join
  | mode (hrole : p.role = .host) (mode : CallMode) : MayReply p .join (.selectMode mode)
  | offer (hrole : p.role = .host) {sdp : String} (h : Yields p.engine.createOffer sdp) :
      MayReply p .join (.offer sdp)
  | answer {offer sdp : String} (h : Yields p.engine.createAnswer sdp) :
      MayReply p (.offer offer) (.answer sdp)
  | identity (key : PublicKey) : MayReply p (.identity key) (.identity p.keypair.publicKey)

/-- What a session may say on an event. -/
inductive MaySay (p : Party σ) : Event → Signal → Prop
  | identity : MaySay p (.channel .connected) (.identity p.keypair.publicKey)
  | join : MaySay p (.channel .connected) .join
  | ready {text : String} (h : p.config.readyMessage = some text) :
      MaySay p (.channel .connected) (.chat text)
  | reply {m n : Message} {signal : Signal} (hother : m.sender ≠ p.sender)
      (hread : p.read? m = some n) (h : MayReply p n.signal signal) : MaySay p (.message m) signal
  | candidate (c : IceCandidate) : MaySay p (.candidate c) (.iceCandidate c)
  | chat (text : String) : MaySay p (.chat text) (.chat text)
  | handover (hrole : p.role = .host) {sdp : String} (h : Yields p.renewal sdp) :
      MaySay p .watchdog (.offer sdp)

/-! ## Relations that are kept -/

/-- What one call can make of the media engine's state. -/
inductive Party.Moves (p : Party σ) (media : σ) : σ → Prop
  | setUp (video : Bool) : Party.Moves p media (p.engine.setUp video media).2
  | createOffer : Party.Moves p media (p.engine.createOffer media).2
  | createAnswer : Party.Moves p media (p.engine.createAnswer media).2
  | setRemote (kind : SdpKind) (sdp : String) :
      Party.Moves p media (p.engine.setRemote kind sdp media).2
  | addIce (c : IceCandidate) : Party.Moves p media (p.engine.addIce c media).2
  | renewal : Party.Moves p media (p.renewal media).2
  | close : Party.Moves p media (p.engine.close media)

/-- A relation that holds between sessions before and after whatever leaves media engine, channel,
key, envelopes and log alone, a call to the engine, whatever is told to the engine or the
application, and the sending of certain signals. -/
structure Kept (p : Party σ) (may : Signal → Prop) (R : Session σ → Session σ → Prop) :
    Prop where
  trans : ∀ {s t u}, R s t → R t u → R s u
  aside : ∀ {s s' : Session σ}, s'.media = s.media → s'.channel = s.channel →
    s'.peerKey = s.peerKey → s'.sealedCount = s.sealedCount → s'.log = s.log → R s s'
  moves : ∀ {s : Session σ} {media : σ}, p.Moves s.media media → R s { s with media }
  engine : ∀ call, Within R (does (.engine call))
  tell : ∀ notice, Within R (tell notice)
  post : ∀ {signal}, may signal → ∀ everywhere, Within R (post p everywhere signal)

namespace Kept

section
variable {may : Signal → Prop} {R : Session σ → Session σ → Prop} (h : Kept p may R)
  {r : Reaction σ α} {f : α → Reaction σ β}
include h

theorem refl (s : Session σ) : R s s := h.aside rfl rfl rfl rfl rfl

theorem pure (a : α) : Within R (pure a : Reaction σ α) := within_pure h.refl a

theorem throw (e : Failure) : Within R (throw e : Reaction σ α) := within_throw h.refl e

theorem bind (hr : Within R r) (hf : ∀ a, Within R (f a)) : Within R (r >>= f) :=
  hr.bind h.trans hf

theorem get_bind {f : Session σ → Reaction σ β} (hf : ∀ s, Within R (f s)) :
    Within R (get >>= f) :=
  h.bind (within_get h.refl) hf

theorem enter (stage : Stage) : Within R (enter stage : Reaction σ Unit) :=
  within_modify fun _ => h.aside rfl rfl rfl rfl rfl

/-- What follows a call to the media engine follows one of its results. -/
theorem engage_bind {call : EngineCall} {during : Activity} {run : σ → Except MediaError α × σ}
    (hrun : ∀ media, p.Moves media (run media).2) (hf : ∀ a, Yields run a → Within R (f a)) :
    Within R (engage call during run >>= f) := by
  have hdoes : Within R (does (.engine call)) := h.engine call
  intro s
  have hmoves := hrun s.media
  rw [outcome_bind, outcome_engage]
  rcases hresult : run s.media with ⟨outcome, media⟩
  rw [hresult] at hmoves
  have hmoved : R s { s with media, log := s.log ++ [(s.stage, .engine call)] } :=
    h.trans (hdoes s) (h.moves hmoves)
  cases outcome with
  | error cause => exact hmoved
  | ok a => exact h.trans hmoved (hf a ⟨s.media, media, hresult⟩ _)

theorem engage (call : EngineCall) (during : Activity) {run : σ → Except MediaError α × σ}
    (hrun : ∀ media, p.Moves media (run media).2) :
    Within R (engage call during run : Reaction σ α) := by
  have hpure : Within R (Handshake.engage call during run >>= Pure.pure) :=
    h.engage_bind hrun fun a _ => h.pure a
  rwa [bind_pure] at hpure

theorem setUp (during : Activity) : Within R (setUp p during) :=
  h.get_bind fun _ => h.engage _ _ fun _ => .setUp _

theorem setUpForOffer : Within R (setUpForOffer p) := by
  refine h.get_bind fun s => ?_
  split
  · exact h.setUp _
  · exact h.pure _

theorem send {signal : Signal} (hmay : may signal) : Within R (send p signal) :=
  h.post hmay false

theorem fail (failure : Failure) : Within R (fail p now failure) :=
  h.bind (h.enter _) fun _ => h.bind (h.tell _) fun _ =>
    within_modify fun _ => h.aside rfl rfl rfl rfl rfl

theorem guarded {r : Reaction σ Unit} (hr : Within R r) : Within R (guarded p now r) :=
  hr.tryCatch h.trans fun failure => h.fail failure

theorem sendGuarded {signal : Signal} (hmay : may signal) :
    Within R (sendGuarded p now signal) :=
  h.guarded (h.send hmay)

theorem announce (hmay : may .join) : Within R (announce p now) :=
  h.bind (within_modify fun _ => h.aside rfl rfl rfl rfl rfl) fun _ => h.sendGuarded hmay

theorem onEngineState (state : EngineState) : Within R (onEngineState p now state) := by
  unfold Handshake.onEngineState
  split
  · exact h.bind (within_modify fun _ => h.aside rfl rfl rfl rfl rfl) fun _ => h.enter _
  · exact h.fail _
  · exact h.pure _

theorem settle : Within R (settle p now) := by
  refine h.get_bind fun s => ?_
  split
  · exact h.onEngineState _
  · exact h.pure _

/-- Setting the media up for a new binding. -/
theorem setUpForBinding : Within R (Handshake.guarded p now (do
    Handshake.enter .initializingHardware
    Handshake.setUp p .settingUp
    Handshake.enter .startingDiscovery)) :=
  h.guarded (h.bind (h.enter _) fun _ => h.bind (h.setUp _) fun _ => h.enter _)

/-! ## Events -/

theorem onWatchdog (hmay : p.role = .host → ∀ sdp, Yields p.renewal sdp → may (.offer sdp)) :
    Within R (onWatchdog p now) := by
  obtain ⟨call, hrenew⟩ := renewOffer_eq p
  refine h.bind (within_modify fun _ => h.aside rfl rfl rfl rfl rfl) fun _ => h.get_bind fun s => ?_
  split
  · exact h.settle
  · split
    · exact h.pure _
    · rename_i hrole
      refine h.bind (h.enter _) fun _ => h.bind (h.tell _) fun _ => h.guarded ?_
      rw [hrenew]
      refine h.engage_bind (fun _ => .renewal) fun sdp hsdp =>
        h.bind (h.post (hmay hrole sdp hsdp) true) fun _ => ?_
      exact within_modify fun _ => h.aside rfl rfl rfl rfl rfl

theorem startOffer (hmode : ∀ mode, may (.selectMode mode))
    (hoffer : ∀ sdp, Yields p.engine.createOffer sdp → may (.offer sdp)) :
    Within R (startOffer p now) := by
  refine h.get_bind fun s => ?_
  split
  · refine h.bind h.setUpForOffer fun _ => h.get_bind fun t => ?_
    refine h.bind (h.send (hmode t.mode)) fun _ => h.bind (h.enter _) fun _ => ?_
    refine h.engage_bind (fun _ => .createOffer) fun sdp hsdp =>
      h.bind (h.send (hoffer sdp hsdp)) fun _ => ?_
    exact h.bind (within_modify fun _ => h.aside rfl rfl rfl rfl rfl) fun _ => h.enter _
  · exact h.pure _

theorem onJoin (hmay : ∀ signal, MayReply p .join signal → may signal) :
    Within R (onJoin p now) := by
  unfold Handshake.onJoin
  split
  · rename_i hrole
    exact h.startOffer (fun mode => hmay _ (.mode hrole mode)) fun sdp hsdp =>
      hmay _ (.offer hrole hsdp)
  · rename_i hrole
    refine h.get_bind fun s => ?_
    split
    · exact h.announce (hmay _ (.join hrole))
    · exact h.pure _

theorem onMode (mode : CallMode) : Within R (onMode p mode) := by
  unfold Handshake.onMode
  split
  · exact h.pure _
  · exact h.bind (within_modify fun _ => h.aside rfl rfl rfl rfl rfl) fun _ =>
      h.bind (h.tell _) fun _ => h.setUp _

theorem onOffer {sdp : String} (hmay : ∀ signal, MayReply p (.offer sdp) signal → may signal) :
    Within R (onOffer p now sdp) := by
  refine h.bind (h.enter _) fun _ => h.bind h.setUpForOffer fun _ => ?_
  refine h.bind (h.engage _ _ fun _ => .setRemote _ _) fun _ => h.bind (h.enter _) fun _ => ?_
  refine h.engage_bind (fun _ => .createAnswer) fun answer hanswer =>
    h.bind (h.send (hmay _ (.answer hanswer))) fun _ => ?_
  exact h.bind (h.enter _) fun _ => h.settle

theorem onAnswer (sdp : String) : Within R (onAnswer p now sdp) :=
  h.bind (h.enter _) fun _ => h.bind (h.engage _ _ fun _ => .setRemote _ _) fun _ => h.settle

theorem onBye : Within R (onBye p) :=
  h.bind (h.bind (h.engine _) fun _ => within_modify fun _ => h.moves .close) fun _ =>
    h.bind (within_modify fun _ => h.aside rfl rfl rfl rfl rfl) fun _ => h.enter _

/-- A message in the clear, unless it tells a key; that part is left to the relation. -/
theorem onPlain (m : Message) (hmay : ∀ signal, MayReply p m.signal signal → may signal)
    (hidentity : ∀ key, m.signal = .identity key → Within R (onIdentity p now m.sender key)) :
    Within R (onPlain p now m) := by
  unfold Handshake.onPlain
  split
  · rename_i hm
    exact h.onJoin (by rwa [hm] at hmay)
  · exact h.onMode _
  · rename_i hm
    exact h.onOffer (by rwa [hm] at hmay)
  · exact h.onAnswer _
  · exact h.engage _ _ fun _ => .addIce _
  · exact h.onBye
  · exact h.tell _
  · rename_i key hm
    exact hidentity key hm
  · exact h.throw _
  · exact h.pure _

theorem onMessage (m : Message) (hread : ∀ n, m.sender ≠ p.sender → p.read? m = some n →
    Within R (Handshake.onPlain p now n)) : Within R (onMessage p now m) := by
  unfold Handshake.onMessage
  split
  · exact h.pure _
  · rename_i hother
    refine h.guarded ?_
    cases hm : p.read? m with
    | some n =>
        rw [dispatch_of_read? hm]
        exact hread n hother hm
    | none =>
        have henvelope : m.signal.isEnvelope = true := by
          by_contra hplain
          rw [Party.read?, if_neg hplain] at hm
          cases hm
        unfold dispatch
        rw [if_pos henvelope]
        split
        · rename_i n hopen
          rw [Party.read?, if_pos henvelope, hopen] at hm
          cases hm
        · exact h.pure _
        · exact h.pure _
        · exact h.throw _

theorem findPeer : Within R (findPeer : Reaction σ Unit) := by
  refine h.get_bind fun s => ?_
  split
  · exact h.enter _
  · exact h.pure _

theorem declareReady (hready : ∀ text, p.config.readyMessage = some text → may (.chat text)) :
    Within R (declareReady p now) := by
  unfold Handshake.declareReady
  split
  · rename_i text htext
    exact h.sendGuarded (hready text htext)
  · exact h.pure _

theorem onConnected (hidentity : may (.identity p.keypair.publicKey)) (hjoin : may .join)
    (hready : ∀ text, p.config.readyMessage = some text → may (.chat text)) :
    Within R (onConnected p now) := by
  rw [onConnected_eq]
  refine h.bind h.findPeer fun _ => h.bind ?_ fun _ =>
    h.bind (h.announce hjoin) fun _ => h.declareReady hready
  unfold introduce
  split
  · exact h.sendGuarded hidentity
  · exact h.pure _

/-- **A reaction keeps what sending keeps**, if it keeps it where a key is told. -/
theorem react (e : Event) (hmay : ∀ signal, MaySay p e signal → may signal)
    (hidentity : ∀ m n key, e = .message m → m.sender ≠ p.sender → p.read? m = some n →
      n.signal = .identity key → Within R (onIdentity p now n.sender key)) :
    Within R (react p now e) := by
  cases e with
  | channel state =>
      cases state with
      | connected =>
          exact h.onConnected (hmay _ .identity) (hmay _ .join) fun text htext =>
            hmay _ (.ready htext)
      | _ =>
          refine h.get_bind fun s => ?_
          split
          · exact h.enter _
          · exact h.pure _
  | message m =>
      refine h.onMessage m fun n hother hread => h.onPlain n ?_ ?_
      · exact fun signal hsignal => hmay signal (.reply hother hread hsignal)
      · exact fun key hkey => hidentity m n key rfl hother hread hkey
  | engine state => exact h.onEngineState state
  | candidate c => exact h.sendGuarded (hmay _ (.candidate c))
  | chat text => exact h.sendGuarded (hmay _ (.chat text))
  | watchdog => exact h.onWatchdog fun hrole sdp hsdp => hmay _ (.handover hrole hsdp)

end

end Kept

end PeerCall.Handshake
