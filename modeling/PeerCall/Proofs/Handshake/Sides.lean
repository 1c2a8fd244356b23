import PeerCall.Proofs.Handshake.Speaking
import PeerCall.Proofs.Media.Probe

/-!
# The two sides of a negotiation

What each side makes of an event that can happen while a host and a joiner with probe engines
negotiate, told by what it becomes and what it says. Most events are small talk to a side: they do
not touch its part in the negotiation. The others are an announcement that a host waits for, an
answer to its offer, and to a joiner a mode and an offer.
-/
namespace PeerCall.Handshake

/-! ## What can be sent -/

/-- A device with a probe engine, whose sender id and ready message leave room for sealing. -/
structure Equipped (limit : Nat) (host : Net.Address) (p : Party Probe) : Prop where
  engine : p.engine = Probe.engine host
  room : p.config.encryptSignaling = true → (Text.Utf8.encode p.sender).length + 24000 ≤ limit
  ready : ∀ text, p.config.readyMessage = some text → Sendable limit p (.chat text)

section
variable {limit : Nat} {host : Net.Address} {p : Party Probe} {sdp : String}

open Binary Binary.Format

theorem sendable_of_short {signal : Signal}
    (hroom : p.config.encryptSignaling = true →
      (Text.Utf8.encode p.sender).length + 24000 ≤ limit)
    (h : (Signal.encode signal).length ≤ 23900) : Sendable limit p signal := by
  intro hencrypts _
  have hspace := hroom hencrypts
  rw [Message.size_eq]
  dsimp only
  omega

theorem length_encode_offer (h : Probe.IsDescription sdp) :
    (Signal.encode (.offer sdp)).length ≤ 23900 := by
  have hlength := h.length_le
  simp only [Signal.encode, text, index, List.length_append, length_encode_run,
    length_encode_number]
  omega

theorem Equipped.sendable {signal : Signal} (he : Equipped limit host p)
    (h : (Signal.encode signal).length ≤ 23900) : Sendable limit p signal :=
  sendable_of_short he.room h

theorem Equipped.sendable_offer (he : Equipped limit host p) (h : Probe.IsDescription sdp) :
    Sendable limit p (.offer sdp) :=
  he.sendable (length_encode_offer h)

theorem Equipped.sendable_answer (he : Equipped limit host p) (h : Probe.IsDescription sdp) :
    Sendable limit p (.answer sdp) := by
  have hlength := h.length_le
  refine he.sendable ?_
  simp only [Signal.encode, text, index, List.length_append, length_encode_run,
    length_encode_number]
  omega

theorem Equipped.sendable_hostCandidate (he : Equipped limit host p) :
    Sendable limit p (.iceCandidate (Probe.hostCandidate host)) := by
  have hlength := Probe.length_hostCandidate host
  have hzero : (Text.Utf8.encode "0").length = 1 := by decide
  have hmid : (Probe.hostCandidate host).mid = some "0" := rfl
  have hmline : (Probe.hostCandidate host).mline = some 0 := rfl
  refine he.sendable ?_
  simp only [Signal.encode, IceCandidate.format, text, index, imap, pair, option, u16, hmid,
    hmline, hzero, List.length_append, length_encode_u8, length_encode_run, length_encode_number]
  omega

end

/-! ## Sessions in a negotiation -/

/-- What holds of a session all the time: it has a media session in its mode and no watchdog, and
the peer's key, if it has one, is the true one. -/
structure Steady (limit : Nat) (p q : Party Probe) (v : Session Probe) : Prop where
  watchdog : v.watchdog = none
  trusts : Trusts q v
  session : ∃ s, v.media.session = some s ∧ s.video = v.mode.hasVideo
  gathered : ∀ c ∈ v.media.gathered, Sendable limit p (.iceCandidate c)

/-- No description was exchanged yet. -/
structure Opening (v : Session Probe) : Prop where
  stage : v.stage.isPreNegotiation = true
  report : v.media.report.value = .ready
  offerSentAt : v.offerSentAt = none

/-- An offer is in place. -/
def Offered (v : Session Probe) : Prop := ∃ s, v.media.session = some s ∧ s.ours = some .offer

/-- An offer waits for its answer. -/
structure Offering (v : Session Probe) : Prop where
  stage : v.stage = .gatheringCandidates
  report : v.media.report.value = .connecting

/-- The call is established. -/
structure Linking (v : Session Probe) : Prop where
  stage : v.stage = .linkEstablished
  report : v.media.report.value = .connected

/-- What a session knows of its peer is the same, and so many more network paths are gathered. -/
structure Grown (v w : Session Probe) (paths : Nat) : Prop where
  peerKey : w.peerKey = v.peerKey
  lastJoin : w.lastJoin = v.lastJoin
  gathered : w.media.gathered.length = v.media.gathered.length + paths

/-- The part of a session in the negotiation is not touched. -/
structure Undisturbed (q : Party Probe) (v w : Session Probe) : Prop where
  stage : w.stage = v.stage ∨ (v.stage.isPreNegotiation = true ∧ w.stage.isPreNegotiation = true)
  mode : w.mode = v.mode
  offerSentAt : w.offerSentAt = v.offerSentAt
  watchdog : w.watchdog = v.watchdog
  peerKey : w.peerKey = v.peerKey ∨ w.peerKey = some q.keypair.publicKey
  report : w.media.report = v.media.report
  gathered : w.media.gathered = v.media.gathered
  session : ∀ s, v.media.session = some s →
    ∃ s', w.media.session = some s' ∧ s'.video = s.video ∧ s'.ours = s.ours

section
variable {limit : Nat} {p q : Party Probe} {v w : Session Probe}

theorem Undisturbed.refl (q : Party Probe) (v : Session Probe) : Undisturbed q v v :=
  ⟨Or.inl rfl, rfl, rfl, rfl, Or.inl rfl, rfl, rfl, fun s hs => ⟨s, hs, rfl, rfl⟩⟩

theorem Undisturbed.trans {x : Session Probe} (h : Undisturbed q v w) (h' : Undisturbed q w x) :
    Undisturbed q v x := by
  refine ⟨?_, h'.mode.trans h.mode, h'.offerSentAt.trans h.offerSentAt,
    h'.watchdog.trans h.watchdog, ?_, h'.report.trans h.report, h'.gathered.trans h.gathered, ?_⟩
  · rcases h'.stage with hstage' | hstage'
    · rw [hstage']
      exact h.stage
    · rcases h.stage with hstage | hstage
      · exact Or.inr ⟨by rw [← hstage]; exact hstage'.1, hstage'.2⟩
      · exact Or.inr ⟨hstage.1, hstage'.2⟩
  · rcases h'.peerKey with hkey' | hkey'
    · rw [hkey']
      exact h.peerKey
    · exact Or.inr hkey'
  · intro s hs
    obtain ⟨t, ht, hvideo, hours⟩ := h.session s hs
    obtain ⟨u, hu, hvideo', hours'⟩ := h'.session t ht
    exact ⟨u, hu, hvideo'.trans hvideo, hours'.trans hours⟩

theorem Steady.undisturbed (hs : Steady limit p q v) (h : Undisturbed q v w) :
    Steady limit p q w := by
  obtain ⟨s, hsession, hvideo⟩ := hs.session
  obtain ⟨s', hsession', hvideo', -⟩ := h.session s hsession
  refine ⟨h.watchdog.trans hs.watchdog, ?_, ⟨s', hsession', ?_⟩, ?_⟩
  · rcases h.peerKey with hkey | hkey
    · rw [Trusts, hkey]
      exact hs.trusts
    · exact Or.inr hkey
  · rw [hvideo', hvideo, h.mode]
  · rw [h.gathered]
    exact hs.gathered

theorem Opening.undisturbed (hv : Opening v) (h : Undisturbed q v w) : Opening w := by
  refine ⟨?_, ?_, h.offerSentAt.trans hv.offerSentAt⟩
  · rcases h.stage with hstage | hstage
    · rw [hstage]
      exact hv.stage
    · exact hstage.2
  · rw [h.report]
    exact hv.report

theorem Undisturbed.stage_eq (h : Undisturbed q v w) (hv : v.stage.isPreNegotiation = false) :
    w.stage = v.stage := by
  rcases h.stage with hstage | hstage
  · exact hstage
  · rw [hv] at hstage
    cases hstage.1

theorem Offered.undisturbed (hv : Offered v) (h : Undisturbed q v w) : Offered w := by
  obtain ⟨s, hsession, hours⟩ := hv
  obtain ⟨s', hsession', -, hours'⟩ := h.session s hsession
  exact ⟨s', hsession', hours'.trans hours⟩

theorem Offering.undisturbed (hv : Offering v) (h : Undisturbed q v w) : Offering w := by
  refine ⟨?_, ?_⟩
  · rw [h.stage_eq (by rw [hv.stage]; rfl)]
    exact hv.stage
  · rw [h.report]
    exact hv.report

theorem Linking.undisturbed (hv : Linking v) (h : Undisturbed q v w) : Linking w := by
  refine ⟨?_, ?_⟩
  · rw [h.stage_eq (by rw [hv.stage]; rfl)]
    exact hv.stage
  · rw [h.report]
    exact hv.report

end

/-! ## Small talk -/

/-- The signals that leave a negotiation alone. -/
def SmallTalk (p : Party Probe) : Signal → Prop
  | .join | .iceCandidate _ | .chat _ => True
  | .identity key => key = p.keypair.publicKey
  | _ => False

/-- A reaction that leaves the negotiation alone, whatever small talk it says. -/
def Chats (p q : Party Probe) (r : Reaction Probe Unit) (v : Session Probe) : Prop :=
  ∃ w words, Runs p q r v () w words ∧ Undisturbed q v w ∧ ∀ signal ∈ words, SmallTalk p signal

section
variable {limit : Nat} {host : Net.Address} {p q : Party Probe} {v w : Session Probe}
  {now : Instant} {signal : Signal}

theorem chats_pure (v : Session Probe) : Chats p q (pure ()) v :=
  ⟨v, [], runs_pure (), Undisturbed.refl q v, fun _ h => absurd h List.not_mem_nil⟩

theorem Chats.guarded {r : Reaction Probe Unit} (h : Chats p q r v) :
    Chats p q (guarded p now r) v := by
  obtain ⟨w, words, hruns, hw, hwords⟩ := h
  exact ⟨w, words, hruns.guarded, hw, hwords⟩

theorem Chats.bind {r : Reaction Probe Unit} {f : Unit → Reaction Probe Unit}
    (h : Chats p q r v) (hf : ∀ w, Undisturbed q v w → Chats p q (f ()) w) :
    Chats p q (r >>= f) v := by
  obtain ⟨w, words, hruns, hw, hwords⟩ := h
  obtain ⟨x, words', hruns', hx, hwords'⟩ := hf w hw
  refine ⟨x, words ++ words', hruns.bind hruns', hw.trans hx, ?_⟩
  intro signal hsignal
  rcases List.mem_append.mp hsignal with hsignal | hsignal
  · exact hwords signal hsignal
  · exact hwords' signal hsignal

/-- A look at the session, but not at its log. -/
theorem chats_get {f : Session Probe → Reaction Probe Unit} (hf : ∀ s, f s = f s.bare)
    (h : Chats p q (f v) v) : Chats p q (get >>= f) v := by
  obtain ⟨w, words, hruns, hw, hwords⟩ := h
  refine ⟨w, words, runs_get ?_, hw, hwords⟩
  rintro s rfl
  rw [hf s]
  exact hruns

/-- A silent step that leaves the negotiation alone. -/
theorem chats_silent {r : Reaction Probe Unit} (hr : Runs p q r v () w [])
    (hw : Undisturbed q v w) : Chats p q r v :=
  ⟨w, [], hr, hw, fun _ h => absurd h List.not_mem_nil⟩

theorem chats_sendGuarded (hu : Understood limit p q) (hs : Steady limit p q v)
    (hsize : Sendable limit p signal) (htalk : SmallTalk p signal) :
    Chats p q (sendGuarded p now signal) v := by
  have hplain : signal.isEnvelope = false := by
    cases signal with
    | encrypted key payload => exact absurd htalk id
    | _ => rfl
  refine ⟨v, [signal], runs_sendGuarded hu hs.trusts hsize hplain, Undisturbed.refl q v, ?_⟩
  intro said hsaid
  rw [List.mem_singleton.mp hsaid]
  exact htalk

theorem chats_sendIdentity (hu : Understood limit p q) (hs : Steady limit p q v) :
    Chats p q (sendIdentity p now) v := chats_sendGuarded hu hs (sendable_of_open rfl) rfl

theorem chats_announce (hu : Understood limit p q) (hs : Steady limit p q v) :
    Chats p q (announce p now) v := by
  have hw : Undisturbed q v { v with lastJoin := some now } :=
    ⟨Or.inl rfl, rfl, rfl, rfl, Or.inl rfl, rfl, rfl, fun s hs => ⟨s, hs, rfl, rfl⟩⟩
  have hnote : Runs p q (modify fun s => { s with lastJoin := some now }) v ()
      { v with lastJoin := some now } [] := runs_modify (fun _ => rfl) fun _ => rfl
  refine (chats_silent hnote hw).bind fun w hw => ?_
  exact chats_sendGuarded hu (hs.undisturbed hw) (sendable_of_open rfl) trivial

theorem chats_enter_peerFound (hv : v.stage.isPreNegotiation = true) :
    Chats p q (enter .peerFound) v :=
  chats_silent (runs_enter .peerFound)
    ⟨Or.inr ⟨hv, rfl⟩, rfl, rfl, rfl, Or.inl rfl, rfl, rfl, fun s hs => ⟨s, hs, rfl, rfl⟩⟩

theorem chats_onConnected (he : Equipped limit host p) (hu : Understood limit p q)
    (hs : Steady limit p q v) (hstage : v.stage ≠ .reconnecting) :
    Chats p q (onConnected p now) v := by
  have hfind : Chats p q findPeer v := by
    refine chats_get (fun _ => rfl) ?_
    split
    · rename_i h
      refine chats_enter_peerFound ?_
      rcases Bool.or_eq_true_iff.mp h with h | h
      · exact h
      · exact absurd (of_decide_eq_true h) hstage
    · exact chats_pure v
  rw [onConnected_eq]
  refine hfind.bind fun w hw => Chats.bind ?_ fun x hx => ?_
  · unfold introduce
    split
    · exact chats_sendIdentity hu (hs.undisturbed hw)
    · exact chats_pure w
  · refine (chats_announce hu (hs.undisturbed (hw.trans hx))).bind fun y hy => ?_
    unfold declareReady
    split
    · rename_i text htext
      exact chats_sendGuarded hu (hs.undisturbed ((hw.trans hx).trans hy)) (he.ready text htext)
        trivial
    · exact chats_pure y

theorem chats_onIdentity (hu : Understood limit p q) (hs : Steady limit p q v)
    (sender : String) : Chats p q (onIdentity p now sender q.keypair.publicKey) v := by
  refine chats_get (fun _ => rfl) ?_
  split
  · have hlearn : Runs p q (modify fun s => { s with peerKey := some q.keypair.publicKey }) v ()
        { v with peerKey := some q.keypair.publicKey } [] := runs_modify (fun _ => rfl) fun _ => rfl
    have hw : Undisturbed q v { v with peerKey := some q.keypair.publicKey } :=
      ⟨Or.inl rfl, rfl, rfl, rfl, Or.inr rfl, rfl, rfl, fun s hs => ⟨s, hs, rfl, rfl⟩⟩
    refine (chats_silent hlearn hw).bind fun w hw => ?_
    refine (chats_silent (runs_tell rfl) (Undisturbed.refl q w)).bind fun x hx => ?_
    split
    · exact chats_sendIdentity hu ((hs.undisturbed hw).undisturbed hx)
    · exact chats_pure x
  · exact chats_pure v

/-- A network path of the peer is counted. -/
theorem chats_addIce (he : Equipped limit host p) (hs : Steady limit p q v) (c : IceCandidate) :
    Chats p q (engage (.addIce c) .addingCandidate (p.engine.addIce c)) v := by
  obtain ⟨s, hsession, -⟩ := hs.session
  have hadd : p.engine.addIce c v.media = (.ok (), { v.media with
      session := some { s with remoteCandidates := s.remoteCandidates + 1 } }) := by
    rw [he.engine]
    exact Probe.addIce_of_session hsession
  refine chats_silent (runs_engage hadd) ⟨Or.inl rfl, rfl, rfl, rfl, Or.inl rfl, rfl, rfl, ?_⟩
  intro s' hs'
  rw [hsession] at hs'
  cases hs'
  exact ⟨_, rfl, rfl, rfl⟩

/-- A joiner announces itself again, or not. -/
theorem chats_onJoin (hu : Understood limit p q) (hs : Steady limit p q v)
    (hrole : p.role = .joiner) : Chats p q (onJoin p now) v := by
  unfold onJoin
  rw [hrole]
  dsimp only
  refine chats_get (fun _ => rfl) ?_
  split
  · exact chats_announce hu hs
  · exact chats_pure v

/-- **What is small talk of the one is small talk to the other**, but for an announcement to a
host. -/
theorem chats_onPlain (he : Equipped limit host p) (hu : Understood limit p q)
    (hs : Steady limit p q v) (htalk : SmallTalk q signal)
    (hjoin : signal = .join → p.role = .joiner) :
    Chats p q (onPlain p now ⟨q.sender, signal⟩) v := by
  cases signal with
  | join => exact chats_onJoin hu hs (hjoin rfl)
  | iceCandidate c => exact chats_addIce he hs c
  | chat text => exact chats_silent (runs_tell rfl) (Undisturbed.refl q v)
  | identity key =>
      have hkey : key = q.keypair.publicKey := htalk
      subst hkey
      exact chats_onIdentity hu hs q.sender
  | offer _ => exact absurd htalk id
  | answer _ => exact absurd htalk id
  | bye => exact absurd htalk id
  | encrypted _ _ => exact absurd htalk id
  | selectMode _ => exact absurd htalk id
  | unknown => exact absurd htalk id

end

/-! ## News of the media engine -/

section
variable {limit : Nat} {host : Net.Address} {p q : Party Probe} {v w : Session Probe}
  {now : Instant} {sdp : String}

theorem engineState_of_probe (hengine : p.engine = Probe.engine host) (s : Session Probe) :
    engineState p s = s.media.report.value := by
  rw [engineState, hengine]
  rfl

theorem engineState_eq (he : Equipped limit host p) (s : Session Probe) :
    engineState p s = s.media.report.value :=
  engineState_of_probe he.engine s

/-- News that the session has acted on already, or that it has nothing to act on. -/
theorem runs_onEngineState {state : EngineState} (hs : Steady limit p q v)
    (hfailed : state ≠ .failed) (hconnected : state = .connected → v.stage = .linkEstablished) :
    Runs p q (onEngineState p now state) v () v [] := by
  cases state with
  | connected =>
      rintro s rfl
      have hstage : s.stage = .linkEstablished := hconnected rfl
      have hwatchdog : s.watchdog = none := hs.watchdog
      refine ⟨{ s with watchdog := none, stage := .linkEstablished }, rfl, ?_, utters_nil rfl⟩
      simp only [Session.bare, hstage, hwatchdog]
  | failed => exact absurd rfl hfailed
  | idle => exact runs_pure ()
  | ready => exact runs_pure ()
  | connecting => exact runs_pure ()
  | closed => exact runs_pure ()

/-- Where the media are connected, a session settles. -/
theorem runs_settle (he : Equipped limit host p) (h : v.media.report.value = .connected) :
    Runs p q (settle p now) v () { v with watchdog := none, stage := .linkEstablished } [] := by
  rintro s rfl
  have hstate : engineState p s = .connected := by
    rw [engineState_eq he]
    exact h
  refine ⟨{ s with watchdog := none, stage := .linkEstablished }, ?_, rfl, utters_nil rfl⟩
  rw [outcome_settle, if_pos hstate]

/-- With a session in place none is set up for an offer. -/
theorem runs_setUpForOffer (he : Equipped limit host p) (hs : Steady limit p q v) :
    Runs p q (setUpForOffer p) v () v [] := by
  obtain ⟨ps, hsession, -⟩ := hs.session
  refine runs_get ?_
  rintro s rfl
  have hhas : ¬ (!p.engine.hasSession s.media) = true := by
    have hsession' : s.media.session = some ps := hsession
    rw [he.engine]
    simp only [Probe.engine, hsession', Option.isSome_some, Bool.not_true, Bool.false_eq_true,
      not_false_eq_true]
  rw [if_neg hhas]
  exact runs_pure ()

theorem gathered_append (he : Equipped limit host p) (hs : Steady limit p q v) :
    ∀ c ∈ v.media.gathered ++ [Probe.hostCandidate host], Sendable limit p (.iceCandidate c) := by
  intro c hc
  rcases List.mem_append.mp hc with hc | hc
  · exact hs.gathered c hc
  · rw [List.mem_singleton.mp hc]
    exact he.sendable_hostCandidate

/-! ## The host -/

theorem ignoresJoin_of_opening (he : Equipped limit host p) {s : Session Probe}
    (hs : s.bare = v) (hv : Opening v) : ignoresJoin p now s = false := by
  subst hs
  have hreport : engineState p s = .ready := by
    rw [engineState_eq he]
    exact hv.report
  have hoffer : s.offerSentAt = none := hv.offerSentAt
  have hstage : ¬ s.stage = .linkEstablished := by
    intro h
    have hpre : s.stage.isPreNegotiation = true := hv.stage
    rw [h] at hpre
    cases hpre
  simp [ignoresJoin, hreport, hoffer, hstage, isRecent]

/-- **A host that waits for a peer offers**, once it has told the mode. -/
theorem runs_startOffer (now : Instant) (he : Equipped limit host p) (hu : Understood limit p q)
    (hs : Steady limit p q v) (hv : Opening v) :
    ∃ w sdp, Runs p q (startOffer p now) v () w [.selectMode v.mode, .offer sdp] ∧
      Probe.IsDescription sdp ∧ Steady limit p q w ∧ w.mode = v.mode ∧ Offered w ∧ Offering w ∧
      Grown v w 1 := by
  obtain ⟨s, hsession, hvideo⟩ := hs.session
  obtain ⟨sdp, media, s', hoffer, hsdp, hsession', hvideo', hours, hreport, hgathered⟩ :=
    Probe.createOffer_of_session host hsession
  have hcreate : p.engine.createOffer v.media = (.ok sdp, media) := by
    rw [he.engine]
    exact hoffer
  let v₁ : Session Probe := { v with stage := .exchangingOffer }
  let v₂ : Session Probe := { v₁ with media }
  let v₃ : Session Probe := { v₂ with offerSentAt := some now }
  let w : Session Probe := { v₃ with stage := .gatheringCandidates }
  have hw : Steady limit p q w := by
    refine ⟨hs.watchdog, hs.trusts, ⟨s', hsession', hvideo'.trans hvideo⟩, ?_⟩
    rw [hgathered]
    exact gathered_append he hs
  have hgrown : Grown v w 1 := ⟨rfl, rfl, by rw [hgathered, List.length_append]; rfl⟩
  refine ⟨w, sdp, ?_, hsdp, hw, rfl, ⟨s', hsession', hours⟩, ⟨rfl, hreport⟩, hgrown⟩
  have hmode : Runs p q (send p (.selectMode v.mode)) v () v [.selectMode v.mode] :=
    runs_send hu hs.trusts (sendable_of_open rfl) rfl
  have hcall : Runs p q (engage .createOffer .creatingOffer p.engine.createOffer) v₁ sdp v₂ [] :=
    runs_engage hcreate
  have hsend : Runs p q (send p (.offer sdp)) v₂ () v₂ [.offer sdp] :=
    runs_send hu hs.trusts (he.sendable_offer hsdp) rfl
  have hnote : Runs p q (modify fun s => { s with offerSentAt := some now }) v₂ () v₃ [] :=
    runs_modify (fun _ => rfl) fun _ => rfl
  refine runs_get fun t ht => ?_
  rw [if_pos (by rw [ignoresJoin_of_opening he ht hv]; rfl)]
  refine (runs_setUpForOffer he hs).silent (runs_get fun t ht => ?_)
  have hmode' : t.bare.mode = v.mode := by rw [ht]
  rw [show t.mode = v.mode from hmode']
  refine hmode.bind ((runs_enter .exchangingOffer).silent ?_)
  exact hcall.silent (hsend.bind (hnote.silent (runs_enter .gatheringCandidates)))

/-- What a host does with an announcement is to offer. -/
theorem onPlain_join (now : Instant) (hrole : p.role = .host) (sender : String) :
    onPlain p now ⟨sender, .join⟩ = startOffer p now := by
  change onJoin p now = _
  unfold onJoin
  rw [hrole]

/-- A host whose engine is busy ignores announcements. -/
theorem runs_startOffer_busy (he : Equipped limit host p)
    (hv : v.media.report.value = .connecting ∨ v.media.report.value = .connected) :
    Runs p q (startOffer p now) v () v [] := by
  rintro t rfl
  have hbusy : engineState p t = .connecting ∨ engineState p t = .connected := by
    rw [engineState_eq he]
    exact hv
  exact ⟨t, outcome_startOffer_of_busy hbusy, rfl, utters_nil rfl⟩

/-- **An answer connects a host that has offered**, also if it comes again. -/
theorem runs_onAnswer (q : Party Probe) (now : Instant) (he : Equipped limit host p)
    (hs : Steady limit p q v) (hv : Offered v) (hsdp : Probe.IsDescription sdp) :
    ∃ w, Runs p q (onAnswer p now sdp) v () w [] ∧ Steady limit p q w ∧ w.mode = v.mode ∧
      Offered w ∧ Linking w ∧ Grown v w 0 := by
  obtain ⟨s, hsession, hours⟩ := hv
  obtain ⟨s', hsession', hvideo⟩ := hs.session
  rw [hsession] at hsession'
  cases hsession'
  let media : Probe := { v.media with
    session := some { s with theirs := some .answer }
    report := v.media.report.set .connected }
  have hremote : p.engine.setRemote .answer sdp v.media = (.ok (), media) := by
    rw [he.engine]
    exact Probe.setRemote_answer hsession hours hsdp
  let v₁ : Session Probe := { v with stage := .waitingForVideo }
  let v₂ : Session Probe := { v₁ with media }
  let w : Session Probe := { v₂ with watchdog := none, stage := .linkEstablished }
  have hreport : media.report.value = .connected := Watched.value_set _ _
  have hw : Steady limit p q w := ⟨rfl, hs.trusts, ⟨_, rfl, hvideo⟩, hs.gathered⟩
  refine ⟨w, ?_, hw, rfl, ⟨_, rfl, hours⟩, ⟨rfl, hreport⟩, ⟨rfl, rfl, rfl⟩⟩
  have hcall : Runs p q (engage (.setRemote .answer sdp) .applyingAnswer
      (p.engine.setRemote .answer sdp)) v₁ () v₂ [] := runs_engage hremote
  have hsettle : Runs p q (settle p now) v₂ () w [] := runs_settle he hreport
  exact (runs_enter .waitingForVideo).silent (hcall.silent hsettle)

/-! ## The joiner -/

/-- **A joiner takes the mode of the host**, and stays where it is. -/
theorem runs_onMode (q : Party Probe) (he : Equipped limit host p) (hs : Steady limit p q v)
    (hrole : p.role = .joiner) (mode : CallMode) :
    ∃ w, Runs p q (onMode p mode) v () w [] ∧ Steady limit p q w ∧ w.mode = mode ∧
      w.stage = v.stage ∧ w.media.report = v.media.report ∧ w.offerSentAt = v.offerSentAt ∧
      Grown v w 0 := by
  obtain ⟨s, hsession, -⟩ := hs.session
  let media : Probe := { v.media with session := some { s with video := mode.hasVideo } }
  have hsetUp : p.engine.setUp mode.hasVideo v.media = (.ok (), media) := by
    rw [he.engine]
    exact Probe.setUp_of_session hsession mode.hasVideo
  let v₁ : Session Probe := { v with mode }
  let w : Session Probe := { v₁ with media }
  have hw : Steady limit p q w := ⟨hs.watchdog, hs.trusts, ⟨_, rfl, rfl⟩, hs.gathered⟩
  refine ⟨w, ?_, hw, rfl, rfl, rfl, rfl, ⟨rfl, rfl, rfl⟩⟩
  have hnote : Runs p q (modify fun s => { s with mode }) v () v₁ [] :=
    runs_modify (fun _ => rfl) fun _ => rfl
  have hcall : Runs p q (engage (.setUp mode.hasVideo) .settingUpForMode
      (p.engine.setUp mode.hasVideo)) v₁ () w [] := runs_engage hsetUp
  unfold onMode
  rw [hrole]
  refine hnote.silent ((runs_tell rfl).silent (runs_get fun t ht => ?_))
  have hmode : t.bare.mode = mode := by rw [ht]
  rw [show t.mode = mode from hmode]
  exact hcall

/-- **A joiner answers an offer and is connected**, also if the offer comes again. -/
theorem runs_onOffer (now : Instant) (he : Equipped limit host p) (hu : Understood limit p q)
    (hs : Steady limit p q v) (hsdp : Probe.IsDescription sdp) :
    ∃ w answer, Runs p q (onOffer p now sdp) v () w [.answer answer] ∧
      Probe.IsDescription answer ∧ Steady limit p q w ∧ w.mode = v.mode ∧ Linking w ∧
      Grown v w 1 := by
  obtain ⟨s, hsession, hvideo⟩ := hs.session
  let taken : Probe := { v.media with
    session := some { s with theirs := some .offer }
    report := v.media.report.set .connecting }
  have hremote : p.engine.setRemote .offer sdp v.media = (.ok (), taken) := by
    rw [he.engine]
    exact Probe.setRemote_offer hsession hsdp
  obtain ⟨answer, media, s', hanswer, hsdp', hsession', hvideo', hreport, hgathered⟩ :=
    Probe.createAnswer_of_session host (p := taken) rfl rfl
  have hcreate : p.engine.createAnswer taken = (.ok answer, media) := by
    rw [he.engine]
    exact hanswer
  let v₁ : Session Probe := { v with stage := .exchangingOffer }
  let v₂ : Session Probe := { v₁ with media := taken }
  let v₃ : Session Probe := { v₂ with stage := .exchangingAnswer }
  let v₄ : Session Probe := { v₃ with media }
  let v₅ : Session Probe := { v₄ with stage := .gatheringCandidates }
  let w : Session Probe := { v₅ with watchdog := none, stage := .linkEstablished }
  have hw : Steady limit p q w := by
    refine ⟨rfl, hs.trusts, ⟨s', hsession', hvideo'.trans hvideo⟩, ?_⟩
    rw [hgathered]
    exact gathered_append he hs
  have hgrown : Grown v w 1 := ⟨rfl, rfl, by rw [hgathered, List.length_append]; rfl⟩
  refine ⟨w, answer, ?_, hsdp', hw, rfl, ⟨rfl, hreport⟩, hgrown⟩
  have hs₁ : Steady limit p q v₁ := ⟨hs.watchdog, hs.trusts, ⟨s, hsession, hvideo⟩, hs.gathered⟩
  have htake : Runs p q (engage (.setRemote .offer sdp) .applyingOffer
      (p.engine.setRemote .offer sdp)) v₁ () v₂ [] := runs_engage hremote
  have hcall : Runs p q (engage .createAnswer .creatingAnswer p.engine.createAnswer)
      v₃ answer v₄ [] := runs_engage hcreate
  have hsend : Runs p q (send p (.answer answer)) v₄ () v₄ [.answer answer] :=
    runs_send hu hs.trusts (he.sendable_answer hsdp') rfl
  have hsettle : Runs p q (settle p now) v₅ () w [] := runs_settle he hreport
  refine (runs_enter .exchangingOffer).silent ((runs_setUpForOffer he hs₁).silent ?_)
  refine htake.silent ((runs_enter .exchangingAnswer).silent (hcall.silent ?_))
  exact hsend.bind ((runs_enter .gatheringCandidates).silent hsettle)

end

/-! ## Events of a side's own -/

/-- What can happen to a session besides messages: its channel connects, its media engine reports
its state and network paths, the application says something that can be sent, and the watchdog
comes when it is due. -/
def Local (limit : Nat) (p : Party Probe) (now : Instant) (s : Session Probe) : Event → Prop
  | .channel state => state = .connected
  | .engine state => engineState p s = state
  | .candidate c => c ∈ p.engine.gathered s.media
  | .chat text => Sendable limit p (.chat text)
  | .watchdog => ∃ deadline, s.watchdog = some deadline ∧ deadline ≤ now
  | .message _ => False

/-- A session that has acted on the state of its engine. -/
def Settled (v : Session Probe) : Prop := Opening v ∨ Offering v ∨ Linking v

section
variable {limit : Nat} {host : Net.Address} {p q : Party Probe} {v : Session Probe}
  {s : Session Probe} {now : Instant} {e : Event}

theorem Settled.stage_ne (h : Settled v) : v.stage ≠ .reconnecting := by
  intro hstage
  rcases h with h | h | h
  · have hpre := h.stage
    rw [hstage] at hpre
    cases hpre
  · have hgathering := h.stage
    rw [hstage] at hgathering
    cases hgathering
  · have hlinked := h.stage
    rw [hstage] at hlinked
    cases hlinked

theorem Settled.report_ne (h : Settled v) : v.media.report.value ≠ .failed := by
  rcases h with h | h | h
  · rw [h.report]
    exact EngineState.noConfusion
  · rw [h.report]
    exact EngineState.noConfusion
  · rw [h.report]
    exact EngineState.noConfusion

theorem Settled.linked (h : Settled v) (hreport : v.media.report.value = .connected) :
    v.stage = .linkEstablished := by
  rcases h with h | h | h
  · rw [h.report] at hreport
    cases hreport
  · rw [h.report] at hreport
    cases hreport
  · exact h.stage

/-- **What happens to a side besides messages** leaves the negotiation alone. -/
theorem chats_local (he : Equipped limit host p) (hu : Understood limit p q)
    (hs : Steady limit p q s.bare) (hv : Settled s.bare) (hlocal : Local limit p now s e) :
    Chats p q (react p now e) s.bare := by
  cases e with
  | message m => exact absurd hlocal id
  | channel state =>
      have hstate : state = .connected := hlocal
      subst hstate
      exact chats_onConnected he hu hs hv.stage_ne
  | engine state =>
      have hstate : s.bare.media.report.value = state := by
        rw [← engineState_eq he]
        exact hlocal
      subst hstate
      refine chats_silent (runs_onEngineState hs hv.report_ne hv.linked) (Undisturbed.refl q _)
  | candidate c =>
      have hgathered : c ∈ s.bare.media.gathered := by
        have hc : c ∈ p.engine.gathered s.media := hlocal
        rw [he.engine] at hc
        exact hc
      exact chats_sendGuarded hu hs (hs.gathered c hgathered) trivial
  | chat text => exact chats_sendGuarded hu hs hlocal trivial
  | watchdog =>
      obtain ⟨deadline, hdeadline, -⟩ := hlocal
      have hnone : s.watchdog = none := hs.watchdog
      rw [hnone] at hdeadline
      cases hdeadline

/-- **A session that is bound is ready for a negotiation**, and has neither said anything nor found
a network path. -/
theorem bound_opening (he : Equipped limit host p) (q : Party Probe) (nextId : UInt64)
    (now : Instant) (channel : Nat) :
    Steady limit p q ((Session.start (Probe.start nextId)).bind p now channel).bare ∧
      Opening ((Session.start (Probe.start nextId)).bind p now channel).bare ∧
      Utters p q (Session.start (Probe.start nextId))
        ((Session.start (Probe.start nextId)).bind p now channel) [] ∧
      ((Session.start (Probe.start nextId)).bind p now channel).media.gathered = [] := by
  let mode := if p.config.video then CallMode.video else .voice
  let fresh : Session Probe := { Session.start (Probe.start nextId) with channel, mode }
  obtain ⟨ps, hsetUp, hvideo, -, -⟩ :=
    Probe.setUp_of_none (p := Probe.start nextId) rfl mode.hasVideo
  let media : Probe := { Probe.start nextId with
    session := some ps, report := (Probe.start nextId).report.set .ready }
  let v₁ : Session Probe := { fresh with stage := .initializingHardware }
  let v₂ : Session Probe := { v₁ with media }
  let w : Session Probe := { v₂ with stage := .startingDiscovery }
  have hcall : Runs p q (setUp p .settingUp) v₁ () v₂ [] := by
    refine runs_get fun t ht => ?_
    have hmode : t.bare.mode = mode := by rw [ht]
    rw [show t.mode = mode from hmode]
    have hrun : p.engine.setUp mode.hasVideo v₁.media = (.ok (), media) := by
      rw [he.engine]
      exact hsetUp
    exact runs_engage hrun
  have hall : Runs p q (do
      enter .initializingHardware
      setUp p .settingUp
      enter .startingDiscovery) fresh.bare () w [] :=
    (runs_enter _).silent (hcall.silent (runs_enter _))
  have hafter : (Session.bind p now channel (Session.start (Probe.start nextId))).bare = w ∧
      Utters p q fresh (Session.bind p now channel (Session.start (Probe.start nextId))) [] :=
    hall.guarded.after
  refine ⟨?_, ?_, hafter.2, ?_⟩
  · rw [hafter.1]
    exact ⟨rfl, Or.inl rfl, ⟨ps, rfl, hvideo⟩, fun c hc => absurd hc List.not_mem_nil⟩
  · rw [hafter.1]
    exact ⟨rfl, Watched.value_set _ _, rfl⟩
  · exact congrArg (·.media.gathered) hafter.1

end

end PeerCall.Handshake
