import PeerCall.Proofs.Handshake.Reactions

/-!
# What events do to stage and watchdog

Most parts of a reaction are calm: they leave the watchdog alone and at most pass to another stage
on the way. A failure is noted in one place, which arms the watchdog unless it is armed; a link and
a farewell disarm it. An event has one of these effects on the whole, whatever the media engine
does and wherever its calls fail.
-/
namespace PeerCall.Handshake

variable {σ α β : Type} {s s' t u : Session σ}

/-! ## Deeds -/

namespace Deed

/-- Whether a deed notes a failure. -/
def isFailure : Deed → Bool
  | .notice (.failed _) => true
  | _ => false

/-- Whether a deed sends over every path of the channel, as a handover does. -/
def isBroadcast : Deed → Bool
  | .send _ everywhere _ => everywhere
  | _ => false

end Deed

/-- The stages that a call only passes. -/
def Stage.isPassing : Stage → Bool
  | .idle | .linkEstablished | .failed => false
  | _ => true

/-- The deeds done from one session to a later one. -/
def deedsSince (s s' : Session σ) : List Deed := (s'.log.drop s.log.length).map Prod.snd

/-- Deeds are added to a log. -/
def Added (s s' : Session σ) (ds : List Deed) : Prop :=
  ∃ entries, s'.log = s.log ++ entries ∧ entries.map Prod.snd = ds

theorem added_nil (h : s'.log = s.log) : Added s s' [] := ⟨[], by rw [h, List.append_nil], rfl⟩

theorem Added.trans {ds es : List Deed} (h : Added s t ds) (h' : Added t u es) :
    Added s u (ds ++ es) := by
  obtain ⟨entries, hlog, rfl⟩ := h
  obtain ⟨entries', hlog', rfl⟩ := h'
  exact ⟨entries ++ entries', by rw [hlog', hlog, List.append_assoc], List.map_append⟩

theorem Added.deedsSince_eq {ds : List Deed} (h : Added s s' ds) : deedsSince s s' = ds := by
  obtain ⟨entries, hlog, rfl⟩ := h
  rw [deedsSince, hlog, List.drop_left]

theorem added_does (d : Deed) (s : Session σ) : Added s (outcome (does d) s).2 [d] :=
  ⟨[(s.stage, d)], rfl, rfl⟩

/-- Deeds that neither note a failure nor go over every path. -/
def Quiet (ds : List Deed) : Prop := ∀ d ∈ ds, d.isFailure = false ∧ d.isBroadcast = false

theorem Quiet.append {ds es : List Deed} (h : Quiet ds) (h' : Quiet es) : Quiet (ds ++ es) := by
  intro d hd
  rcases List.mem_append.mp hd with hd | hd
  · exact h d hd
  · exact h' d hd

/-! ## Calm parts -/

/-- The stage is the same, and no deed was done in another one. -/
def Stays (s s' : Session σ) : Prop :=
  s'.stage = s.stage ∧ ∃ entries, s'.log = s.log ++ entries ∧ ∀ x ∈ entries, x.1 = s.stage

theorem stays_of_eq (hstage : s'.stage = s.stage) (hlog : s'.log = s.log) : Stays s s' :=
  ⟨hstage, [], by rw [hlog, List.append_nil], fun _ h => absurd h List.not_mem_nil⟩

theorem Stays.trans (h : Stays s t) (h' : Stays t u) : Stays s u := by
  obtain ⟨hstage, entries, hlog, hentries⟩ := h
  obtain ⟨hstage', entries', hlog', hentries'⟩ := h'
  refine ⟨hstage'.trans hstage, entries ++ entries', ?_, ?_⟩
  · rw [hlog', hlog, List.append_assoc]
  · intro x hx
    rcases List.mem_append.mp hx with hx | hx
    · exact hentries x hx
    · exact (hentries' x hx).trans hstage

/-- Nothing happens to the watchdog, and the stage is the same all the time or one to pass. -/
structure Calm (s s' : Session σ) : Prop where
  watchdog : s'.watchdog = s.watchdog
  stage : Stays s s' ∨ s'.stage.isPassing = true
  deeds : ∃ ds, Added s s' ds ∧ Quiet ds

theorem calm_of_eq (hwatchdog : s'.watchdog = s.watchdog) (hstage : s'.stage = s.stage)
    (hlog : s'.log = s.log) : Calm s s' :=
  ⟨hwatchdog, Or.inl (stays_of_eq hstage hlog), [], added_nil hlog,
    fun _ h => absurd h List.not_mem_nil⟩

theorem Calm.refl (s : Session σ) : Calm s s := calm_of_eq rfl rfl rfl

theorem Calm.trans (h : Calm s t) (h' : Calm t u) : Calm s u := by
  obtain ⟨ds, hds, hquiet⟩ := h.deeds
  obtain ⟨es, hes, hquiet'⟩ := h'.deeds
  refine ⟨h'.watchdog.trans h.watchdog, ?_, ds ++ es, hds.trans hes, hquiet.append hquiet'⟩
  rcases h'.stage with hstays' | hpass
  · rcases h.stage with hstays | hpass
    · exact Or.inl (hstays.trans hstays')
    · refine Or.inr ?_
      rw [hstays'.1]
      exact hpass
  · exact Or.inr hpass

/-- A reaction that starts with a calm part. -/
theorem Within.after_calm {r : Reaction σ α} {f : α → Reaction σ β} (hr : Within Calm r)
    (hf : ∀ a, Within Calm (f a)) : Within Calm (r >>= f) :=
  hr.bind Calm.trans hf

theorem calm_get : Within Calm (get : Reaction σ (Session σ)) := within_get Calm.refl

theorem calm_pure (a : α) : Within Calm (pure a : Reaction σ α) := within_pure Calm.refl a

theorem calm_throw (e : Failure) : Within Calm (throw e : Reaction σ α) := within_throw Calm.refl e

theorem calm_does {d : Deed} (hfailure : d.isFailure = false) (hbroadcast : d.isBroadcast = false) :
    Within Calm (does d : Reaction σ Unit) := by
  intro s
  have hstays : Stays s (outcome (does d) s).2 :=
    ⟨rfl, [(s.stage, d)], rfl, fun x hx => by rw [List.mem_singleton.mp hx]⟩
  refine ⟨rfl, Or.inl hstays, [d], added_does d s, ?_⟩
  intro e he
  rw [List.mem_singleton.mp he]
  exact ⟨hfailure, hbroadcast⟩

theorem calm_tell {n : Notice} (hn : (Deed.notice n).isFailure = false) :
    Within Calm (tell n : Reaction σ Unit) := calm_does hn rfl

theorem calm_enter {stage : Stage} (h : stage.isPassing = true) :
    Within Calm (enter stage : Reaction σ Unit) :=
  fun _ => ⟨rfl, Or.inr h, [], added_nil rfl, fun _ h => absurd h List.not_mem_nil⟩

variable {p : Party σ} {now : Instant}

theorem calm_engage (call : EngineCall) (during : Activity) (run : σ → Except MediaError α × σ) :
    Within Calm (engage call during run : Reaction σ α) := by
  refine (calm_does rfl rfl).after_calm fun _ => calm_get.after_calm fun s => ?_
  rcases run s.media with ⟨result, media⟩
  refine Within.after_calm (within_modify fun _ => calm_of_eq rfl rfl rfl) fun _ => ?_
  cases result with
  | ok a => exact calm_pure a
  | error cause => exact calm_throw _

theorem calm_setUp (during : Activity) : Within Calm (setUp p during) :=
  calm_get.after_calm fun _ => calm_engage _ _ _

theorem calm_setUpForOffer : Within Calm (setUpForOffer p) := by
  refine calm_get.after_calm fun s => ?_
  split
  · exact calm_setUp _
  · exact calm_pure _

theorem calm_closeMedia : Within Calm (closeMedia p) :=
  (calm_does rfl rfl).after_calm fun _ => within_modify fun _ => calm_of_eq rfl rfl rfl

theorem calm_renewOffer : Within Calm (renewOffer p) := by
  unfold renewOffer
  split
  · exact calm_engage _ _ _
  · exact calm_engage _ _ _

theorem calm_dress (signal : Signal) : Within Calm (dress p signal) := by
  intro s
  rw [outcome_dress]
  split
  · split
    · split <;> exact calm_of_eq rfl rfl rfl
    · exact Calm.refl s
  · exact Calm.refl s

theorem calm_send (signal : Signal) : Within Calm (send p signal) :=
  (calm_dress signal).after_calm fun _ => calm_get.after_calm fun _ => calm_does rfl rfl

/-! ## Failures -/

/-- A failure was noted, and no deed goes over every path. -/
def Failing (ds : List Deed) : Prop :=
  (∃ d ∈ ds, d.isFailure = true) ∧ ∀ d ∈ ds, d.isBroadcast = false

theorem Failing.append_left {ds es : List Deed} (h : Quiet ds) (h' : Failing es) :
    Failing (ds ++ es) := by
  obtain ⟨⟨d, hd, hfailure⟩, hbroadcast⟩ := h'
  refine ⟨⟨d, List.mem_append_right _ hd, hfailure⟩, ?_⟩
  intro e he
  rcases List.mem_append.mp he with he | he
  · exact (h e he).2
  · exact hbroadcast e he

theorem Failing.append_right {ds es : List Deed} (h : Failing ds)
    (h' : ∀ d ∈ es, d.isBroadcast = false) : Failing (ds ++ es) := by
  obtain ⟨⟨d, hd, hfailure⟩, hbroadcast⟩ := h
  refine ⟨⟨d, List.mem_append_left _ hd, hfailure⟩, ?_⟩
  intro e he
  rcases List.mem_append.mp he with he | he
  · exact hbroadcast e he
  · exact h' e he

/-- A failure was noted: the watchdog is armed, and stays as it is if it was armed before. -/
structure Noted (p : Party σ) (now : Instant) (s s' : Session σ) : Prop where
  watchdog : s'.watchdog = some (s.watchdog.getD (now + p.config.watchdogGrace))
  stage : s'.stage = .failed ∨ s'.stage.isPassing = true
  deeds : ∃ ds, Added s s' ds ∧ Failing ds

/-- Nothing but calm parts and failures. -/
def Course (p : Party σ) (now : Instant) (s s' : Session σ) : Prop := Calm s s' ∨ Noted p now s s'

theorem outcome_fail (p : Party σ) (now : Instant) (failure : Failure) (s : Session σ) :
    outcome (fail p now failure) s =
      (.ok (), { s with
        stage := .failed
        watchdog := some (s.watchdog.getD (now + p.config.watchdogGrace))
        log := s.log ++ [(.failed, .notice (.failed failure))] }) := by
  simp only [fail, outcome_bind, outcome_enter, outcome_tell, outcome_modify]

theorem noted_fail (p : Party σ) (now : Instant) (failure : Failure) (s : Session σ) :
    Noted p now s (outcome (fail p now failure) s).2 := by
  rw [outcome_fail]
  refine ⟨rfl, Or.inl rfl, [.notice (.failed failure)], ⟨_, rfl, rfl⟩, ?_⟩
  refine ⟨⟨_, List.mem_singleton_self _, rfl⟩, ?_⟩
  intro d hd
  rw [List.mem_singleton.mp hd]
  rfl

theorem stage_fail (p : Party σ) (now : Instant) (failure : Failure) (s : Session σ) :
    (outcome (fail p now failure) s).2.stage = .failed := by
  rw [outcome_fail]

theorem Noted.watchdog_of_none (h : Noted p now s s') (hnone : s.watchdog = none) :
    s'.watchdog = some (now + p.config.watchdogGrace) := by
  rw [h.watchdog, hnone, Option.getD_none]

theorem Calm.noted (h : Calm s t) (h' : Noted p now t u) : Noted p now s u := by
  obtain ⟨ds, hds, hquiet⟩ := h.deeds
  obtain ⟨es, hes, hfailing⟩ := h'.deeds
  exact ⟨by rw [h'.watchdog, h.watchdog], h'.stage, ds ++ es, hds.trans hes,
    Failing.append_left hquiet hfailing⟩

theorem Noted.calm (h : Noted p now s t) (h' : Calm t u) : Noted p now s u := by
  obtain ⟨ds, hds, hfailing⟩ := h.deeds
  obtain ⟨es, hes, hquiet⟩ := h'.deeds
  refine ⟨h'.watchdog.trans h.watchdog, ?_, ds ++ es, hds.trans hes,
    hfailing.append_right fun d hd => (hquiet d hd).2⟩
  rcases h'.stage with hstays | hpass
  · rw [hstays.1]
    exact h.stage
  · exact Or.inr hpass

/-- The first failure counts: another one behind it does not move the deadline. -/
theorem Noted.noted (h : Noted p now s t) (h' : Noted p now t u) : Noted p now s u := by
  obtain ⟨ds, hds, hfailing⟩ := h.deeds
  obtain ⟨es, hes, hfailing'⟩ := h'.deeds
  refine ⟨?_, h'.stage, ds ++ es, hds.trans hes, hfailing.append_right hfailing'.2⟩
  rw [h'.watchdog, h.watchdog, Option.getD_some]

theorem Course.trans (h : Course p now s t) (h' : Course p now t u) : Course p now s u := by
  rcases h with h | h
  · rcases h' with h' | h'
    · exact Or.inl (h.trans h')
    · exact Or.inr (h.noted h')
  · rcases h' with h' | h'
    · exact Or.inr (h.calm h')
    · exact Or.inr (h.noted h')

theorem Course.refl (s : Session σ) : Course p now s s := Or.inl (Calm.refl s)

theorem course_of_calm {r : Reaction σ α} (h : Within Calm r) : Within (Course p now) r :=
  h.mono fun _ _ => Or.inl

theorem Within.after_course {r : Reaction σ α} {f : α → Reaction σ β}
    (hr : Within (Course p now) r) (hf : ∀ a, Within (Course p now) (f a)) :
    Within (Course p now) (r >>= f) :=
  hr.bind Course.trans hf

theorem course_guarded {r : Reaction σ Unit} (h : Within (Course p now) r) :
    Within (Course p now) (guarded p now r) :=
  h.tryCatch Course.trans fun failure s => Or.inr (noted_fail p now failure s)

theorem course_sendGuarded (signal : Signal) : Within (Course p now) (sendGuarded p now signal) :=
  course_guarded (course_of_calm (calm_send signal))

theorem course_announce : Within (Course p now) (announce p now) :=
  Within.after_course (course_of_calm (within_modify fun _ => calm_of_eq rfl rfl rfl))
    fun _ => course_sendGuarded _

theorem calm_startOffer : Within Calm (startOffer p now) := by
  refine calm_get.after_calm fun s => ?_
  split
  · refine calm_setUpForOffer.after_calm fun _ => calm_get.after_calm fun _ => ?_
    refine (calm_send _).after_calm fun _ => (calm_enter rfl).after_calm fun _ => ?_
    refine (calm_engage _ _ _).after_calm fun _ => (calm_send _).after_calm fun _ => ?_
    exact Within.after_calm (within_modify fun _ => calm_of_eq rfl rfl rfl) fun _ => calm_enter rfl
  · exact calm_pure _

/-- While the media engine is connected, or coming to that, an announcement is passed over. -/
theorem outcome_startOffer_of_busy
    (h : engineState p s = .connecting ∨ engineState p s = .connected) :
    outcome (startOffer p now) s = (.ok (), s) := by
  have hignores : ignoresJoin p now s = true := by
    rcases h with h | h <;> simp [ignoresJoin, h]
  rw [startOffer, outcome_bind, outcome_get]
  simp only [hignores]
  rfl

theorem course_onJoin : Within (Course p now) (onJoin p now) := by
  unfold onJoin
  split
  · exact course_of_calm calm_startOffer
  · refine (course_of_calm calm_get).after_course fun s => ?_
    split
    · exact course_announce
    · exact course_of_calm (calm_pure _)

theorem calm_onMode (mode : CallMode) : Within Calm (onMode p mode) := by
  unfold onMode
  split
  · exact calm_pure _
  · exact Within.after_calm (within_modify fun _ => calm_of_eq rfl rfl rfl) fun _ =>
      (calm_tell rfl).after_calm fun _ => calm_setUp _

theorem course_onIdentity (sender : String) (key : PublicKey) :
    Within (Course p now) (onIdentity p now sender key) := by
  refine (course_of_calm calm_get).after_course fun s => ?_
  split
  · refine Within.after_course (course_of_calm (within_modify fun _ => calm_of_eq rfl rfl rfl))
      fun _ => (course_of_calm (calm_tell rfl)).after_course fun _ => ?_
    split
    · exact course_sendGuarded _
    · exact course_of_calm (calm_pure _)
  · exact course_of_calm (calm_pure _)

theorem course_onConnected : Within (Course p now) (onConnected p now) := by
  have hfind : Within Calm (findPeer : Reaction σ Unit) := by
    refine calm_get.after_calm fun s => ?_
    split
    · exact calm_enter rfl
    · exact calm_pure _
  rw [onConnected_eq]
  refine (course_of_calm hfind).after_course fun _ => Within.after_course ?_ fun _ =>
    course_announce.after_course fun _ => ?_
  · unfold introduce
    split
    · exact course_sendGuarded _
    · exact course_of_calm (calm_pure _)
  · unfold declareReady
    split
    · exact course_sendGuarded _
    · exact course_of_calm (calm_pure _)

theorem course_onChannelState (state : ChannelState) :
    Within (Course p now) (onChannelState p now state) := by
  unfold onChannelState
  split
  · exact course_onConnected
  · refine (course_of_calm calm_get).after_course fun s => ?_
    split
    · exact course_of_calm (calm_enter rfl)
    · exact course_of_calm (calm_pure _)

/-! ## Links and farewells -/

/-- The watchdog is disarmed and the call established. -/
structure Established (s s' : Session σ) : Prop where
  watchdog : s'.watchdog = none
  stage : s'.stage = .linkEstablished
  deeds : ∃ ds, Added s s' ds ∧ Quiet ds

/-- The call is established because the media engine, when asked, reports the connection. -/
structure Linked (p : Party σ) (s s' : Session σ) : Prop extends Established s s' where
  connected : engineState p s' = .connected

/-- The peer hung up: the watchdog is disarmed and the call over. -/
structure Ended (s s' : Session σ) : Prop where
  watchdog : s'.watchdog = none
  stage : s'.stage = .idle
  deeds : ∃ ds, Added s s' ds ∧ Quiet ds

/-- What comes of a message, and of all other events but two. -/
inductive Effect (p : Party σ) (now : Instant) (s s' : Session σ) : Prop
  | calm (h : Calm s s')
  | noted (h : Noted p now s s')
  | linked (h : Linked p s s')
  | ended (h : Ended s s')

theorem Course.effect (h : Course p now s s') : Effect p now s s' := by
  rcases h with h | h
  · exact .calm h
  · exact .noted h

theorem Calm.effect (h : Calm s t) (h' : Effect p now t u) : Effect p now s u := by
  obtain ⟨ds, hds, hquiet⟩ := h.deeds
  cases h' with
  | calm h' => exact .calm (h.trans h')
  | noted h' => exact .noted (h.noted h')
  | linked h' =>
      obtain ⟨es, hes, hquiet'⟩ := h'.deeds
      exact .linked ⟨⟨h'.watchdog, h'.stage, ds ++ es, hds.trans hes, hquiet.append hquiet'⟩,
        h'.connected⟩
  | ended h' =>
      obtain ⟨es, hes, hquiet'⟩ := h'.deeds
      exact .ended ⟨h'.watchdog, h'.stage, ds ++ es, hds.trans hes, hquiet.append hquiet'⟩

/-- A reaction with an effect if it ends well; until it fails it has only taken its course. -/
def Leads (p : Party σ) (now : Instant) (r : Reaction σ α) : Prop :=
  ∀ s, match outcome r s with
    | (.ok _, s') => Effect p now s s'
    | (.error _, s') => Course p now s s'

theorem leads_of_course {r : Reaction σ α} (h : Within (Course p now) r) : Leads p now r := by
  intro s
  obtain ⟨o, s', ho, hs⟩ := h.result s
  rw [ho]
  cases o with
  | ok a => exact hs.effect
  | error e => exact hs

theorem leads_after_calm {r : Reaction σ α} {f : α → Reaction σ β} (hr : Within Calm r)
    (hf : ∀ a, Leads p now (f a)) : Leads p now (r >>= f) := by
  intro s
  obtain ⟨o, t, ho, hfirst⟩ := hr.result s
  rw [outcome_bind, ho]
  cases o with
  | error e => exact Or.inl hfirst
  | ok a =>
      have hsecond := hf a t
      dsimp only
      rcases ho' : outcome (f a) t with ⟨o', u⟩
      rw [ho'] at hsecond
      cases o' with
      | ok b => exact hfirst.effect hsecond
      | error e => exact Course.trans (Or.inl hfirst) hsecond

theorem within_guarded {r : Reaction σ Unit} (h : Leads p now r) :
    Within (Effect p now) (guarded p now r) := by
  intro s
  have hs := h s
  rw [guarded, outcome_tryCatch]
  rcases ho : outcome r s with ⟨o, t⟩
  rw [ho] at hs
  cases o with
  | ok a => exact hs
  | error e => exact (Course.trans hs (Or.inr (noted_fail p now e t))).effect

/-- How the news of a connection is taken. -/
theorem established_of_news (s : Session σ) :
    Established s { s with watchdog := none, stage := .linkEstablished } :=
  ⟨rfl, rfl, [], added_nil rfl, fun _ h => absurd h List.not_mem_nil⟩

theorem outcome_settle (s : Session σ) :
    outcome (settle p now) s =
      if engineState p s = .connected then
        (.ok (), { s with watchdog := none, stage := .linkEstablished })
      else (.ok (), s) := by
  rw [settle, outcome_bind, outcome_get]
  by_cases h : engineState p s = .connected
  · simp only [h, if_true]
    rfl
  · simp only [h, if_false, outcome_pure]

theorem leads_settle : Leads p now (settle p now) := by
  intro s
  rw [outcome_settle]
  by_cases h : engineState p s = .connected
  · rw [if_pos h]
    exact .linked ⟨established_of_news s, h⟩
  · rw [if_neg h]
    exact .calm (Calm.refl s)

/-! ## Messages -/

theorem leads_onOffer (sdp : String) : Leads p now (onOffer p now sdp) := by
  refine leads_after_calm (calm_enter rfl) fun _ => leads_after_calm calm_setUpForOffer fun _ => ?_
  refine leads_after_calm (calm_engage _ _ _) fun _ => leads_after_calm (calm_enter rfl) fun _ => ?_
  refine leads_after_calm (calm_engage _ _ _) fun _ => leads_after_calm (calm_send _) fun _ => ?_
  exact leads_after_calm (calm_enter rfl) fun _ => leads_settle

theorem leads_onAnswer (sdp : String) : Leads p now (onAnswer p now sdp) :=
  leads_after_calm (calm_enter rfl) fun _ => leads_after_calm (calm_engage _ _ _) fun _ =>
    leads_settle

theorem leads_onBye : Leads p now (onBye p) := by
  refine leads_after_calm calm_closeMedia fun _ => ?_
  intro s
  exact .ended ⟨rfl, rfl, [], added_nil rfl, fun _ h => absurd h List.not_mem_nil⟩

theorem leads_onPlain (m : Message) : Leads p now (onPlain p now m) := by
  unfold onPlain
  split
  · exact leads_of_course course_onJoin
  · exact leads_of_course (course_of_calm (calm_onMode _))
  · exact leads_onOffer _
  · exact leads_onAnswer _
  · exact leads_of_course (course_of_calm (calm_engage _ _ _))
  · exact leads_onBye
  · exact leads_of_course (course_of_calm (calm_tell rfl))
  · exact leads_of_course (course_onIdentity _ _)
  · exact leads_of_course (course_of_calm (calm_throw _))
  · exact leads_of_course (course_of_calm (calm_pure _))

theorem leads_dispatch (m : Message) : Leads p now (dispatch p now m) := by
  unfold dispatch
  split
  · split
    · exact leads_onPlain _
    · exact leads_of_course (course_of_calm (calm_pure _))
    · exact leads_of_course (course_of_calm (calm_pure _))
    · exact leads_of_course (course_of_calm (calm_throw _))
  · exact leads_onPlain _

theorem effect_onMessage (m : Message) : Within (Effect p now) (onMessage p now m) := by
  unfold onMessage
  split
  · exact fun s => .calm (Calm.refl s)
  · exact within_guarded (leads_dispatch m)

/-! ## The watchdog's own event -/

/-- What the watchdog does when it is due. Unless the handover fails it stays disarmed, and it
offers once at most. -/
inductive Expired (p : Party σ) (now : Instant) (s s' : Session σ) : Prop
  | linked (h : Linked p s s')
  | waits (hrole : p.role = .joiner) (hwatchdog : s'.watchdog = none) (hstage : s'.stage = s.stage)
    (hlog : s'.log = s.log)
  | handsOver (hwatchdog : s'.watchdog = none) (hstage : s'.stage.isPassing = true)
    (hdeeds : ∃ ds, Added s s' ds ∧ (∀ d ∈ ds, d.isFailure = false) ∧
      (ds.filter Deed.isBroadcast).length = 1)
  | fails (hwatchdog : s'.watchdog = some (now + p.config.watchdogGrace))
    (hstage : s'.stage = .failed) (hdeeds : ∃ ds, Added s s' ds ∧ Failing ds)

/-- The attempt to hand over. -/
def handOver (p : Party σ) (now : Instant) : Reaction σ Unit := do
  let sdp ← renewOffer p
  post p true (.offer sdp)
  modify fun s => { s with offerSentAt := some now }

/-- An offer over every path goes out once, or the attempt is calm and fails. -/
theorem handOver_outcome (p : Party σ) (now : Instant) (s : Session σ) :
    match outcome (handOver p now) s with
    | (.ok _, s') => s'.watchdog = s.watchdog ∧ (s'.stage = s.stage ∨ s'.stage.isPassing = true) ∧
        ∃ ds, Added s s' ds ∧ (∀ d ∈ ds, d.isFailure = false) ∧
          (ds.filter Deed.isBroadcast).length = 1
    | (.error _, s') => Calm s s' := by
  have hcalm : Within Calm (renewOffer p) := calm_renewOffer
  obtain ⟨o, t, ho, hrenew⟩ := hcalm.result s
  rw [handOver, outcome_bind, ho]
  cases o with
  | error e => exact hrenew
  | ok sdp =>
      have hcalm : Within Calm (dress p (.offer sdp)) := calm_dress _
      obtain ⟨o, u, ho, hdress⟩ := hcalm.result t
      simp only [outcome_bind, post, ho]
      cases o with
      | error e => exact hrenew.trans hdress
      | ok message =>
          have hcalm := hrenew.trans hdress
          obtain ⟨ds, hds, hquiet⟩ := hcalm.deeds
          refine ⟨hcalm.watchdog, hcalm.stage.imp_left And.left,
            ds ++ [.send u.channel true message],
            hds.trans ⟨[(u.stage, .send u.channel true message)], rfl, rfl⟩, ?_, ?_⟩
          · intro d hd
            rcases List.mem_append.mp hd with hd | hd
            · exact (hquiet d hd).1
            · rw [List.mem_singleton.mp hd]
              rfl
          · have hnone : ds.filter Deed.isBroadcast = [] := by
              rw [List.filter_eq_nil_iff]
              intro d hd
              rw [(hquiet d hd).2]
              exact Bool.false_ne_true
            rw [List.filter_append, hnone]
            rfl

/-- **The effect of the watchdog's event.** -/
theorem expired_handle : Expired p now s (s.handle p now .watchdog) := by
  rw [Session.handle, after_eq, react, onWatchdog, outcome_bind, outcome_modify]
  dsimp only
  rw [outcome_bind, outcome_get]
  by_cases h : engineState p s = .connected
  · have h' : engineState p { s with watchdog := none } = .connected := h
    simp only [h', if_true, outcome_settle]
    exact .linked ⟨⟨rfl, rfl, [], added_nil rfl, fun _ h => absurd h List.not_mem_nil⟩, h⟩
  · have h' : ¬ engineState p { s with watchdog := none } = .connected := h
    simp only [h', if_false]
    cases hrole : p.role with
    | joiner => exact .waits hrole rfl rfl rfl
    | host =>
        -- Reconnecting is entered and the handover told before the attempt, which may fail.
        let t : Session σ := { s with
          watchdog := none, stage := .reconnecting
          log := s.log ++ [(.reconnecting, .notice .handover)] }
        have hlog : Added s t [.notice .handover] := ⟨_, rfl, rfl⟩
        have hoffer := handOver_outcome p now t
        simp only [outcome_bind, outcome_enter, outcome_tell]
        rw [guarded, outcome_tryCatch, ← handOver]
        rcases ho : outcome (handOver p now) t with ⟨o, u⟩
        cases o with
        | ok a =>
            simp only [ho] at hoffer
            obtain ⟨hwatchdog, hstage, ds, hds, hfailure, hbroadcast⟩ := hoffer
            refine .handsOver hwatchdog ?_ ⟨_, hlog.trans hds, ?_, ?_⟩
            · rcases hstage with hstage | hpass
              · rw [hstage]
                rfl
              · exact hpass
            · intro d hd
              rcases List.mem_cons.mp hd with rfl | hd
              · rfl
              · exact hfailure d hd
            · exact hbroadcast
        | error e =>
            simp only [ho] at hoffer
            have hnoted := hoffer.noted (noted_fail p now e u)
            obtain ⟨ds, hds, hfailing⟩ := hnoted.deeds
            dsimp only
            refine .fails (hnoted.watchdog_of_none rfl) (stage_fail p now e u)
              ⟨_, hlog.trans hds, ?_⟩
            refine Failing.append_left ?_ hfailing
            intro d hd
            rw [List.mem_singleton.mp hd]
            exact ⟨rfl, rfl⟩

/-! ## Events -/

/-- What comes of an event: the news of a connection establishes the call, the watchdog does what it
does when it is due, and all other events have an effect of the usual kinds. -/
inductive Handled (p : Party σ) (now : Instant) (s : Session σ) : Event → Session σ → Prop
  | effect {e : Event} {s' : Session σ} (he : e ≠ .watchdog) (h : Effect p now s s') :
      Handled p now s e s'
  | news {s' : Session σ} (h : Established s s') : Handled p now s (.engine .connected) s'
  | expired {s' : Session σ} (h : Expired p now s s') : Handled p now s .watchdog s'

/-- **What comes of an event**, whatever it is. -/
theorem handled (p : Party σ) (now : Instant) (s : Session σ) (e : Event) :
    Handled p now s e (s.handle p now e) := by
  cases e with
  | watchdog => exact .expired expired_handle
  | channel state => exact .effect Event.noConfusion (course_onChannelState state s).effect
  | message m => exact .effect Event.noConfusion (effect_onMessage m s)
  | candidate c => exact .effect Event.noConfusion (course_sendGuarded _ s).effect
  | chat text => exact .effect Event.noConfusion (course_sendGuarded _ s).effect
  | engine state =>
      cases state with
      | connected => exact .news (established_of_news s)
      | failed => exact .effect Event.noConfusion (.noted (noted_fail p now _ s))
      | idle => exact .effect Event.noConfusion (.calm (Calm.refl s))
      | ready => exact .effect Event.noConfusion (.calm (Calm.refl s))
      | connecting => exact .effect Event.noConfusion (.calm (Calm.refl s))
      | closed => exact .effect Event.noConfusion (.calm (Calm.refl s))

/-! ## Binding -/

/-- What binding does: the watchdog is disarmed, unless setting the media up fails. -/
inductive Bound (p : Party σ) (now : Instant) (s s' : Session σ) : Prop
  | sets (hwatchdog : s'.watchdog = none) (hstage : s'.stage.isPassing = true)
    (hdeeds : ∃ ds, Added s s' ds ∧ Quiet ds)
  | fails (hwatchdog : s'.watchdog = some (now + p.config.watchdogGrace))
    (hstage : s'.stage = .failed) (hdeeds : ∃ ds, Added s s' ds ∧ Failing ds)

/-- **The effect of binding.** -/
theorem bound_bind (channel : Nat) : Bound p now s (s.bind p now channel) := by
  let t : Session σ := { s with
    stage := .initializingHardware, channel
    mode := if p.config.video then CallMode.video else .voice
    peerKey := none, offerSentAt := none, lastJoin := none, watchdog := none }
  have hlog : Added s t [] := added_nil rfl
  have hsetUp : Within Calm (do
      setUp p .settingUp
      enter .startingDiscovery : Reaction σ Unit) :=
    (calm_setUp _).after_calm fun _ => calm_enter rfl
  obtain ⟨o, u, ho, hcalm⟩ := hsetUp.result t
  obtain ⟨ds, hds, hquiet⟩ := hcalm.deeds
  rw [Session.bind, after_eq, guarded, outcome_tryCatch, outcome_bind, outcome_enter]
  simp only [t] at ho
  simp only [ho]
  cases o with
  | ok a =>
      refine .sets hcalm.watchdog ?_ ⟨_, hlog.trans hds, hquiet⟩
      rcases hcalm.stage with hstays | hpass
      · rw [hstays.1]
        rfl
      · exact hpass
  | error e =>
      have hnoted := hcalm.noted (noted_fail p now e u)
      obtain ⟨es, hes, hfailing⟩ := hnoted.deeds
      dsimp only
      exact .fails (hnoted.watchdog_of_none rfl) (stage_fail p now e u)
        ⟨_, hlog.trans hes, hfailing⟩

end PeerCall.Handshake
