import PeerCall.Proofs.Handshake.Established
import PeerCall.Proofs.Handshake.Introductions
import PeerCall.Proofs.Media.Probe

/-!
# After the peer hung up

A farewell closes the media engine, disarms the watchdog and ends the call. But messages over
different paths overtake each other, so an answer or a network path may come behind the farewell.
The closed engine refuses it, and that is noted like any other failure: the call is no longer idle
but failed, and the watchdog is armed. A host then hands over after every grace period, which fails
each time, until the peer says farewell again. Whatever else comes late leaves the call as it is,
and in no case the engine is opened again or an offer made.
-/
namespace PeerCall.Handshake

variable {σ : Type}

/-! ## What comes late -/

/-- Signals that come late: all but those that begin a call. -/
def isLate : Signal → Bool
  | .answer _ | .iceCandidate _ | .bye | .chat _ | .identity _ | .unknown => true
  | _ => false

/-- The signal that a device takes up, if an event is a message of another device that it reads. -/
def Party.heard? (p : Party σ) : Event → Option Signal
  | .message m => if m.sender = p.sender then none else (p.read? m).map Message.signal
  | _ => none

/-- Events that come late: messages that begin no call, the news that the media engine is closed,
what one's own side has to say, and the watchdog. -/
inductive Event.Late (p : Party σ) : Event → Prop
  | own {m : Message} (h : m.sender = p.sender) : Event.Late p (.message m)
  | passedOver {m : Message} (h : p.PassesOver m) : Event.Late p (.message m)
  | read {m n : Message} (hread : p.read? m = some n) (h : isLate n.signal = true) :
    Event.Late p (.message m)
  | closed : Event.Late p (.engine .closed)
  | candidate {c : IceCandidate} {limit : Nat} (hsuite : p.suite.DecryptsUpTo limit)
    (hsize : Sendable limit p (.iceCandidate c)) : Event.Late p (.candidate c)
  | chat {text : String} {limit : Nat} (hsuite : p.suite.DecryptsUpTo limit)
    (hsize : Sendable limit p (.chat text)) : Event.Late p (.chat text)
  | watchdog : Event.Late p .watchdog

/-- Whether there is trouble after an event: an answer or a network path makes it, and a farewell
ends it. -/
def troubledBy (p : Party σ) (before : Bool) (e : Event) : Bool :=
  match p.heard? e with
  | some .bye => false
  | some (.answer _) | some (.iceCandidate _) => true
  | _ => before

/-- Whether an answer or a network path has come since the last farewell. -/
def troubled (p : Party σ) (events : List (Instant × Event)) : Bool :=
  events.foldl (fun before x => troubledBy p before x.2) false

/-- A deed that sends no more than asides: no description among them, in the clear or sealed. -/
def Deed.SaysAside (p : Party σ) (d : Deed) : Prop :=
  ∀ m, d.message? = some m → ∃ signal, isAside signal = true ∧ p.Utters signal m

/-- The call is over: the media engine is closed and has no session. Without trouble the call is
idle and the watchdog disarmed; in trouble it has failed, and a host has its watchdog armed. -/
structure HungUp (p : Party Probe) (trouble : Bool) (s : Session Probe) : Prop where
  session : s.media.session = none
  closed : s.media.report.value = .closed
  idle : trouble = false → s.stage = .idle ∧ s.watchdog = none
  failed : trouble = true → s.stage = .failed ∧
    (p.role = .host → ∃ deadline, s.watchdog = some deadline)

variable {p : Party Probe} {now : Instant} {s t : Session Probe} {e : Event} {m n : Message}
  {host : Net.Address} {trouble : Bool}

/-! ## What is heard -/

theorem heard?_own (h : m.sender = p.sender) : p.heard? (.message m) = none := if_pos h

theorem heard?_of_read? {p : Party σ} (hother : m.sender ≠ p.sender) (hread : p.read? m = some n) :
    p.heard? (.message m) = some n.signal := by
  rw [Party.heard?, if_neg hother, hread, Option.map_some]

theorem heard?_of_passesOver (h : p.PassesOver m) : p.heard? (.message m) = none := by
  have hread : p.read? m = none := by
    rw [Party.read?]
    split
    · rcases h with h | h <;> rw [h] <;> rfl
    · rename_i hplain
      rcases h with h | h
      · exact absurd (Message.isEnvelope_of_openWith h EnvelopeError.noConfusion) hplain
      · exact absurd (Message.isEnvelope_of_openWith h EnvelopeError.noConfusion) hplain
  rw [Party.heard?, hread, Option.map_none, ite_self]

/-! ## Asides -/

theorem Deed.IsAside.saysAside {d : Deed} (h : d.IsAside p) : d.SaysAside p := by
  intro m hm
  cases h with
  | chat sender text => cases hm
  | identified sender => cases hm
  | send channel haside hutters =>
      cases hm
      exact ⟨_, haside, hutters⟩

theorem Deed.saysAside_of_silent {d : Deed} (h : d.message? = none) : d.SaysAside p := by
  intro m hm
  rw [h] at hm
  cases hm

/-- The call rests as it is, and nothing was done but aside. -/
structure Rests (p : Party Probe) (s s' : Session Probe) : Prop where
  stage : s'.stage = s.stage
  watchdog : s'.watchdog = s.watchdog
  media : s'.media = s.media
  deeds : ∃ ds, Added s s' ds ∧ ∀ d ∈ ds, d.IsAside p

theorem Rests.refl (s : Session Probe) : Rests p s s :=
  ⟨rfl, rfl, rfl, [], added_nil rfl, List.forall_mem_nil _⟩

theorem rests_onIdentity (p : Party Probe) (now : Instant) (s : Session Probe) (sender : String)
    (key : PublicKey) :
    ∃ t, outcome (onIdentity p now sender key) s = (.ok (), t) ∧ Rests p s t := by
  have haside : isAside (.identity p.keypair.publicKey) = true := rfl
  rw [onIdentity, outcome_bind, outcome_get]
  dsimp only
  split
  · simp only [outcome_bind, outcome_modify, outcome_tell]
    split
    · rw [outcome_sendIdentity]
      refine ⟨_, rfl, rfl, rfl, rfl,
        [.notice (.peerIdentified sender), .send s.channel false p.introduction],
        ⟨_, List.append_assoc .., rfl⟩, ?_⟩
      exact List.forall_mem_cons.mpr ⟨.identified sender,
        List.forall_mem_singleton.mpr (.send _ haside (Or.inl rfl))⟩
    · refine ⟨_, rfl, rfl, rfl, rfl, [.notice (.peerIdentified sender)], ⟨_, rfl, rfl⟩, ?_⟩
      exact List.forall_mem_singleton.mpr (.identified sender)
  · exact ⟨s, rfl, .refl s⟩

theorem rests_sendGuarded {signal : Signal} {limit : Nat} (hsuite : p.suite.DecryptsUpTo limit)
    (hsize : Sendable limit p signal) (haside : isAside signal = true) :
    Rests p s (s.after (sendGuarded p now signal)) := by
  obtain ⟨m, count, hutters, ho⟩ :=
    outcome_send_of_sendable hsuite hsize (isEnvelope_of_isAside haside) s
  rw [sendGuarded, after_guarded_of_ok ho]
  refine ⟨rfl, rfl, rfl, [.send s.channel false m], ⟨_, rfl, rfl⟩, ?_⟩
  exact List.forall_mem_singleton.mpr (.send s.channel haside hutters)

/-! ## Refusals -/

/-- A closed engine refuses answers and network paths, and that is noted. -/
structure Refused (p : Party Probe) (now : Instant) (s s' : Session Probe) : Prop where
  stage : s'.stage = .failed
  watchdog : s'.watchdog = some (s.watchdog.getD (now + p.config.watchdogGrace))
  media : s'.media = s.media
  deeds : ∃ call failure, Added s s' [.engine call, .notice (.failed failure)]

theorem outcome_engage_error {α : Type} {call : EngineCall} {during : Activity} {cause : MediaError}
    {run : Probe → Except MediaError α × Probe} (h : run s.media = (.error cause, s.media)) :
    outcome (engage call during run) s = (.error (.media during cause),
      { s with log := s.log ++ [(s.stage, .engine call)] }) := by
  rw [outcome_engage, h]

theorem refused_noting {call : EngineCall} {failure : Failure} {stage : Stage} :
    Refused p now s (Session.noting p now failure
      { s with stage, log := s.log ++ [(stage, .engine call)] }) :=
  ⟨rfl, rfl, rfl, call, failure, _, List.append_assoc .., rfl⟩

theorem refused_onAnswer (hengine : p.engine = Probe.engine host) (hnone : s.media.session = none)
    (now : Instant) (sdp : String) : Refused p now s (s.after (guarded p now (onAnswer p now sdp))) := by
  let t : Session Probe := { s with stage := .waitingForVideo }
  obtain ⟨cause, hcause⟩ : ∃ cause,
      p.engine.setRemote .answer sdp t.media = (.error cause, t.media) := by
    rw [hengine]
    exact Probe.setRemote_of_none hnone .answer sdp
  have ho : outcome (onAnswer p now sdp) s = (.error (.media .applyingAnswer cause),
      { t with log := s.log ++ [(.waitingForVideo, .engine (.setRemote .answer sdp))] }) := by
    rw [onAnswer, outcome_bind, outcome_enter]
    dsimp only
    rw [outcome_bind, outcome_engage_error hcause]
  rw [after_guarded_of_error ho]
  exact refused_noting

theorem refused_addIce (hengine : p.engine = Probe.engine host) (hnone : s.media.session = none)
    (now : Instant) (c : IceCandidate) : Refused p now s (s.after (guarded p now
      (engage (.addIce c) .addingCandidate (p.engine.addIce c)))) := by
  have hcause : p.engine.addIce c s.media = (.error .noSession, s.media) := by
    rw [hengine]
    exact Probe.addIce_of_none hnone
  rw [after_guarded_of_error (outcome_engage_error hcause)]
  exact refused_noting

/-! ## The watchdog -/

/-- Without a session an attempt to hand over fails. -/
theorem outcome_handOver_of_none (hengine : p.engine = Probe.engine host)
    (hnone : s.media.session = none) (now : Instant) :
    outcome (handOver p now) s = (.error (.media .restartingIce .noSession),
      { s with log := s.log ++ [(s.stage, .engine .restartIce)] }) := by
  have hrestart : Probe.restart host s.media = (.error .noSession, s.media) :=
    Probe.restart_of_none host hnone
  have hrenew : outcome (renewOffer p) s = (.error (.media .restartingIce .noSession),
      { s with log := s.log ++ [(s.stage, .engine .restartIce)] }) := by
    rw [renewOffer, hengine]
    exact outcome_engage_error hrestart
  rw [handOver, outcome_bind, hrenew]

/-- A failure that finds the watchdog disarmed arms it for the grace period. -/
theorem watchdog_noting (failure : Failure) (h : s.watchdog = none) :
    (s.noting p now failure).watchdog = some (now + p.config.watchdogGrace) := by
  have hfound : (s.noting p now failure).watchdog =
      some (s.watchdog.getD (now + p.config.watchdogGrace)) := rfl
  rw [hfound, h, Option.getD_none]

/-- With the engine closed the watchdog of a host leads to a handover that fails, and is armed again
for another grace period. That of a joiner just expires. -/
theorem handle_watchdog_of_closed (hengine : p.engine = Probe.engine host)
    (hnone : s.media.session = none) (hclosed : s.media.report.value = .closed) (now : Instant) :
    s.handle p now .watchdog = match p.role with
      | .joiner => { s with watchdog := none }
      | .host => Session.noting p now (.media .restartingIce .noSession) { s with
          stage := .reconnecting, watchdog := none
          log := s.log ++ [(.reconnecting, .notice .handover)] ++
            [(.reconnecting, .engine .restartIce)] } := by
  have hdown : ¬ engineState p { s with watchdog := none } = .connected := by
    rw [engineState, hengine]
    change ¬ s.media.report.value = .connected
    rw [hclosed]
    decide
  rw [Session.handle, after_eq, react, onWatchdog]
  simp only [outcome_bind, outcome_modify, outcome_get, hdown, if_false]
  cases p.role with
  | joiner => rfl
  | host =>
      have hfails := outcome_handOver_of_none hengine (s := { s with
        stage := .reconnecting, watchdog := none
        log := s.log ++ [(.reconnecting, .notice .handover)] }) hnone now
      simp only [outcome_bind, outcome_enter, outcome_tell]
      rw [guarded, outcome_tryCatch, ← handOver, hfails]
      exact congrArg Prod.snd (outcome_fail p now _ _)

/-! ## One event -/

theorem HungUp.rests (hs : HungUp p trouble s) (h : Rests p s t) : HungUp p trouble t := by
  refine ⟨?_, ?_, ?_, ?_⟩
  · rw [h.media]
    exact hs.session
  · rw [h.media]
    exact hs.closed
  · rw [h.stage, h.watchdog]
    exact hs.idle
  · rw [h.stage, h.watchdog]
    exact hs.failed

theorem HungUp.refused (hs : HungUp p trouble s) (h : Refused p now s t) : HungUp p true t := by
  refine ⟨?_, ?_, fun h => absurd h Bool.noConfusion, fun _ => ⟨h.stage, fun _ => ⟨_, h.watchdog⟩⟩⟩
  · rw [h.media]
    exact hs.session
  · rw [h.media]
    exact hs.closed

/-- A farewell of the peer ends any call, and all trouble. -/
theorem hungUp_farewell (hengine : p.engine = Probe.engine host) (hother : m.sender ≠ p.sender)
    (hread : p.read? m = some n) (hbye : n.signal = .bye) (now : Instant) (s : Session Probe) :
    HungUp p false (s.handle p now (.message m)) ∧
      Added s (s.handle p now (.message m)) [.engine .close] := by
  have hplain : onPlain p now n = onBye p := by
    rw [onPlain, hbye]
  have ho : outcome (onBye p) s = (.ok (), { s with
      stage := .idle, media := p.engine.close s.media
      watchdog := none, offerSentAt := none, lastJoin := none
      log := s.log ++ [(s.stage, .engine .close)] }) := by
    simp only [onBye, closeMedia, outcome_bind, outcome_does, outcome_modify, outcome_enter]
  rw [handle_message hother, dispatch_of_read? hread, hplain, after_guarded_of_ok ho, hengine]
  refine ⟨⟨rfl, Watched.value_set _ _, fun _ => ⟨rfl, rfl⟩, fun h => absurd h Bool.false_ne_true⟩,
    _, rfl, rfl⟩

/-- What an event that comes late does: it sends nothing but asides, and only the watchdog of a host
hands over, to be armed again. -/
structure Belated (p : Party Probe) (now : Instant) (e : Event) (s s' : Session Probe) : Prop where
  aside : ∀ d ∈ deedsSince s s', d.SaysAside p
  handsOver : Deed.notice .handover ∈ deedsSince s s' ↔ e = .watchdog ∧ p.role = .host
  rearms : e = .watchdog → p.role = .host → s'.watchdog = some (now + p.config.watchdogGrace)

theorem belated_of_added {ds : List Deed} (hds : Added s t ds) (haside : ∀ d ∈ ds, d.SaysAside p)
    (hstays : Deed.notice .handover ∉ ds) (he : e ≠ .watchdog) : Belated p now e s t := by
  refine ⟨?_, ?_, fun h => absurd h he⟩ <;> rw [hds.deedsSince_eq]
  · exact haside
  · exact iff_of_false hstays fun h => he h.1

theorem Rests.belated (h : Rests p s t) (he : e ≠ .watchdog) : Belated p now e s t := by
  obtain ⟨ds, hds, haside⟩ := h.deeds
  refine belated_of_added hds (fun d hd => (haside d hd).saysAside) ?_ he
  intro hhandover
  cases haside _ hhandover

theorem Refused.belated (h : Refused p now s t) (he : e ≠ .watchdog) : Belated p now e s t := by
  obtain ⟨call, failure, hds⟩ := h.deeds
  refine belated_of_added hds ?_ (by simp) he
  simp only [List.forall_mem_cons]
  exact ⟨Deed.saysAside_of_silent rfl, Deed.saysAside_of_silent rfl, List.forall_mem_nil _⟩

/-- A late message that is read has the effect that its signal has on a closed engine. -/
theorem HungUp.read (hengine : p.engine = Probe.engine host) (hs : HungUp p trouble s)
    (hother : m.sender ≠ p.sender) (hread : p.read? m = some n) (hlate : isLate n.signal = true)
    (now : Instant) : HungUp p (troubledBy p trouble (.message m)) (s.handle p now (.message m)) ∧
      Belated p now (.message m) s (s.handle p now (.message m)) := by
  have he : Event.message m ≠ .watchdog := Event.noConfusion
  have hhandle : ∀ r, onPlain p now n = r →
      s.handle p now (.message m) = s.after (guarded p now r) := by
    rintro r rfl
    rw [handle_message hother, dispatch_of_read? hread]
  rw [troubledBy, heard?_of_read? hother hread]
  cases hsignal : n.signal with
  | answer sdp =>
      have hrefused := refused_onAnswer hengine hs.session now sdp
      rw [← hhandle _ (by rw [onPlain, hsignal])] at hrefused
      exact ⟨hs.refused hrefused, hrefused.belated he⟩
  | iceCandidate c =>
      have hrefused := refused_addIce hengine hs.session now c
      rw [← hhandle _ (by rw [onPlain, hsignal])] at hrefused
      exact ⟨hs.refused hrefused, hrefused.belated he⟩
  | bye =>
      obtain ⟨hended, hds⟩ := hungUp_farewell hengine hother hread hsignal now s
      refine ⟨hended, belated_of_added hds ?_ (by simp) he⟩
      exact List.forall_mem_singleton.mpr (Deed.saysAside_of_silent rfl)
  | chat text =>
      have hrests : Rests p s (s.handle p now (.message m)) := by
        rw [hhandle (tell (.chat n.sender text)) (by rw [onPlain, hsignal]),
          after_guarded_of_ok (outcome_tell _ _)]
        exact ⟨rfl, rfl, rfl, _, ⟨_, rfl, rfl⟩, List.forall_mem_singleton.mpr (.chat _ _)⟩
      exact ⟨hs.rests hrests, hrests.belated he⟩
  | identity key =>
      obtain ⟨t, ho, hrests⟩ := rests_onIdentity p now s n.sender key
      rw [← after_guarded_of_ok ho, ← hhandle _ (by rw [onPlain, hsignal])] at hrests
      exact ⟨hs.rests hrests, hrests.belated he⟩
  | unknown =>
      have hrests : Rests p s (s.handle p now (.message m)) := by
        rw [hhandle (pure ()) (by rw [onPlain, hsignal]), after_guarded_of_ok (outcome_pure _ _)]
        exact .refl s
      exact ⟨hs.rests hrests, hrests.belated he⟩
  | _ =>
      rw [hsignal] at hlate
      cases hlate

/-- The watchdog is due only in trouble, and leaves it as it is. -/
theorem HungUp.watchdog (hengine : p.engine = Probe.engine host) (hs : HungUp p trouble s)
    (harmed : s.watchdog ≠ none) (now : Instant) :
    trouble = true ∧ HungUp p trouble (s.handle p now .watchdog) ∧
      Belated p now .watchdog s (s.handle p now .watchdog) := by
  cases trouble with
  | false => exact absurd (hs.idle rfl).2 harmed
  | true =>
      have hhandle := handle_watchdog_of_closed hengine hs.session hs.closed now
      refine ⟨rfl, ?_⟩
      cases hrole : p.role with
      | joiner =>
          simp only [hrole] at hhandle
          have hhost : ¬ p.role = .host := by
            rw [hrole]
            exact Role.noConfusion
          have hds : Added s (s.handle p now .watchdog) [] := added_nil (by rw [hhandle])
          rw [hhandle] at hds ⊢
          refine ⟨⟨hs.session, hs.closed, fun h => absurd h Bool.noConfusion,
            fun _ => ⟨(hs.failed rfl).1, fun h => absurd h hhost⟩⟩, ?_, ?_,
            fun _ h => absurd h hhost⟩
          · rw [hds.deedsSince_eq]
            exact List.forall_mem_nil _
          · rw [hds.deedsSince_eq]
            exact iff_of_false List.not_mem_nil fun h => hhost h.2
      | host =>
          simp only [hrole] at hhandle
          have hds : Added s (s.handle p now .watchdog) [.notice .handover, .engine .restartIce,
              .notice (.failed (.media .restartingIce .noSession))] := by
            rw [hhandle]
            refine ⟨[(.reconnecting, .notice .handover), (.reconnecting, .engine .restartIce),
              (.failed, .notice (.failed (.media .restartingIce .noSession)))], ?_, rfl⟩
            simp only [Session.noting, List.append_assoc, List.cons_append, List.nil_append]
          rw [hhandle] at hds ⊢
          refine ⟨⟨hs.session, hs.closed, fun h => absurd h Bool.noConfusion,
            fun _ => ⟨rfl, fun _ => ⟨_, rfl⟩⟩⟩,
            ?_, ?_, fun _ _ => watchdog_noting _ rfl⟩
          · rw [hds.deedsSince_eq]
            simp only [List.forall_mem_cons]
            exact ⟨Deed.saysAside_of_silent rfl, Deed.saysAside_of_silent rfl,
              Deed.saysAside_of_silent rfl, List.forall_mem_nil _⟩
          · rw [hds.deedsSince_eq]
            exact iff_of_true (List.mem_cons_self ..) ⟨rfl, hrole⟩

/-- **After an event that comes late the call is still over**, with or without trouble. -/
theorem HungUp.step (hengine : p.engine = Probe.engine host) (hs : HungUp p trouble s)
    (he : e.Late p) (hdue : e = .watchdog → s.watchdog ≠ none) (now : Instant) :
    HungUp p (troubledBy p trouble e) (s.handle p now e) ∧
      Belated p now e s (s.handle p now e) := by
  have hrests : ∀ {e : Event}, e ≠ .watchdog → p.heard? e = none →
      Rests p s (s.handle p now e) → HungUp p (troubledBy p trouble e) (s.handle p now e) ∧
        Belated p now e s (s.handle p now e) := by
    intro e he hunheard h
    rw [troubledBy, hunheard]
    exact ⟨hs.rests h, h.belated he⟩
  cases he with
  | @own m hown =>
      refine hrests Event.noConfusion (heard?_own hown) ?_
      rw [handle_own hown]
      exact .refl s
  | @passedOver m h =>
      refine hrests Event.noConfusion (heard?_of_passesOver h) ?_
      by_cases hown : m.sender = p.sender
      · rw [handle_own hown]
        exact .refl s
      · rw [handle_of_passesOver hown h]
        exact .refl s
  | @read m n hread hlate =>
      by_cases hown : m.sender = p.sender
      · refine hrests Event.noConfusion (heard?_own hown) ?_
        rw [handle_own hown]
        exact .refl s
      · exact hs.read hengine hown hread hlate now
  | closed => exact hrests Event.noConfusion rfl (.refl s)
  | candidate hsuite hsize =>
      exact hrests Event.noConfusion rfl (rests_sendGuarded hsuite hsize rfl)
  | chat hsuite hsize => exact hrests Event.noConfusion rfl (rests_sendGuarded hsuite hsize rfl)
  | watchdog => exact (hs.watchdog hengine (hdue rfl) now).2

/-! ## Runs -/

/-- The watchdog comes only when it is armed and due. -/
def DueIn (p : Party Probe) (s : Session Probe) (run : List (Instant × Event)) : Prop :=
  ∀ k now, run[k]? = some (now, .watchdog) →
    ∃ deadline, (s.handleAll p (run.take k)).watchdog = some deadline ∧ deadline ≤ now

section
variable {run : List (Instant × Event)} {k : Nat}

theorem handleAll_take_succ (hk : run[k]? = some (now, e)) :
    s.handleAll p (run.take (k + 1)) = (s.handleAll p (run.take k)).handle p now e := by
  simp [Session.handleAll, List.take_add_one, hk]

theorem troubled_take_succ (hk : run[k]? = some (now, e)) :
    troubled p (run.take (k + 1)) = troubledBy p (troubled p (run.take k)) e := by
  simp [troubled, List.take_add_one, hk]

theorem DueIn.armed (h : DueIn p s run) (hk : run[k]? = some (now, e)) :
    e = .watchdog → (s.handleAll p (run.take k)).watchdog ≠ none := by
  rintro rfl hnone
  obtain ⟨deadline, harmed, -⟩ := h k now hk
  rw [hnone] at harmed
  cases harmed

/-- **The call stays over**, and it is in trouble exactly while an answer or a network path has come
since the last farewell. -/
theorem HungUp.handleAll (hengine : p.engine = Probe.engine host) (hs : HungUp p false s)
    (hlate : ∀ x ∈ run, x.2.Late p) (hdue : DueIn p s run) (k : Nat) :
    HungUp p (troubled p (run.take k)) (s.handleAll p (run.take k)) := by
  induction k with
  | zero => exact hs
  | succ k ih =>
      cases hk : run[k]? with
      | none =>
          have hsame : run.take (k + 1) = run.take k := by
            rw [List.take_add_one, hk, Option.toList_none, List.append_nil]
          rw [hsame]
          exact ih
      | some x =>
          rw [handleAll_take_succ hk, troubled_take_succ hk]
          exact (ih.step hengine (hlate x (List.mem_of_getElem? hk)) (hdue.armed hk) x.1).1

end

/-- **A hang-up lasts until an answer or a network path comes late.** Whatever the state of a
session was, the peer says farewell, and after that come messages that begin no call, what the
session's own side has to say, and the watchdog when it is due. Then the media engine stays closed,
and nothing is sent but asides: no offer among them. The call is idle and the watchdog disarmed exactly as long as
no answer and no network path has come since the last farewell; after that the call has failed, and
the watchdog of a host is armed. Only then the watchdog is ever due; a host hands over each time and
arms it again. -/
theorem hang_up_lasts_until_trouble (hengine : p.engine = Probe.engine host) (s : Session Probe)
    (now : Instant) (hother : m.sender ≠ p.sender) (hread : p.read? m = some n)
    (hbye : n.signal = .bye) (run : List (Instant × Event)) (hlate : ∀ x ∈ run, x.2.Late p)
    (hdue : DueIn p (s.handle p now (.message m)) run) :
    let after k := (s.handle p now (.message m)).handleAll p (run.take k)
    (∀ k, HungUp p (troubled p (run.take k)) (after k)) ∧
    (∀ k, (after k).stage = .idle ∧ (after k).watchdog = none ↔
      troubled p (run.take k) = false) ∧
    ∀ k now e, run[k]? = some (now, e) → Belated p now e (after k) (after (k + 1)) ∧
      (e = .watchdog → troubled p (run.take k) = true) := by
  intro after
  have hover : ∀ k, HungUp p (troubled p (run.take k)) (after k) :=
    (hungUp_farewell hengine hother hread hbye now s).1.handleAll hengine hlate hdue
  refine ⟨hover, ?_, ?_⟩
  · intro k
    refine ⟨fun hidle => ?_, (hover k).idle⟩
    cases htrouble : troubled p (run.take k) with
    | false => rfl
    | true =>
        have hfailed := ((hover k).failed htrouble).1
        rw [hidle.1] at hfailed
        cases hfailed
  · intro k now e hk
    have harmed := hdue.armed hk
    have hsucc : after (k + 1) = (after k).handle p now e := handleAll_take_succ hk
    refine ⟨?_, ?_⟩
    · rw [hsucc]
      exact ((hover k).step hengine (hlate _ (List.mem_of_getElem? hk)) harmed now).2
    · rintro rfl
      exact ((hover k).watchdog hengine (harmed rfl) now).1

/-! ## A network path that comes late -/

/-- A host's call, before anybody announces itself. -/
def waitingHost : Session Probe := (Session.start (.start 1)).bind plainHost 0 0

/-- The peer's farewell. -/
def farewell : Message := ⟨"joiner", .bye⟩

/-- A network path comes behind the farewell, and then the grace period passes. -/
def latePath : List (Instant × Event) :=
  [(2, .message ⟨"joiner", .iceCandidate ⟨"candidate", none, none⟩⟩), (5000000002, .watchdog)]

/-- The host's call when that much of it has happened. -/
def hungUpHost (k : Nat) : Session Probe :=
  (waitingHost.handle plainHost 1 (.message farewell)).handleAll plainHost (latePath.take k)

theorem dueIn_latePath :
    DueIn plainHost (waitingHost.handle plainHost 1 (.message farewell)) latePath := by
  intro k now hk
  match k with
  | 0 => cases hk
  | 1 =>
      cases hk
      exact ⟨5000000002, by decide +kernel, Nat.le_refl _⟩
  | _ + 2 => cases hk

/-- The farewell is undone: the call fails, the watchdog is armed, and the host hands over. -/
theorem late_path_undoes_hang_up :
    (hungUpHost 0).stage = .idle ∧ (hungUpHost 0).watchdog = none ∧
      (hungUpHost 1).stage = .failed ∧ (hungUpHost 1).watchdog = some 5000000002 ∧
        Deed.notice .handover ∈ deedsSince (hungUpHost 1) (hungUpHost 2) := by
  decide +kernel

/-- With one network path that comes late, the host hands over and its watchdog is armed again. -/
theorem hang_up_lasts_until_trouble_latePath :
    DueIn plainHost (waitingHost.handle plainHost 1 (.message farewell)) latePath ∧
      (∀ k, HungUp plainHost (troubled plainHost (latePath.take k)) (hungUpHost k)) ∧
        Belated plainHost 5000000002 .watchdog (hungUpHost 1) (hungUpHost 2) := by
  have hlate : ∀ x ∈ latePath, x.2.Late plainHost := by
    simp only [latePath, List.forall_mem_cons]
    exact ⟨.read (Party.read?_of_plain rfl) rfl, .watchdog, List.forall_mem_nil _⟩
  have hengine : plainHost.engine = Probe.engine (.v4 127 0 0 1) := rfl
  have hother : farewell.sender ≠ plainHost.sender := by decide
  obtain ⟨hover, -, hbelated⟩ := hang_up_lasts_until_trouble hengine waitingHost 1 hother
    (Party.read?_of_plain rfl) rfl latePath hlate dueIn_latePath
  exact ⟨dueIn_latePath, hover, (hbelated 1 5000000002 .watchdog rfl).1⟩

end PeerCall.Handshake
