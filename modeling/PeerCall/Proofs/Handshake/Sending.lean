import PeerCall.Proofs.Handshake.HangUp

/-!
# What a session sends on an event, and what it notes of it

A session sends a signal in one form, in the clear or sealed, and no two signals have the same form.
On any event but a farewell it sends few kinds of signals, in a known order, each at most once. It
notes the moment of an offer and of an announcement on every path on which it sends one, and on no
other, whatever fails before or after.
-/
namespace PeerCall.Handshake

open Crypto

variable {σ α β : Type} {p : Party σ} {now : Instant} {s s' t u : Session σ}
  {words words' : List Signal} {tags : List Tag} {signal : Signal} {m : Message} {e : Event}

/-! ## The form in which a session sends a signal -/

/-- The form in which a session sends a signal; what cannot be sealed has none. -/
def Session.form? (p : Party σ) (s : Session σ) (signal : Signal) : Option Message :=
  (outcome (dress p signal) s).1.toOption

/-- The form depends on the peer's key and on the envelopes sealed so far. -/
theorem form?_congr (hkey : t.peerKey = s.peerKey) (hcount : t.sealedCount = s.sealedCount) :
    t.form? p = s.form? p := by
  funext signal
  rw [Session.form?, Session.form?, outcome_dress, outcome_dress, hkey, hcount]
  cases s.peerKey with
  | none => rfl
  | some key =>
      dsimp only
      split
      · split <;> rfl
      · rfl

theorem outcome_dress_of_open (h : isConfidential signal = false) (p : Party σ) (s : Session σ) :
    outcome (dress p signal) s = (.ok ⟨p.sender, signal⟩, s) := by
  rw [outcome_dress, h]
  cases s.peerKey with
  | none => rfl
  | some key => simp only [Bool.false_and, Bool.false_eq_true, if_false]

theorem form?_of_open (h : isConfidential signal = false) (s : Session σ) :
    s.form? p signal = some ⟨p.sender, signal⟩ := by
  rw [Session.form?, outcome_dress_of_open h]
  rfl

/-- A form is the message itself or an envelope around it. -/
theorem form?_clear_or_sealed (h : s.form? p signal = some m) : m = ⟨p.sender, signal⟩ ∨
    ∃ key, s.peerKey = some key ∧
      Message.sealFor p.suite key (p.ephemeral s.sealedCount) ⟨p.sender, signal⟩ = .ok m := by
  rw [Session.form?, outcome_dress] at h
  cases hkey : s.peerKey with
  | none =>
      rw [hkey] at h
      cases h
      exact Or.inl rfl
  | some key =>
      rw [hkey] at h
      dsimp only at h
      split at h
      · split at h
        · rename_i envelope hseal
          cases h
          exact Or.inr ⟨key, rfl, hseal⟩
        · cases h
      · cases h
        exact Or.inl rfl

/-- **A form tells the signal.** No two signals leave a session in the same form. -/
theorem eq_of_form? (hsuite : p.suite.Invertible) {a b : Signal} (ha : a.isEnvelope = false)
    (hb : b.isEnvelope = false) (hforma : s.form? p a = some m) (hformb : s.form? p b = some m) :
    a = b := by
  rcases form?_clear_or_sealed hforma with rfl | ⟨key, hkey, hseal⟩
  · rcases form?_clear_or_sealed hformb with hclear | ⟨key, -, hseal⟩
    · exact congrArg Message.signal hclear
    · have henvelope := (Message.openWith_of_sealFor hsuite hseal).1
      exact absurd (ha.symm.trans henvelope) Bool.false_ne_true
  · rcases form?_clear_or_sealed hformb with rfl | ⟨key', hkey', hseal'⟩
    · have henvelope := (Message.openWith_of_sealFor hsuite hseal).1
      exact absurd (hb.symm.trans henvelope) Bool.false_ne_true
    · cases hkey.symm.trans hkey'
      exact congrArg Message.signal (Message.eq_of_sealFor hsuite hseal hseal')

/-! ## What is sent, and what is noted -/

/-- From a session to a later one these signals are sent, each in its form, and nothing else; an
offer and an announcement among them are noted, and no others are. -/
structure Speaks (p : Party σ) (now : Instant) (words : List Signal) (s s' : Session σ) : Prop where
  sent : ∃ ds, Added s s' ds ∧ (ds.filterMap Deed.message?).map some = words.map (s.form? p)
  offerSentAt : s'.offerSentAt =
    if Tag.offer ∈ words.map Signal.tag then some now else s.offerSentAt
  lastJoin : s'.lastJoin = if Tag.join ∈ words.map Signal.tag then some now else s.lastJoin

/-- Nothing of what is said counts as an envelope, so what is sent next has the form that it would
have had before. -/
structure SpeaksOpenly (p : Party σ) (now : Instant) (words : List Signal) (s s' : Session σ) :
    Prop extends Speaks p now words s s' where
  peerKey : s'.peerKey = s.peerKey
  sealedCount : s'.sealedCount = s.sealedCount

/-- Nothing is sent or noted. -/
abbrev Still (p : Party σ) (now : Instant) (s s' : Session σ) : Prop := SpeaksOpenly p now [] s s'

/-- What is said first and what is said then are noted like what is said at once. -/
theorem noted_append (words words' : List Signal) (tag : Tag) (now : Instant)
    (note : Option Instant) :
    (if tag ∈ words'.map Signal.tag then some now
      else if tag ∈ words.map Signal.tag then some now else note) =
      if tag ∈ (words ++ words').map Signal.tag then some now else note := by
  by_cases hfirst : tag ∈ words.map Signal.tag <;>
    by_cases hsecond : tag ∈ words'.map Signal.tag <;>
      simp only [List.map_append, List.mem_append, hfirst, hsecond, or_true, true_or, or_self,
        if_true, if_false]

theorem SpeaksOpenly.speaks (h : SpeaksOpenly p now words s t) (h' : Speaks p now words' t u) :
    Speaks p now (words ++ words') s u := by
  obtain ⟨ds, hds, hsent⟩ := h.sent
  obtain ⟨es, hes, hsent'⟩ := h'.sent
  refine ⟨⟨ds ++ es, hds.trans hes, ?_⟩, ?_, ?_⟩
  · rw [List.filterMap_append, List.map_append, List.map_append, hsent, hsent',
      form?_congr h.peerKey h.sealedCount]
  · rw [h'.offerSentAt, h.offerSentAt]
    exact noted_append _ _ _ _ _
  · rw [h'.lastJoin, h.lastJoin]
    exact noted_append _ _ _ _ _

theorem SpeaksOpenly.trans (h : SpeaksOpenly p now words s t)
    (h' : SpeaksOpenly p now words' t u) : SpeaksOpenly p now (words ++ words') s u :=
  ⟨h.speaks h'.toSpeaks, h'.peerKey.trans h.peerKey, h'.sealedCount.trans h.sealedCount⟩

/-- Whatever follows in silence changes nothing. -/
theorem Speaks.still (h : Speaks p now words s t) (h' : Still p now t u) :
    Speaks p now words s u := by
  obtain ⟨ds, hds, hsent⟩ := h.sent
  obtain ⟨es, hes, hsilent⟩ := h'.sent
  refine ⟨⟨ds ++ es, hds.trans hes, ?_⟩, h'.offerSentAt.trans h.offerSentAt,
    h'.lastJoin.trans h.lastJoin⟩
  rw [List.filterMap_append, List.map_append, hsent, hsilent, List.map_nil, List.append_nil]

theorem speaks_nothing {ds : List Deed} (hadded : Added s s' ds)
    (hsilent : ∀ d ∈ ds, d.message? = none) (hoffer : s'.offerSentAt = s.offerSentAt)
    (hjoin : s'.lastJoin = s.lastJoin) : Speaks p now [] s s' := by
  refine ⟨⟨ds, hadded, ?_⟩, by simpa using hoffer, by simpa using hjoin⟩
  rw [List.filterMap_eq_nil_iff.mpr hsilent]
  rfl

/-- One signal is sent, and noted if it is one that is noted. -/
theorem speaks_signal {ds : List Deed} (hform : s.form? p signal = some m)
    (hadded : Added s s' ds) (hsent : ds.filterMap Deed.message? = [m])
    (hoffer : s'.offerSentAt = if signal.tag = .offer then some now else s.offerSentAt)
    (hjoin : s'.lastJoin = if signal.tag = .join then some now else s.lastJoin) :
    Speaks p now [signal] s s' := by
  refine ⟨⟨ds, hadded, ?_⟩, ?_, ?_⟩
  · rw [hsent, List.map_singleton, List.map_singleton, hform]
  · simpa only [List.map_singleton, List.mem_singleton, eq_comm] using hoffer
  · simpa only [List.map_singleton, List.mem_singleton, eq_comm] using hjoin

theorem still_added {ds : List Deed} (hadded : Added s s' ds)
    (hsilent : ∀ d ∈ ds, d.message? = none) (hoffer : s'.offerSentAt = s.offerSentAt)
    (hjoin : s'.lastJoin = s.lastJoin) (hkey : s'.peerKey = s.peerKey)
    (hcount : s'.sealedCount = s.sealedCount) : Still p now s s' :=
  ⟨speaks_nothing hadded hsilent hoffer hjoin, hkey, hcount⟩

theorem still_of_eq (hlog : s'.log = s.log) (hoffer : s'.offerSentAt = s.offerSentAt)
    (hjoin : s'.lastJoin = s.lastJoin) (hkey : s'.peerKey = s.peerKey)
    (hcount : s'.sealedCount = s.sealedCount) : Still p now s s' :=
  still_added (added_nil hlog) (List.forall_mem_nil _) hoffer hjoin hkey hcount

theorem Still.refl (s : Session σ) : Still p now s s := still_of_eq rfl rfl rfl rfl rfl

theorem Still.trans (h : Still p now s t) (h' : Still p now t u) : Still p now s u :=
  SpeaksOpenly.trans h h'

/-! ## Parts that send nothing -/

section
variable {r : Reaction σ α} {f : α → Reaction σ β}

theorem still_bind (hr : Within (Still p now) r) (hf : ∀ a, Within (Still p now) (f a)) :
    Within (Still p now) (r >>= f) :=
  hr.bind Still.trans hf

theorem still_pure (a : α) : Within (Still p now) (pure a : Reaction σ α) :=
  within_pure Still.refl a

theorem still_throw (e : Failure) : Within (Still p now) (throw e : Reaction σ α) :=
  within_throw Still.refl e

theorem still_get : Within (Still p now) (get : Reaction σ (Session σ)) := within_get Still.refl

theorem still_enter (stage : Stage) : Within (Still p now) (enter stage : Reaction σ Unit) :=
  within_modify fun _ => still_of_eq rfl rfl rfl rfl rfl

theorem still_does {d : Deed} (h : d.message? = none) :
    Within (Still p now) (does d : Reaction σ Unit) :=
  fun s => still_added (added_does d s) (List.forall_mem_singleton.mpr h) rfl rfl rfl rfl

theorem still_tell (n : Notice) : Within (Still p now) (tell n : Reaction σ Unit) :=
  still_does rfl

theorem still_engage (call : EngineCall) (during : Activity) (run : σ → Except MediaError α × σ) :
    Within (Still p now) (engage call during run : Reaction σ α) := by
  intro s
  have hcall : ∀ media, Still p now s
      { s with media, log := s.log ++ [(s.stage, .engine call)] } := fun media =>
    still_added ⟨[(s.stage, .engine call)], rfl, rfl⟩ (List.forall_mem_singleton.mpr rfl)
      rfl rfl rfl rfl
  rw [outcome_engage]
  rcases run s.media with ⟨_ | _, media⟩
  · exact hcall media
  · exact hcall media

theorem still_setUp (during : Activity) : Within (Still p now) (setUp p during) :=
  still_bind still_get fun _ => still_engage _ _ _

theorem still_setUpForOffer : Within (Still p now) (setUpForOffer p) := by
  refine still_bind still_get fun s => ?_
  split
  · exact still_setUp _
  · exact still_pure _

theorem still_renewOffer : Within (Still p now) (renewOffer p) := by
  unfold renewOffer
  split
  · exact still_engage _ _ _
  · exact still_engage _ _ _

theorem still_fail (failure : Failure) : Within (Still p now) (fail p now failure) :=
  still_bind (still_enter _) fun _ => still_bind (still_tell _) fun _ =>
    within_modify fun _ => still_of_eq rfl rfl rfl rfl rfl

theorem still_onEngineState (state : EngineState) :
    Within (Still p now) (onEngineState p now state) := by
  unfold onEngineState
  split
  · exact still_bind (within_modify fun _ => still_of_eq rfl rfl rfl rfl rfl) fun _ => still_enter _
  · exact still_fail _
  · exact still_pure _

theorem still_settle : Within (Still p now) (settle p now) := by
  refine still_bind still_get fun s => ?_
  split
  · exact still_onEngineState _
  · exact still_pure _

theorem still_onMode (mode : CallMode) : Within (Still p now) (onMode p mode) := by
  unfold onMode
  split
  · exact still_pure _
  · exact still_bind (within_modify fun _ => still_of_eq rfl rfl rfl rfl rfl) fun _ =>
      still_bind (still_tell _) fun _ => still_setUp _

theorem still_onAnswer (sdp : String) : Within (Still p now) (onAnswer p now sdp) :=
  still_bind (still_enter _) fun _ => still_bind (still_engage _ _ _) fun _ => still_settle

theorem still_findPeer : Within (Still p now) (findPeer : Reaction σ Unit) := by
  refine still_bind still_get fun s => ?_
  split
  · exact still_enter _
  · exact still_pure _

end

/-! ## Parts that send -/

/-- The signals of which a session notes when it sent them. -/
def isNoted : Signal → Bool
  | .join | .offer _ => true
  | _ => false

theorem tag_of_isNoted (h : isNoted signal = false) :
    signal.tag ≠ .offer ∧ signal.tag ≠ .join := by
  cases signal with
  | join => cases h
  | offer sdp => cases h
  | selectMode mode => cases mode <;> decide
  | _ => simp [Signal.tag]

/-- At most signals of these kinds are sent, in this order. -/
def Says (p : Party σ) (now : Instant) (tags : List Tag) (s s' : Session σ) : Prop :=
  ∃ words, (words.map Signal.tag).Sublist tags ∧ Speaks p now words s s'

theorem Still.toSays (h : Still p now s s') : Says p now tags s s' :=
  ⟨[], List.nil_sublist _, h.toSpeaks⟩

theorem Still.before (h : Still p now s t) (h' : Says p now tags t u) : Says p now tags s u := by
  obtain ⟨words, hwords, hspeaks⟩ := h'
  exact ⟨words, hwords, h.speaks hspeaks⟩

theorem Says.still (h : Says p now tags s t) (h' : Still p now t u) : Says p now tags s u := by
  obtain ⟨words, hwords, hspeaks⟩ := h
  exact ⟨words, hwords, hspeaks.still h'⟩

section
variable {r : Reaction σ α} {f : α → Reaction σ β}

theorem says_of_still (h : Within (Still p now) r) : Within (Says p now tags) r :=
  h.mono fun _ _ => Still.toSays

theorem says_after_still (hr : Within (Still p now) r) (hf : ∀ a, Within (Says p now tags) (f a)) :
    Within (Says p now tags) (r >>= f) := by
  intro s
  obtain ⟨o, t, ho, hfirst⟩ := hr.result s
  rw [outcome_bind, ho]
  cases o with
  | error e => exact hfirst.toSays
  | ok a => exact hfirst.before (hf a t)

theorem says_before_still (hr : Within (Says p now tags) r)
    (hf : ∀ a, Within (Still p now) (f a)) : Within (Says p now tags) (r >>= f) := by
  intro s
  obtain ⟨o, t, ho, hfirst⟩ := hr.result s
  rw [outcome_bind, ho]
  cases o with
  | error e => exact hfirst
  | ok a => exact hfirst.still (hf a t)

/-- A failure is noted in silence. -/
theorem says_guarded {r : Reaction σ Unit} (h : Within (Says p now tags) r) :
    Within (Says p now tags) (guarded p now r) := by
  intro s
  obtain ⟨o, t, ho, hfirst⟩ := h.result s
  rw [guarded, outcome_tryCatch, ho]
  cases o with
  | ok a => exact hfirst
  | error e => exact hfirst.still (still_fail e t)

end

/-- Posting sends a signal in its form, or fails if there is none. -/
theorem outcome_post_form (p : Party σ) (everywhere : Bool) (signal : Signal) (s : Session σ) :
    ∃ count, (∃ m, s.form? p signal = some m ∧ outcome (post p everywhere signal) s =
        (.ok (), { s with
          sealedCount := count, log := s.log ++ [(s.stage, .send s.channel everywhere m)] })) ∨
      ∃ cause, outcome (post p everywhere signal) s =
        (.error cause, { s with sealedCount := count }) := by
  have hdress : ∃ o count, outcome (dress p signal) s = (o, { s with sealedCount := count }) := by
    rw [outcome_dress]
    split
    · split
      · split
        · exact ⟨_, _, rfl⟩
        · exact ⟨_, _, rfl⟩
      · exact ⟨_, s.sealedCount, rfl⟩
    · exact ⟨_, s.sealedCount, rfl⟩
  obtain ⟨o, count, ho⟩ := hdress
  refine ⟨count, ?_⟩
  rw [post, outcome_bind, ho, Session.form?, ho]
  cases o with
  | ok m => exact Or.inl ⟨m, rfl, rfl⟩
  | error cause => exact Or.inr ⟨cause, rfl⟩

/-- What needs no seal is sent as it is. -/
theorem outcome_post_open (h : isConfidential signal = false) (p : Party σ) (everywhere : Bool)
    (s : Session σ) : outcome (post p everywhere signal) s = (.ok (), { s with
      log := s.log ++ [(s.stage, .send s.channel everywhere ⟨p.sender, signal⟩)] }) := by
  rw [post, outcome_bind, outcome_dress_of_open h]
  rfl

theorem says_send {tag : Tag} (h : isNoted signal = false) (htag : signal.tag = tag) :
    Within (Says p now [tag]) (send p signal) := by
  subst htag
  intro s
  rw [send]
  obtain ⟨count, ⟨m, hform, ho⟩ | ⟨cause, ho⟩⟩ := outcome_post_form p false signal s
  · rw [ho]
    exact ⟨[signal], List.Sublist.refl _,
      speaks_signal hform ⟨_, rfl, rfl⟩ rfl
        (if_neg (tag_of_isNoted h).1).symm (if_neg (tag_of_isNoted h).2).symm⟩
  · rw [ho]
    exact ⟨[], List.nil_sublist _, speaks_nothing (added_nil rfl) (List.forall_mem_nil _) rfl rfl⟩

theorem says_sendGuarded {tag : Tag} (h : isNoted signal = false) (htag : signal.tag = tag) :
    Within (Says p now [tag]) (sendGuarded p now signal) :=
  says_guarded (says_send h htag)

/-- An offer that is sent is noted at once, and one that cannot be sent is not. -/
theorem says_notedOffer (everywhere : Bool) (sdp : String) :
    Within (Says p now [.offer]) (do
      post p everywhere (.offer sdp)
      modify fun s => { s with offerSentAt := some now }) := by
  intro s
  rw [outcome_bind]
  obtain ⟨count, ⟨m, hform, ho⟩ | ⟨cause, ho⟩⟩ := outcome_post_form p everywhere (.offer sdp) s
  · rw [ho]
    exact ⟨[.offer sdp], List.Sublist.refl _, speaks_signal hform ⟨_, rfl, rfl⟩ rfl rfl rfl⟩
  · rw [ho]
    exact ⟨[], List.nil_sublist _, speaks_nothing (added_nil rfl) (List.forall_mem_nil _) rfl rfl⟩

/-- A session that has sent a signal in the clear, over whatever paths. -/
theorem speaksOpenly_send (hopen : isConfidential signal = false) (h : isNoted signal = false)
    (p : Party σ) (now : Instant) (everywhere : Bool) (s : Session σ) :
    SpeaksOpenly p now [signal] s { s with
      log := s.log ++ [(s.stage, .send s.channel everywhere ⟨p.sender, signal⟩)] } :=
  ⟨speaks_signal (form?_of_open hopen s) ⟨_, rfl, rfl⟩ rfl (if_neg (tag_of_isNoted h).1).symm
    (if_neg (tag_of_isNoted h).2).symm, rfl, rfl⟩

/-- Announcing cannot fail, and the moment is noted. -/
theorem announces (p : Party σ) (now : Instant) (s : Session σ) :
    ∃ t, outcome (announce p now) s = (.ok (), t) ∧ SpeaksOpenly p now [.join] s t := by
  refine ⟨{ s with
    lastJoin := some now
    log := s.log ++ [(s.stage, .send s.channel false ⟨p.sender, .join⟩)] }, ?_, ?_⟩
  · rw [announce, outcome_bind, outcome_modify]
    dsimp only
    rw [sendGuarded, guarded, outcome_tryCatch, send, outcome_post_open rfl]
  · exact ⟨speaks_signal (form?_of_open rfl s) ⟨_, rfl, rfl⟩ rfl rfl rfl, rfl, rfl⟩

/-! ## Reactions -/

/-- At most what kinds of signals a session replies to one that it reads, in this order. -/
def Party.replies (p : Party σ) : Signal → List Tag
  | .join => match p.role with
    | .host => [.voiceCall, .videoCall, .offer]
    | .joiner => [.join]
  | .offer _ => [.answer]
  | .identity _ => [.identity]
  | _ => []

/-- At most what kinds of signals a session sends on an event, in this order. -/
def Party.kinds (p : Party σ) (e : Event) : List Tag :=
  match e with
  | .channel .connected => [.identity, .join, .message]
  | .message _ => (p.heard? e).elim [] p.replies
  | .candidate _ => [.iceCandidate]
  | .chat _ => [.message]
  | .watchdog => [.offer]
  | .channel _ | .engine _ => []

theorem says_startOffer : Within (Says p now [.voiceCall, .videoCall, .offer])
    (startOffer p now) := by
  refine says_after_still still_get fun s => ?_
  split
  · refine says_after_still still_setUpForOffer fun _ => says_after_still still_get fun t => ?_
    have hoffer : Within (Says p now [.offer]) (do
        enter .exchangingOffer
        let sdp ← engage .createOffer .creatingOffer p.engine.createOffer
        send p (.offer sdp)
        modify fun s => { s with offerSentAt := some now }
        enter .gatheringCandidates) := by
      refine says_after_still (still_enter _) fun _ => says_after_still (still_engage _ _ _)
        fun sdp => ?_
      have hnoted : Within (Says p now [.offer]) ((do
          post p false (.offer sdp)
          modify fun s => { s with offerSentAt := some now }) >>= fun _ =>
            enter .gatheringCandidates) :=
        says_before_still (says_notedOffer false sdp) fun _ => still_enter _
      rwa [bind_assoc] at hnoted
    -- The mode goes out in the clear, so the offer has the form that it had before.
    intro v
    have hmode : SpeaksOpenly p now [.selectMode t.mode] v _ :=
      speaksOpenly_send rfl rfl p now false v
    rw [outcome_bind, send, outcome_post_open rfl]
    obtain ⟨words, hwords, hspeaks⟩ := hoffer
      { v with log := v.log ++ [(v.stage, .send v.channel false ⟨p.sender, .selectMode t.mode⟩)] }
    refine ⟨.selectMode t.mode :: words, ?_, hmode.speaks hspeaks⟩
    cases t.mode with
    | voice => exact .cons_cons _ (.cons _ hwords)
    | video => exact .cons _ (.cons_cons _ hwords)
  · exact says_of_still (still_pure _)

theorem says_onJoin : Within (Says p now (p.replies .join)) (onJoin p now) := by
  rw [onJoin, Party.replies]
  cases p.role with
  | host => exact says_startOffer
  | joiner =>
      refine says_after_still still_get fun s => ?_
      dsimp only
      split
      · intro t
        obtain ⟨u, ho, hspeaks⟩ := announces p now t
        rw [ho]
        exact ⟨[.join], List.Sublist.refl _, hspeaks.toSpeaks⟩
      · exact says_of_still (still_pure _)

theorem says_onOffer (sdp : String) : Within (Says p now [.answer]) (onOffer p now sdp) := by
  refine says_after_still (still_enter _) fun _ => says_after_still still_setUpForOffer fun _ => ?_
  refine says_after_still (still_engage _ _ _) fun _ => says_after_still (still_enter _) fun _ => ?_
  refine says_after_still (still_engage _ _ _) fun answer => ?_
  exact says_before_still (says_send rfl rfl) fun _ =>
    still_bind (still_enter _) fun _ => still_settle

/-- A new key changes the form of what is sent, but not that of one's own key. -/
theorem says_onIdentity (sender : String) (key : PublicKey) :
    Within (Says p now [.identity]) (onIdentity p now sender key) := by
  intro s
  rw [onIdentity, outcome_bind, outcome_get]
  dsimp only
  split
  · rw [outcome_bind, outcome_modify]
    dsimp only
    rw [outcome_bind, outcome_tell]
    dsimp only
    split
    · rw [outcome_sendIdentity]
      exact ⟨[.identity p.keypair.publicKey], List.Sublist.refl _,
        speaks_signal (form?_of_open rfl s)
          (show Added s _ [.notice (.peerIdentified sender), .send s.channel false p.introduction]
            from ⟨_, List.append_assoc .., rfl⟩) rfl rfl rfl⟩
    · exact ⟨[], List.nil_sublist _, speaks_nothing ⟨[(s.stage, .notice (.peerIdentified sender))],
        rfl, rfl⟩ (List.forall_mem_singleton.mpr rfl) rfl rfl⟩
  · exact (Still.refl s).toSays

/-- A farewell is taken up in silence; it is the one thing that makes a session forget. -/
theorem says_onPlain {n : Message} (hbye : n.signal ≠ .bye) :
    Within (Says p now (p.replies n.signal)) (onPlain p now n) := by
  unfold onPlain
  cases hn : n.signal with
  | join => exact says_onJoin
  | offer sdp => exact says_onOffer sdp
  | identity key => exact says_onIdentity _ key
  | bye => exact absurd hn hbye
  | selectMode mode => exact says_of_still (still_onMode mode)
  | answer sdp => exact says_of_still (still_onAnswer sdp)
  | iceCandidate c => exact says_of_still (still_engage _ _ _)
  | chat text => exact says_of_still (still_tell _)
  | encrypted key payload => exact says_of_still (still_throw _)
  | unknown => exact says_of_still (still_pure _)

theorem says_onConnected : Within (Says p now [.identity, .join, .message]) (onConnected p now) := by
  intro s
  obtain ⟨t, ht⟩ : ∃ t, outcome findPeer s = (.ok (), t) := ⟨_, outcome_findPeer s⟩
  have hfound : Still p now s t := by
    have hstill : Still p now s (outcome findPeer s).2 := still_findPeer s
    rwa [ht] at hstill
  obtain ⟨u, words, hu, hwords, hintroduced⟩ : ∃ u words, outcome (introduce p now) t = (.ok (), u) ∧
      (words.map Signal.tag).Sublist [.identity] ∧ SpeaksOpenly p now words t u := by
    unfold introduce
    split
    · exact ⟨_, [.identity p.keypair.publicKey], outcome_sendIdentity p now t,
        List.Sublist.refl _, speaksOpenly_send rfl rfl p now false t⟩
    · exact ⟨t, [], rfl, List.nil_sublist _, Still.refl t⟩
  obtain ⟨v, hv, hannounced⟩ := announces p now u
  have hready : Within (Says p now [.message]) (declareReady p now) := by
    unfold declareReady
    split
    · exact says_sendGuarded rfl rfl
    · exact says_of_still (still_pure _)
  obtain ⟨words', hwords', hdeclared⟩ := hready v
  rw [onConnected_eq, outcome_bind, ht]
  dsimp only
  rw [outcome_bind, hu]
  dsimp only
  rw [outcome_bind, hv]
  refine ⟨words ++ ([.join] ++ words'), ?_, hfound.speaks
    (hintroduced.speaks (hannounced.speaks hdeclared))⟩
  rw [List.map_append, List.map_append]
  exact hwords.append ((List.Sublist.refl _).append hwords')

theorem says_onWatchdog : Within (Says p now [.offer]) (onWatchdog p now) := by
  have hdisarm : Within (Still p now) (modify fun s => { s with watchdog := none }) :=
    within_modify fun _ => still_of_eq rfl rfl rfl rfl rfl
  refine says_after_still hdisarm fun _ => says_after_still still_get fun s => ?_
  split
  · exact says_of_still still_settle
  · split
    · exact says_of_still (still_pure _)
    · refine says_after_still (still_enter _) fun _ => says_after_still (still_tell _) fun _ => ?_
      exact says_guarded (says_after_still still_renewOffer fun sdp => says_notedOffer true sdp)

/-- What a session does not read it passes over, or it notes a failure. -/
theorem still_dispatch (hread : p.read? m = none) : Within (Still p now) (dispatch p now m) := by
  have henvelope : m.signal.isEnvelope = true := by
    by_contra hplain
    rw [Party.read?, if_neg hplain] at hread
    cases hread
  unfold dispatch
  rw [if_pos henvelope]
  split
  · rename_i n hopen
    rw [Party.read?, if_pos henvelope, hopen] at hread
    cases hread
  · exact still_pure _
  · exact still_pure _
  · exact still_throw _

/-- **What a session sends on an event**: at most these kinds of signals, and its notes tell of an
offer and an announcement if and only if there is one among them. -/
theorem says_react (hbye : p.heard? e ≠ some .bye) :
    Within (Says p now (p.kinds e)) (react p now e) := by
  cases e with
  | channel state =>
      cases state with
      | connected => exact says_onConnected
      | _ =>
          refine says_after_still still_get fun s => ?_
          split
          · exact says_of_still (still_enter _)
          · exact says_of_still (still_pure _)
  | engine state => exact says_of_still (still_onEngineState state)
  | candidate c => exact says_sendGuarded rfl rfl
  | chat text => exact says_sendGuarded rfl rfl
  | watchdog => exact says_onWatchdog
  | message m =>
      change Within _ (onMessage p now m)
      unfold onMessage
      split
      · exact says_of_still (still_pure _)
      · rename_i hother
        refine says_guarded ?_
        cases hread : p.read? m with
        | none => exact says_of_still (still_dispatch hread)
        | some n =>
            have hheard := heard?_of_read? hother hread
            rw [hheard] at hbye
            rw [dispatch_of_read? hread, Party.kinds, hheard]
            exact says_onPlain fun h => hbye (congrArg some h)

end PeerCall.Handshake
