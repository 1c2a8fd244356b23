import PeerCall.Proofs.Handshake.Negotiation

/-!
# What each event makes a side say

In a negotiation without chat of the application, each event makes a side say a few words that are
known, and a word may make the other side reply. Words are weighed by the turns that they can still
lead to, and so are the things that a side has still to do. Every event costs a turn: what it weighs
on its own covers the words said, what is left to do, and the turn itself.
-/
namespace PeerCall.Handshake

/-! ## Weights -/

/-- The turns that a word can still lead to, by who says it. -/
def weight (speaker : Role) : Signal → Nat
  | .offer _ => 6
  | .answer _ => 2
  | .join => match speaker with
    | .host => 2
    | .joiner => 1
  | _ => 1

def weigh (speaker : Role) : List Signal → Nat
  | [] => 0
  | signal :: words => weight speaker signal + weigh speaker words

theorem weight_pos (speaker : Role) (signal : Signal) : 1 ≤ weight speaker signal := by
  cases signal with
  | join => cases speaker <;> decide
  | _ => simp only [weight]; decide

theorem length_le_weigh (speaker : Role) (words : List Signal) :
    words.length ≤ weigh speaker words := by
  induction words with
  | nil => exact Nat.le_refl _
  | cons signal words ih =>
      have hpos := weight_pos speaker signal
      rw [weigh, List.length_cons]
      omega

@[simp] theorem weigh_append (speaker : Role) (words words' : List Signal) :
    weigh speaker (words ++ words') = weigh speaker words + weigh speaker words' := by
  induction words with
  | nil => rw [List.nil_append, weigh, Nat.zero_add]
  | cons signal words ih => rw [List.cons_append, weigh, weigh, ih, Nat.add_assoc]

/-- A turn that a session owes for a key that it does not know yet. -/
def keyless (s : Session Probe) : Nat := if s.peerKey = none then 1 else 0

/-- A turn that news of the media engine takes. -/
def news (s t : Session Probe) : Nat := if t.media.report = s.media.report then 0 else 1

/-- What a session made of an event: it said these words, it left its stage only with the media, it
announced itself only in these words, it dropped no network path, and it used no more than this
allowance. -/
structure Reply (p q : Party Probe) (s t : Session Probe) (words : List Signal)
    (allowance : Nat) : Prop where
  utters : Utters p q s t words
  waits : t.media.report.value = .ready → s.media.report.value = .ready ∧ t.stage = s.stage
  lastJoin : t.lastJoin = s.lastJoin ∨ .join ∈ words
  gathered : s.media.gathered.length ≤ t.media.gathered.length
  cost : weigh p.role words + keyless t + 2 * t.media.gathered.length + news s t + 1 ≤
    keyless s + 2 * s.media.gathered.length + allowance

section
variable {limit allowance : Nat} {host hostAt joinerAt : Net.Address} {h j p q : Party Probe}
  {v w s : Session Probe} {words : List Signal} {now : Instant} {r : Reaction Probe Unit}
  {signal : Signal} {m : Message} {heard : List Message} {mode : CallMode} {sdp : String}

theorem Runs.reply (h : Runs p q r s.bare () w words)
    (hwaits : w.media.report.value = .ready → s.media.report.value = .ready ∧ w.stage = s.stage)
    (hjoin : w.lastJoin = s.lastJoin ∨ .join ∈ words)
    (hgathered : s.media.gathered.length ≤ w.media.gathered.length)
    (hcost : weigh p.role words + keyless w + 2 * w.media.gathered.length + news s w + 1 ≤
      keyless s + 2 * s.media.gathered.length + allowance) :
    Reply p q s (s.after r) words allowance := by
  obtain ⟨hbare, hutters⟩ := h.after
  subst hbare
  exact ⟨hutters, hwaits, hjoin, hgathered, hcost⟩

/-- A session that an event leaves as it is. -/
theorem Runs.reply_same (h : Runs p q r s.bare () s.bare words) :
    Reply p q s (s.after r) words (weigh p.role words + 1) := by
  have hnews : news s s.bare = 0 := if_pos rfl
  refine h.reply (fun hready => ⟨hready, rfl⟩) (Or.inl rfl) (Nat.le_refl _) ?_
  rw [hnews]
  change _ + keyless s + 2 * s.media.gathered.length + 0 + 1 ≤ _
  omega

theorem news_le (s t : Session Probe) : news s t ≤ 1 := by
  unfold news
  split <;> omega

/-- A session that has used its media engine. -/
theorem Runs.reply_grown {paths changes : Nat} (h : Runs p q r s.bare () w words)
    (hw : Grown s.bare w paths) (hnews : news s w ≤ changes)
    (hwaits : w.media.report.value = .ready → s.media.report.value = .ready ∧ w.stage = s.stage) :
    Reply p q s (s.after r) words (weigh p.role words + 2 * paths + changes + 1) := by
  have hkey : keyless w = keyless s := by
    have hkey : w.peerKey = s.peerKey := hw.peerKey
    rw [keyless, keyless, hkey]
  have hgathered : w.media.gathered.length = s.media.gathered.length + paths := hw.gathered
  refine h.reply hwaits (Or.inl hw.lastJoin) (by omega) ?_
  rw [hkey, hgathered]
  omega

/-- A reply within a larger allowance. -/
theorem Reply.within {t : Session Probe} {allowance' : Nat} (h : Reply p q s t words allowance)
    (hle : allowance ≤ allowance') : Reply p q s t words allowance' :=
  ⟨h.utters, h.waits, h.lastJoin, h.gathered, Nat.le_trans h.cost (Nat.add_le_add_left hle _)⟩

/-! ## Words for any side -/

/-- A side tells its key if sealing is on. -/
def ownKey (p : Party Probe) : List Signal :=
  if p.config.encryptSignaling then [.identity p.keypair.publicKey] else []

theorem weigh_ownKey_le (speaker : Role) (p : Party Probe) : weigh speaker (ownKey p) ≤ 1 := by
  unfold ownKey
  split
  · exact Nat.le_refl _
  · exact Nat.zero_le _

theorem eq_of_mem_ownKey (h : signal ∈ ownKey p) : signal = .identity p.keypair.publicKey := by
  unfold ownKey at h
  split at h
  · exact List.mem_singleton.mp h
  · cases h

/-- What a side says when its channel connects. -/
def greeting (p : Party Probe) : List Signal :=
  ownKey p ++ (.join :: p.config.readyMessage.toList.map .chat)

/-- **A side that sees its channel connected greets**, and waits for its peer. -/
theorem runs_onConnected (he : Equipped limit host p) (hu : Understood limit p q)
    (hs : Steady limit p q v) (hpre : v.stage.isPreNegotiation = true) :
    Runs p q (onConnected p now) v () { v with stage := .peerFound, lastJoin := some now }
      (greeting p) := by
  let v₁ : Session Probe := { v with stage := .peerFound }
  let w : Session Probe := { v₁ with lastJoin := some now }
  have hidentity : Runs p q (sendIdentity p now) v₁ () v₁ [.identity p.keypair.publicKey] :=
    runs_sendGuarded hu hs.trusts (sendable_of_open rfl) rfl
  have hannounce : Runs p q (announce p now) v₁ () w [.join] := by
    have hnote : Runs p q (modify fun s => { s with lastJoin := some now }) v₁ () w [] :=
      runs_modify (fun _ => rfl) fun _ => rfl
    exact hnote.silent (runs_sendGuarded hu hs.trusts (sendable_of_open rfl) rfl)
  have hfind : Runs p q findPeer v () v₁ [] := by
    rintro s rfl
    have hwaits : (s.stage.isPreNegotiation || decide (s.stage = .reconnecting)) = true := by
      rw [show s.stage.isPreNegotiation = true from hpre, Bool.true_or]
    refine ⟨{ s with stage := .peerFound }, ?_, rfl, utters_nil rfl⟩
    rw [outcome_findPeer, if_pos hwaits]
  have hintroduce : Runs p q (introduce p now) v₁ () v₁ (ownKey p) := by
    unfold introduce ownKey
    split
    · exact hidentity
    · exact runs_pure ()
  have hready : Runs p q (declareReady p now) w () w (p.config.readyMessage.toList.map .chat) := by
    unfold declareReady
    split
    · rename_i text htext
      rw [htext]
      exact runs_sendGuarded hu hs.trusts (he.ready text htext) rfl
    · rename_i htext
      rw [htext]
      exact runs_pure ()
  rw [onConnected_eq]
  exact hfind.silent (hintroduce.bind (hannounce.bind hready))

/-- A side passes on what its media engine reports. -/
theorem reply_candidate (hu : Understood limit p q)
    (hs : Steady limit p q s.bare) {c : IceCandidate} (hc : c ∈ s.media.gathered) :
    Reply p q s (s.handle p now (.candidate c)) [.iceCandidate c] 2 := by
  have hruns : Runs p q (sendGuarded p now (.iceCandidate c)) s.bare () s.bare [.iceCandidate c] :=
    runs_sendGuarded hu hs.trusts (hs.gathered c hc) rfl
  exact hruns.reply_same

/-- News of the media engine makes a side say nothing. -/
theorem reply_engine (hs : Steady limit p q s.bare) (hv : Settled s.bare) :
    Reply p q s (s.handle p now (.engine s.media.report.value)) [] 1 := by
  have hruns : Runs p q (onEngineState p now s.media.report.value) s.bare () s.bare [] :=
    runs_onEngineState hs hv.report_ne hv.linked
  exact hruns.reply_same

/-- A network path of the peer is counted. -/
theorem reply_addIce (he : Equipped limit host p) (hu : Understood limit p q)
    (hs : Steady limit p q s.bare) {c : IceCandidate}
    (hread : p.read? m = some ⟨q.sender, .iceCandidate c⟩) :
    Reply p q s (s.handle p now (.message m)) [] 1 := by
  obtain ⟨ps, hsession, -⟩ := hs.session
  let media : Probe := { s.media with
    session := some { ps with remoteCandidates := ps.remoteCandidates + 1 } }
  have hadd : p.engine.addIce c s.bare.media = (.ok (), media) := by
    rw [he.engine]
    exact Probe.addIce_of_session hsession
  have hplain : Runs p q (onPlain p now ⟨q.sender, .iceCandidate c⟩) s.bare ()
      { s.bare with media } [] := runs_engage hadd
  have hnews : news s { s.bare with media } = 0 := if_pos rfl
  refine (runs_onMessage hread hu.senders.symm hplain).reply (fun hready => ⟨hready, rfl⟩)
    (Or.inl rfl) (Nat.le_refl _) ?_
  rw [hnews]
  change 0 + keyless s + 2 * s.media.gathered.length + 0 + 1 ≤ _
  omega

/-- Chat is passed on to the application. -/
theorem reply_chat (hu : Understood limit p q) {text : String}
    (hread : p.read? m = some ⟨q.sender, .chat text⟩) :
    Reply p q s (s.handle p now (.message m)) [] 1 := by
  have hplain : Runs p q (onPlain p now ⟨q.sender, .chat text⟩) s.bare () s.bare [] :=
    runs_tell rfl
  exact (runs_onMessage hread hu.senders.symm hplain).reply_same

/-- A key that is known already is not answered. -/
theorem reply_known_key (now : Instant) (hu : Understood limit p q)
    (hread : p.read? m = some ⟨q.sender, .identity q.keypair.publicKey⟩)
    (hknown : s.peerKey = some q.keypair.publicKey) :
    Reply p q s (s.handle p now (.message m)) [] 1 := by
  have hplain : Runs p q (onPlain p now ⟨q.sender, .identity q.keypair.publicKey⟩) s.bare ()
      s.bare [] := by
    refine runs_get fun t ht => ?_
    have hkey : t.peerKey = some q.keypair.publicKey := by
      have hbare : t.bare.peerKey = s.bare.peerKey := by rw [ht]
      exact hbare.trans hknown
    rw [if_neg (not_not_intro hkey)]
    exact runs_pure ()
  exact (runs_onMessage hread hu.senders.symm hplain).reply_same

/-- A new key is answered, and then it is known. -/
theorem reply_new_key (now : Instant) (hu : Understood limit p q)
    (hread : p.read? m = some ⟨q.sender, .identity q.keypair.publicKey⟩)
    (hnone : s.peerKey = none) :
    Reply p q s (s.handle p now (.message m)) (ownKey p) 1 := by
  let w : Session Probe := { s.bare with peerKey := some q.keypair.publicKey }
  have hlearn : Runs p q (modify fun s => { s with peerKey := some q.keypair.publicKey })
      s.bare () w [] := runs_modify (fun _ => rfl) fun _ => rfl
  have hsend : Runs p q (if p.config.encryptSignaling = true then sendIdentity p now
      else pure ()) w () w (ownKey p) := by
    unfold ownKey
    split
    · exact runs_sendGuarded hu (Or.inr rfl) (sendable_of_open rfl) rfl
    · exact runs_pure ()
  have hplain : Runs p q (onPlain p now ⟨q.sender, .identity q.keypair.publicKey⟩) s.bare () w
      (ownKey p) := by
    refine runs_get fun t ht => ?_
    have hkey : t.peerKey = none := by
      have hbare : t.bare.peerKey = s.bare.peerKey := by rw [ht]
      exact hbare.trans hnone
    rw [hkey, if_pos (Option.some_ne_none _).symm]
    exact hlearn.silent ((runs_tell rfl).silent hsend)
  have hkeyless : keyless s = 1 := if_pos hnone
  have hkeyless' : keyless w = 0 := if_neg (Option.some_ne_none _)
  have hnews : news s w = 0 := if_pos rfl
  have hweigh := weigh_ownKey_le p.role p
  refine (runs_onMessage hread hu.senders.symm hplain).reply
    (fun hready => ⟨hready, rfl⟩) (Or.inl rfl) (Nat.le_refl _) ?_
  rw [hkeyless, hkeyless', hnews]
  change _ + 0 + 2 * s.media.gathered.length + 0 + 1 ≤ _
  omega

/-- A key is answered with a key, if it is new and sealing is on. -/
theorem reply_identity (now : Instant) (hu : Understood limit p q) (hs : Steady limit p q s.bare)
    (hread : p.read? m = some ⟨q.sender, .identity q.keypair.publicKey⟩) :
    ∃ words, Reply p q s (s.handle p now (.message m)) words 1 ∧
      ∀ signal ∈ words, ∃ key, signal = .identity key := by
  rcases hs.trusts with hnone | hknown
  · exact ⟨_, reply_new_key now hu hread hnone, fun _ h => ⟨_, eq_of_mem_ownKey h⟩⟩
  · exact ⟨[], reply_known_key now hu hread hknown, fun _ h => absurd h List.not_mem_nil⟩

/-! ## Words of a host -/

/-- The turns that an offer can still lead to, as long as there was none. -/
def reserve (j : Party Probe) (s : Session Probe) : Nat := if s.offers j = 0 then 10 else 0

/-- What a host made of a message: it announces itself to nobody, offers only when the joiner
announces itself, and keeps to what the message and the offer to come can cost. -/
structure HostReply (h j : Party Probe) (signal : Signal) (s t : Session Probe)
    (words : List Signal) (allowance : Nat) : Prop where
  reply : Reply h j s t words allowance
  quiet : .join ∉ words
  offers : signal ≠ .join → t.offers j = s.offers j
  allowed : allowance + reserve j t ≤ weight .joiner signal + reserve j s

/-- A host that does not offer. -/
theorem Reply.modest {t : Session Probe} (h' : Reply h j s t words 1) (hquiet : .join ∉ words)
    (hwords : ∀ signal ∈ words, ¬ isOffer signal = true) : HostReply h j signal s t words 1 := by
  have hoffers := offers_of_modest h'.utters.said_eq hwords
  refine ⟨h', hquiet, fun _ => hoffers, ?_⟩
  rw [reserve, reserve, hoffers]
  exact Nat.add_le_add_right (weight_pos .joiner signal) _

/-- The joiner's announcement makes a host offer that has not yet. -/
theorem reply_first_join (now : Instant) (he : Equipped limit hostAt h) (hu : Understood limit h j)
    (hrole : h.role = .host) (hs : Steady limit h j s.bare) (hopening : Opening s.bare)
    (hread : h.read? m = some ⟨j.sender, .join⟩) (hzero : s.offers j = 0) :
    ∃ words allowance, HostReply h j .join s (s.handle h now (.message m)) words allowance := by
  obtain ⟨w, sdp, hruns, -, -, -, -, hoffering, hgrown⟩ := runs_startOffer now he hu hs hopening
  have hplain : Runs h j (onPlain h now ⟨j.sender, .join⟩) s.bare () w
      [.selectMode s.mode, .offer sdp] := by
    rw [onPlain_join now hrole]
    exact hruns
  have hreply := (runs_onMessage hread hu.senders.symm hplain).reply_grown hgrown
    (news_le _ _) fun hready => by rw [hoffering.report] at hready; cases hready
  have hoffers : (s.handle h now (.message m)).offers j = s.offers j + 1 :=
    offers_of_said hreply.utters.said_eq
  refine ⟨_, _, hreply, ?_, fun h => absurd rfl h, ?_⟩
  · intro hjoin
    rcases List.mem_cons.mp hjoin with hjoin | hjoin
    · cases hjoin
    · cases List.mem_singleton.mp hjoin
  · rw [reserve, reserve, hoffers, hzero, hrole]
    exact Nat.le_refl _

/-- A host that has offered does not offer again. -/
theorem reply_other_join (now : Instant) (he : Equipped limit hostAt h) (hu : Understood limit h j)
    (hrole : h.role = .host) (hread : h.read? m = some ⟨j.sender, .join⟩)
    (hoffered : HasOffered j s) :
    HostReply h j .join s (s.handle h now (.message m)) [] 1 := by
  have hbusy : Runs h j (onPlain h now ⟨j.sender, .join⟩) s.bare () s.bare [] := by
    rw [onPlain_join now hrole]
    exact runs_startOffer_busy he (hoffered.stands.imp Offering.report Linking.report)
  exact (runs_onMessage hread hu.senders.symm hbusy).reply_same.modest List.not_mem_nil
    fun _ h => absurd h List.not_mem_nil

/-- An answer links the media of a host that has offered. -/
theorem reply_answer (now : Instant) (he : Equipped limit hostAt h) (hu : Understood limit h j)
    (hs : Steady limit h j s.bare) (hoffered : Offered s.bare)
    (hread : h.read? m = some ⟨j.sender, .answer sdp⟩) (hspeech : Probe.IsDescription sdp) :
    ∃ allowance, HostReply h j (.answer sdp) s (s.handle h now (.message m)) [] allowance := by
  obtain ⟨w, hruns, -, -, -, hlinking, hgrown⟩ := runs_onAnswer j now he hs hoffered hspeech
  have hplain : Runs h j (onPlain h now ⟨j.sender, .answer sdp⟩) s.bare () w [] := hruns
  have hreply := (runs_onMessage hread hu.senders.symm hplain).reply_grown hgrown (news_le _ _)
    fun hready => by rw [hlinking.report] at hready; cases hready
  have hoffers : (s.handle h now (.message m)).offers j = s.offers j :=
    offers_of_said hreply.utters.said_eq
  refine ⟨_, hreply, List.not_mem_nil, fun _ => hoffers, ?_⟩
  rw [reserve, reserve, hoffers]
  exact Nat.le_refl _

/-- **What a host says to a message of the joiner.** -/
theorem HostPart.reply (now : Instant) (he : Equipped limit hostAt h) (hu : Understood limit h j)
    (hrole : h.role = .host) (hs : HostPart limit h j s heard)
    (hread : h.read? m = some ⟨j.sender, signal⟩) (hspeech : JoinerSays j signal)
    (hanswered : ∀ answer, signal = .answer answer → s.offers j = 1) :
    ∃ words allowance,
      HostReply h j signal s (s.handle h now (.message m)) words allowance := by
  have hnothing : ∀ signal ∈ ([] : List Signal), ¬ isOffer signal = true :=
    fun _ h => absurd h List.not_mem_nil
  cases signal with
  | join =>
      rcases hs.phase with ⟨hzero, hopening⟩ | hoffered
      · exact reply_first_join now he hu hrole hs.steady hopening hread hzero
      · exact ⟨[], 1, reply_other_join now he hu hrole hread hoffered⟩
  | answer sdp =>
      have hoffered := hs.hasOffered (hanswered sdp rfl)
      exact ⟨[], reply_answer now he hu hs.steady hoffered.offered hread hspeech⟩
  | iceCandidate c =>
      exact ⟨[], 1, (reply_addIce he hu hs.steady hread).modest List.not_mem_nil hnothing⟩
  | chat text => exact ⟨[], 1, (reply_chat hu hread).modest List.not_mem_nil hnothing⟩
  | identity key =>
      have hkey : key = j.keypair.publicKey := hspeech
      subst hkey
      obtain ⟨words, hreply, hwords⟩ := reply_identity now hu hs.steady hread
      refine ⟨words, 1, hreply.modest ?_ ?_⟩
      · intro hjoin
        obtain ⟨key, hkey⟩ := hwords _ hjoin
        cases hkey
      · intro signal hsignal
        obtain ⟨key, rfl⟩ := hwords signal hsignal
        exact Bool.false_ne_true
  | offer _ => exact absurd hspeech id
  | bye => exact absurd hspeech id
  | encrypted _ _ => exact absurd hspeech id
  | selectMode _ => exact absurd hspeech id
  | unknown => exact absurd hspeech id

/-! ## Words of a joiner -/

/-- A joiner that waits for the negotiation announces itself again, but not too soon. -/
theorem reply_join (now : Instant) (hu : Understood limit j h) (hrole : j.role = .joiner)
    (hs : Steady limit j h s.bare) (hread : j.read? m = some ⟨h.sender, .join⟩) :
    ∃ words, Reply j h s (s.handle j now (.message m)) words 2 ∧
      (.join ∈ words ↔ s.stage.isPreNegotiation = true ∧
        isRecent now j.config.rejoinInterval s.lastJoin = false) := by
  let again := s.stage.isPreNegotiation && !isRecent now j.config.rejoinInterval s.lastJoin
  have honMessage : ∀ {w words}, Runs j h (if again = true then announce j now else pure ())
      s.bare () w words → Runs j h (onMessage j now m) s.bare () w words := by
    intro w words hruns
    have honJoin : Runs j h (onJoin j now) s.bare () w words := by
      unfold onJoin
      rw [hrole]
      refine runs_get fun t ht => ?_
      have hstage : t.bare.stage = s.bare.stage := by rw [ht]
      have hjoin : t.bare.lastJoin = s.bare.lastJoin := by rw [ht]
      rw [show t.stage = s.stage from hstage, show t.lastJoin = s.lastJoin from hjoin]
      exact hruns
    exact runs_onMessage hread hu.senders.symm honJoin
  have hiff : again = true ↔ s.stage.isPreNegotiation = true ∧
      isRecent now j.config.rejoinInterval s.lastJoin = false := by
    simp only [again, Bool.and_eq_true, Bool.not_eq_true']
  by_cases hagain : again = true
  · let w : Session Probe := { s.bare with lastJoin := some now }
    have hnote : Runs j h (modify fun s => { s with lastJoin := some now }) s.bare () w [] :=
      runs_modify (fun _ => rfl) fun _ => rfl
    have hannounce : Runs j h (announce j now) s.bare () w [.join] :=
      hnote.silent (runs_sendGuarded hu hs.trusts (sendable_of_open rfl) rfl)
    have hnews : news s w = 0 := if_pos rfl
    have hreply : Reply j h s (s.handle j now (.message m)) [.join] 2 := by
      have hmessage : Runs j h (onMessage j now m) s.bare () w [.join] :=
        honMessage (by rw [if_pos hagain]; exact hannounce)
      refine hmessage.reply
        (fun hready => ⟨hready, rfl⟩) (Or.inr List.mem_cons_self) (Nat.le_refl _) ?_
      rw [hnews, hrole]
      change 1 + keyless s + 2 * s.media.gathered.length + 0 + 1 ≤ _
      omega
    exact ⟨[.join], hreply, fun _ => hiff.mp hagain, fun _ => List.mem_cons_self⟩
  · have hsame : Runs j h (onMessage j now m) s.bare () s.bare [] :=
      honMessage (by rw [if_neg hagain]; exact runs_pure ())
    exact ⟨[], hsame.reply_same.within (Nat.le_succ 1), fun h => absurd h List.not_mem_nil,
      fun h => absurd (hiff.mpr h) hagain⟩

/-- **What a joiner says to a message of the host.** It announces itself again if the host does,
unless it has done so a short while ago. -/
theorem JoinerPart.reply (now : Instant) (he : Equipped limit joinerAt j)
    (hu : Understood limit j h) (hrole : j.role = .joiner)
    (hs : JoinerPart limit h j mode s heard) (hread : j.read? m = some ⟨h.sender, signal⟩)
    (hspeech : HostSays h mode signal) :
    ∃ words, Reply j h s (s.handle j now (.message m)) words (weight .host signal) ∧
      (.join ∈ words ↔ signal = .join ∧ s.stage.isPreNegotiation = true ∧
        isRecent now j.config.rejoinInterval s.lastJoin = false) := by
  have hsilent : ∀ {signal : Signal}, signal ≠ .join → ∀ {words : List Signal},
      .join ∉ words → (.join ∈ words ↔ signal = .join ∧ s.stage.isPreNegotiation = true ∧
        isRecent now j.config.rejoinInterval s.lastJoin = false) := by
    intro signal hsignal words hwords
    exact ⟨fun h => absurd h hwords, fun h => absurd h.1 hsignal⟩
  cases signal with
  | join =>
      obtain ⟨words, hreply, hwords⟩ := reply_join now hu hrole hs.steady hread
      exact ⟨words, hreply, hwords.trans (and_iff_right rfl).symm⟩
  | selectMode selected =>
      obtain ⟨w, hruns, -, -, hstage, hreport, -, hgrown⟩ :=
        runs_onMode h he hs.steady hrole selected
      have hplain : Runs j h (onPlain j now ⟨h.sender, .selectMode selected⟩) s.bare () w [] :=
        hruns
      have hnews : news s w = 0 := if_pos hreport
      have hmessage : Runs j h (onMessage j now m) s.bare () w [] :=
        runs_onMessage hread hu.senders.symm hplain
      have hreply := hmessage.reply_grown hgrown (Nat.le_of_eq hnews) fun hready =>
        ⟨by rw [← hready, hreport]; rfl, hstage⟩
      exact ⟨[], hreply, hsilent Signal.noConfusion List.not_mem_nil⟩
  | offer sdp =>
      obtain ⟨w, answer, hruns, -, -, -, hlinking, hgrown⟩ :=
        runs_onOffer now he hu hs.steady hspeech
      have hplain : Runs j h (onPlain j now ⟨h.sender, .offer sdp⟩) s.bare () w
        [.answer answer] := hruns
      have hreply := (runs_onMessage hread hu.senders.symm hplain).reply_grown hgrown (news_le _ _)
        fun hready => by rw [hlinking.report] at hready; cases hready
      exact ⟨_, hreply, hsilent Signal.noConfusion fun h => nomatch List.mem_singleton.mp h⟩
  | iceCandidate c =>
      exact ⟨[], reply_addIce he hu hs.steady hread, hsilent Signal.noConfusion List.not_mem_nil⟩
  | chat text => exact ⟨[], reply_chat hu hread, hsilent Signal.noConfusion List.not_mem_nil⟩
  | identity key =>
      have hkey : key = h.keypair.publicKey := hspeech
      subst hkey
      obtain ⟨words, hreply, hwords⟩ := reply_identity now hu hs.steady hread
      refine ⟨words, hreply, hsilent Signal.noConfusion fun hjoin => ?_⟩
      obtain ⟨key, hkey⟩ := hwords _ hjoin
      cases hkey
  | answer _ => exact absurd hspeech id
  | bye => exact absurd hspeech id
  | encrypted _ _ => exact absurd hspeech id
  | unknown => exact absurd hspeech id

end

end PeerCall.Handshake
