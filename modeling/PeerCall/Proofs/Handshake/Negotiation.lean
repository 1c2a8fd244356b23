import PeerCall.Proofs.Handshake.Opening
import PeerCall.Proofs.Handshake.Sides

/-!
# Negotiation of a host and a joiner

A host and a joiner with probe engines exchange what they send. Any message may arrive at any time
after it was sent, any number of times and in any order, and between the messages each side does
what it does on its own. Nothing of this fails; the host offers once, and where every message was
heard both sides are connected in the host's mode.
-/
namespace PeerCall.Handshake

open Crypto

/-! ## Exchanges -/

/-- Two sessions, and the messages that each of them has heard. -/
structure Exchange where
  host : Session Probe
  joiner : Session Probe
  heardByHost : List Message
  heardByJoiner : List Message

/-- A host and a joiner, each with a probe engine, who understand each other. -/
structure Couple (limit : Nat) (hostAt joinerAt : Net.Address) (h j : Party Probe) : Prop where
  hostRole : h.role = .host
  joinerRole : j.role = .joiner
  host : Equipped limit hostAt h
  joiner : Equipped limit joinerAt j
  toJoiner : Understood limit h j
  toHost : Understood limit j h

/-- What can happen next. -/
inductive Move
  /-- Something happens to the host besides messages. -/
  | host (e : Event)
  /-- Something happens to the joiner besides messages. -/
  | joiner (e : Event)
  | toHost (m : Message)
  | toJoiner (m : Message)

namespace Exchange

/-- The exchange after a move. -/
def step (h j : Party Probe) (now : Instant) (x : Exchange) : Move → Exchange
  | .host e => { x with host := x.host.handle h now e }
  | .joiner e => { x with joiner := x.joiner.handle j now e }
  | .toHost m => { x with
      host := x.host.handle h now (.message m), heardByHost := m :: x.heardByHost }
  | .toJoiner m => { x with
      joiner := x.joiner.handle j now (.message m), heardByJoiner := m :: x.heardByJoiner }

/-- The moves that can happen: what was sent arrives, at any time and any number of times. -/
def Allows (limit : Nat) (h j : Party Probe) (now : Instant) (x : Exchange) : Move → Prop
  | .host e => Local limit h now x.host e
  | .joiner e => Local limit j now x.joiner e
  | .toHost m => m ∈ x.joiner.sent
  | .toJoiner m => m ∈ x.host.sent

/-- Both sessions were just bound. -/
def opened (h j : Party Probe) (hostId joinerId : UInt64) (now now' : Instant)
    (channel channel' : Nat) : Exchange :=
  ⟨(Session.start (Probe.start hostId)).bind h now channel,
    (Session.start (Probe.start joinerId)).bind j now' channel', [], []⟩

/-- Every message that either side sent was heard. -/
def Quiescent (x : Exchange) : Prop :=
  (∀ m ∈ x.joiner.sent, m ∈ x.heardByHost) ∧ ∀ m ∈ x.host.sent, m ∈ x.heardByJoiner

end Exchange

/-- The exchanges that a host and a joiner reach after both were bound. -/
inductive Reached (limit : Nat) (h j : Party Probe) : Exchange → Prop
  | opened (hostId joinerId : UInt64) (now now' : Instant) (channel channel' : Nat) :
      Reached limit h j (.opened h j hostId joinerId now now' channel channel')
  | step {x : Exchange} (now : Instant) (move : Move) (hx : Reached limit h j x)
      (hmove : x.Allows limit h j now move) : Reached limit h j (x.step h j now move)

/-- The signals that another device reads in what a session has sent. -/
def Session.said (q : Party Probe) (s : Session Probe) : List Signal :=
  s.sent.filterMap fun m => (q.read? m).map (·.signal)

/-- Whether a signal is an offer. -/
def isOffer : Signal → Bool
  | .offer _ => true
  | _ => false

/-- The offers that another device reads in what a session has sent. -/
def Session.offers (q : Party Probe) (s : Session Probe) : Nat := (s.said q).countP isOffer

/-! ## What was said -/

/-- A session has noted no failure, and all that it has sent is understood. -/
structure Clear (p q : Party Probe) (s : Session Probe) : Prop where
  fine : ∀ x ∈ s.log, x.2.isFailure = false
  read : ∀ m ∈ s.sent, ∃ signal, q.read? m = some ⟨p.sender, signal⟩

section
variable {p q : Party Probe} {s t : Session Probe} {words : List Signal} {m : Message}
  {signal : Signal}

theorem Clear.utters (hs : Clear p q s) (h : Utters p q s t words) : Clear p q t := by
  obtain ⟨entries, hlog, hfine, hread⟩ := h
  refine ⟨?_, ?_⟩
  · intro x hx
    rw [hlog] at hx
    rcases List.mem_append.mp hx with hx | hx
    · exact hs.fine x hx
    · exact hfine x hx
  · intro m hm
    rw [Session.sent, hlog, List.filterMap_append] at hm
    rcases List.mem_append.mp hm with hm | hm
    · exact hs.read m hm
    · have hmem := List.mem_map_of_mem (f := q.read?) hm
      rw [hread] at hmem
      obtain ⟨signal, -, hsignal⟩ := List.mem_map.mp hmem
      exact ⟨signal, hsignal.symm⟩

theorem Utters.said_eq (h : Utters p q s t words) : t.said q = s.said q ++ words := by
  obtain ⟨entries, hlog, -, hread⟩ := h
  rw [Session.said, Session.said, Session.sent, Session.sent, hlog, List.filterMap_append,
    List.filterMap_append]
  have hwords := congrArg (List.filterMap (Option.map Message.signal)) hread
  rw [List.filterMap_map, List.filterMap_map] at hwords
  rw [show List.filterMap (fun m => (q.read? m).map Message.signal)
    (entries.filterMap fun x => x.2.message?) = words from hwords.trans List.filterMap_some]

/-- What holds of all that was said before and of the new words holds of all that is said. -/
theorem Utters.forall_said {P : Signal → Prop} (h : Utters p q s t words)
    (hsaid : ∀ signal ∈ s.said q, P signal) (hwords : ∀ signal ∈ words, P signal) :
    ∀ signal ∈ t.said q, P signal := by
  rw [h.said_eq]
  exact List.forall_mem_append.mpr ⟨hsaid, hwords⟩

theorem mem_said (hm : m ∈ s.sent) (hread : q.read? m = some ⟨p.sender, signal⟩) :
    signal ∈ s.said q := by
  refine List.mem_filterMap.mpr ⟨m, hm, ?_⟩
  rw [hread]
  rfl

/-- What was said was sent in a message that the other side reads so. -/
theorem Clear.sent_of_said (hs : Clear p q s) (h : signal ∈ s.said q) :
    ∃ m ∈ s.sent, q.read? m = some ⟨p.sender, signal⟩ := by
  obtain ⟨m, hm, hsignal⟩ := List.mem_filterMap.mp h
  obtain ⟨signal', hread⟩ := hs.read m hm
  rw [hread] at hsignal
  cases hsignal
  exact ⟨m, hm, hread⟩

end

/-! ## The invariant -/

/-- What a host says, whose mode is given. -/
def HostSays (h : Party Probe) (mode : CallMode) : Signal → Prop
  | .selectMode selected => selected = mode
  | .offer sdp => Probe.IsDescription sdp
  | signal => SmallTalk h signal

/-- What a joiner says. -/
def JoinerSays (j : Party Probe) : Signal → Prop
  | .answer sdp => Probe.IsDescription sdp
  | signal => SmallTalk j signal

/-- A host has offered once, and told its mode: the offer waits, or the call is established. -/
structure HasOffered (j : Party Probe) (s : Session Probe) : Prop where
  once : s.offers j = 1
  told : .selectMode s.mode ∈ s.said j
  offered : Offered s.bare
  stands : Offering s.bare ∨ Linking s.bare

/-- What holds of a host that has heard these messages. -/
structure HostPart (limit : Nat) (h j : Party Probe) (s : Session Probe) (heard : List Message) :
    Prop where
  steady : Steady limit h j s.bare
  clear : Clear h j s
  speech : ∀ signal ∈ s.said j, HostSays h s.mode signal
  phase : (s.offers j = 0 ∧ Opening s.bare) ∨ HasOffered j s
  heardJoin : ∀ m ∈ heard, h.read? m = some ⟨j.sender, .join⟩ → HasOffered j s
  heardAnswer : ∀ m ∈ heard, ∀ sdp, h.read? m = some ⟨j.sender, .answer sdp⟩ → Linking s.bare

/-- What holds of a joiner that has heard these messages of a host in this mode. -/
structure JoinerPart (limit : Nat) (h j : Party Probe) (mode : CallMode) (s : Session Probe)
    (heard : List Message) : Prop where
  steady : Steady limit j h s.bare
  clear : Clear j h s
  speech : ∀ signal ∈ s.said h, JoinerSays j signal
  phase : Opening s.bare ∨ (Linking s.bare ∧ ∃ answer, .answer answer ∈ s.said h)
  heardMode : ∀ m ∈ heard, ∀ selected, j.read? m = some ⟨h.sender, .selectMode selected⟩ →
    s.mode = mode
  heardOffer : ∀ m ∈ heard, ∀ sdp, j.read? m = some ⟨h.sender, .offer sdp⟩ → Linking s.bare

/-- What holds of an exchange all the time. -/
structure Agreed (limit : Nat) (h j : Party Probe) (x : Exchange) : Prop where
  host : HostPart limit h j x.host x.heardByHost
  joiner : JoinerPart limit h j x.host.mode x.joiner x.heardByJoiner
  /-- Only an offer gets an answer. -/
  answered : ∀ answer, .answer answer ∈ x.joiner.said h → x.host.offers j = 1

section
variable {limit : Nat} {hostAt joinerAt : Net.Address} {h j p q : Party Probe} {mode : CallMode}
  {s : Session Probe} {heard : List Message} {m : Message} {signal : Signal} {now : Instant}
  {words : List Signal} {r : Reaction Probe Unit}

/-! ## Small talk and the invariant -/

theorem isOffer_of_smallTalk (h : SmallTalk p signal) : ¬ isOffer signal = true := by
  cases signal with
  | offer sdp => exact absurd h id
  | _ => exact Bool.false_ne_true

theorem hostSays_of_smallTalk (htalk : SmallTalk h signal) : HostSays h mode signal := by
  cases signal with
  | offer sdp => exact absurd htalk id
  | selectMode selected => exact absurd htalk id
  | _ => exact htalk

theorem joinerSays_of_smallTalk (htalk : SmallTalk j signal) : JoinerSays j signal := by
  cases signal with
  | answer sdp => exact absurd htalk id
  | _ => exact htalk

theorem chats_onMessage {v : Session Probe} (hread : p.read? m = some ⟨q.sender, signal⟩)
    (hother : q.sender ≠ p.sender) (h : Chats p q (onPlain p now ⟨q.sender, signal⟩) v) :
    Chats p q (onMessage p now m) v := by
  obtain ⟨w, words, hruns, hw, hwords⟩ := h
  exact ⟨w, words, runs_onMessage hread hother hruns, hw, hwords⟩

/-- The offers among the words add to those made before. -/
theorem offers_of_said {t : Session Probe} (hsaid : t.said j = s.said j ++ words) :
    t.offers j = s.offers j + words.countP isOffer := by
  rw [Session.offers, hsaid, List.countP_append]
  rfl

/-- Words without an offer. -/
theorem offers_of_modest {t : Session Probe} (hsaid : t.said j = s.said j ++ words)
    (hwords : ∀ signal ∈ words, ¬ isOffer signal = true) : t.offers j = s.offers j := by
  rw [offers_of_said hsaid, List.countP_eq_zero.mpr hwords]
  rfl

/-- Small talk holds no offers. -/
theorem offers_of_smallTalk {t : Session Probe} (hsaid : t.said j = s.said j ++ words)
    (hwords : ∀ signal ∈ words, SmallTalk h signal) : t.offers j = s.offers j :=
  offers_of_modest hsaid fun signal hsignal => isOffer_of_smallTalk (hwords signal hsignal)

theorem HasOffered.chats (hs : HasOffered j s) {t : Session Probe}
    (hsaid : t.said j = s.said j ++ words) (hwords : ∀ signal ∈ words, SmallTalk h signal)
    (ht : Undisturbed j s.bare t.bare) : HasOffered j t := by
  have hmode : t.mode = s.mode := ht.mode
  refine ⟨(offers_of_smallTalk hsaid hwords).trans hs.once, ?_, hs.offered.undisturbed ht, ?_⟩
  · rw [hsaid, hmode]
    exact List.mem_append_left _ hs.told
  · rcases hs.stands with hstands | hstands
    · exact Or.inl (hstands.undisturbed ht)
    · exact Or.inr (hstands.undisturbed ht)

/-- Small talk changes nothing for a host. -/
theorem HostPart.chats (hs : HostPart limit h j s heard) (hr : Chats h j r s.bare) :
    HostPart limit h j (s.after r) heard ∧ (s.after r).mode = s.mode ∧
      (s.after r).offers j = s.offers j := by
  obtain ⟨w, words, hruns, hw, hwords⟩ := hr
  obtain ⟨hbare, hutters⟩ := hruns.after
  rw [← hbare] at hw
  have hsaid := hutters.said_eq
  have hmode : (s.after r).mode = s.mode := hw.mode
  have hoffers : (s.after r).offers j = s.offers j := offers_of_smallTalk hsaid hwords
  refine ⟨⟨hs.steady.undisturbed hw, hs.clear.utters hutters, ?_, ?_, ?_, ?_⟩, hmode, hoffers⟩
  · rw [hmode]
    exact hutters.forall_said hs.speech fun signal hsignal =>
      hostSays_of_smallTalk (hwords signal hsignal)
  · rcases hs.phase with ⟨hzero, hopening⟩ | hoffered
    · exact Or.inl ⟨hoffers.trans hzero, hopening.undisturbed hw⟩
    · exact Or.inr (hoffered.chats hsaid hwords hw)
  · intro m hm hread
    exact (hs.heardJoin m hm hread).chats hsaid hwords hw
  · intro m hm sdp hread
    exact (hs.heardAnswer m hm sdp hread).undisturbed hw

/-- Small talk changes nothing for a joiner. -/
theorem JoinerPart.chats (hs : JoinerPart limit h j mode s heard) (hr : Chats j h r s.bare) :
    JoinerPart limit h j mode (s.after r) heard ∧
      ∀ answer, .answer answer ∈ (s.after r).said h → .answer answer ∈ s.said h := by
  obtain ⟨w, words, hruns, hw, hwords⟩ := hr
  obtain ⟨hbare, hutters⟩ := hruns.after
  rw [← hbare] at hw
  have hsaid := hutters.said_eq
  have hmode : (s.after r).mode = s.mode := hw.mode
  refine ⟨⟨hs.steady.undisturbed hw, hs.clear.utters hutters, ?_, ?_, ?_, ?_⟩, ?_⟩
  · exact hutters.forall_said hs.speech fun signal hsignal =>
      joinerSays_of_smallTalk (hwords signal hsignal)
  · rcases hs.phase with hopening | ⟨hlinking, answer, hanswer⟩
    · exact Or.inl (hopening.undisturbed hw)
    · refine Or.inr ⟨hlinking.undisturbed hw, answer, ?_⟩
      rw [hsaid]
      exact List.mem_append_left _ hanswer
  · intro m hm selected hread
    rw [hmode]
    exact hs.heardMode m hm selected hread
  · intro m hm sdp hread
    exact (hs.heardOffer m hm sdp hread).undisturbed hw
  · intro answer hanswer
    rw [hsaid] at hanswer
    rcases List.mem_append.mp hanswer with hanswer | hanswer
    · exact hanswer
    · exact absurd (hwords _ hanswer) id

/-! ## Messages to the host -/

theorem HasOffered.settled (hs : HasOffered j s) : Settled s.bare := Or.inr hs.stands

theorem HostPart.settled (hs : HostPart limit h j s heard) : Settled s.bare := by
  rcases hs.phase with ⟨-, hopening⟩ | hoffered
  · exact Or.inl hopening
  · exact hoffered.settled

theorem HostPart.hasOffered (hs : HostPart limit h j s heard) (honce : s.offers j = 1) :
    HasOffered j s := by
  rcases hs.phase with ⟨hzero, -⟩ | hoffered
  · rw [honce] at hzero
    cases hzero
  · exact hoffered

/-- One more message was heard. -/
theorem HostPart.hear (hs : HostPart limit h j s heard)
    (hread : h.read? m = some ⟨j.sender, signal⟩) (hjoin : signal = .join → HasOffered j s)
    (hanswer : ∀ sdp, signal = .answer sdp → Linking s.bare) :
    HostPart limit h j s (m :: heard) := by
  refine ⟨hs.steady, hs.clear, hs.speech, hs.phase, ?_, ?_⟩
  · intro n hn hread'
    rcases List.mem_cons.mp hn with rfl | hn
    · rw [hread] at hread'
      cases hread'
      exact hjoin rfl
    · exact hs.heardJoin n hn hread'
  · intro n hn sdp hsdp
    rcases List.mem_cons.mp hn with rfl | hn
    · rw [hread] at hsdp
      cases hsdp
      exact hanswer sdp rfl
    · exact hs.heardAnswer n hn sdp hsdp

/-- The first announcement that a host hears makes it offer. -/
theorem HostPart.join_opening (now : Instant) (he : Equipped limit hostAt h)
    (hu : Understood limit h j) (hrole : h.role = .host) (hs : HostPart limit h j s heard)
    (hzero : s.offers j = 0) (hopening : Opening s.bare)
    (hread : h.read? m = some ⟨j.sender, .join⟩) :
    HostPart limit h j (s.after (onMessage h now m)) heard ∧
      (s.after (onMessage h now m)).mode = s.mode ∧
      HasOffered j (s.after (onMessage h now m)) := by
  obtain ⟨w, sdp, hruns, hsdp, hsteady, hwmode, hoffered, hoffering, -⟩ :=
    runs_startOffer now he hu hs.steady hopening
  have hplain : Runs h j (onPlain h now ⟨j.sender, .join⟩) s.bare () w
      [.selectMode s.mode, .offer sdp] := by
    rw [onPlain_join now hrole]
    exact hruns
  obtain ⟨hbare, hutters⟩ := (runs_onMessage hread hu.senders.symm hplain).after
  have hsaid := hutters.said_eq
  generalize s.after (onMessage h now m) = t at *
  subst hbare
  have hmode : t.mode = s.mode := hwmode
  have honce : t.offers j = 1 := by
    rw [offers_of_said hsaid, hzero]
    rfl
  have hhas : HasOffered j t := by
    refine ⟨honce, ?_, hoffered, Or.inl hoffering⟩
    rw [hsaid, hmode]
    exact List.mem_append_right _ List.mem_cons_self
  refine ⟨⟨hsteady, hs.clear.utters hutters, ?_, Or.inr hhas, fun _ _ _ => hhas, ?_⟩, hmode, hhas⟩
  · rw [hmode]
    refine hutters.forall_said hs.speech ?_
    intro signal hsignal
    rcases List.mem_cons.mp hsignal with rfl | hsignal
    · rfl
    · rw [List.mem_singleton.mp hsignal]
      exact hsdp
  · intro n hn answer hanswer
    -- No answer was heard yet: it would have connected the host.
    have hlinking := hs.heardAnswer n hn answer hanswer
    have hreport := hlinking.report
    rw [hopening.report] at hreport
    cases hreport

/-- An answer connects the host. -/
theorem HostPart.answer (now : Instant) (he : Equipped limit hostAt h) (hu : Understood limit h j)
    (hs : HostPart limit h j s heard) (hoffered : HasOffered j s) {sdp : String}
    (hsdp : Probe.IsDescription sdp) (hread : h.read? m = some ⟨j.sender, .answer sdp⟩) :
    HostPart limit h j (s.after (onMessage h now m)) heard ∧
      (s.after (onMessage h now m)).mode = s.mode ∧
      HasOffered j (s.after (onMessage h now m)) ∧
      Linking (s.after (onMessage h now m)).bare := by
  obtain ⟨w, hruns, hsteady, hwmode, hstill, hlinking, -⟩ :=
    runs_onAnswer j now he hs.steady hoffered.offered hsdp
  have hplain : Runs h j (onPlain h now ⟨j.sender, .answer sdp⟩) s.bare () w [] := hruns
  obtain ⟨hbare, hutters⟩ := (runs_onMessage hread hu.senders.symm hplain).after
  have hsaid := hutters.said_eq
  generalize s.after (onMessage h now m) = t at *
  subst hbare
  have hmode : t.mode = s.mode := hwmode
  rw [List.append_nil] at hsaid
  have hhas : HasOffered j t := by
    refine ⟨?_, ?_, hstill, Or.inr hlinking⟩
    · rw [Session.offers, hsaid]
      exact hoffered.once
    · rw [hsaid, hmode]
      exact hoffered.told
  refine ⟨⟨hsteady, hs.clear.utters hutters, ?_, Or.inr hhas, fun _ _ _ => hhas,
    fun _ _ _ _ => hlinking⟩, hmode, hhas, hlinking⟩
  intro signal hsignal
  rw [hsaid] at hsignal
  rw [hmode]
  exact hs.speech signal hsignal

/-- An announcement makes a host offer, unless it has. -/
theorem HostPart.join (now : Instant) (he : Equipped limit hostAt h) (hu : Understood limit h j)
    (hrole : h.role = .host) (hs : HostPart limit h j s heard)
    (hread : h.read? m = some ⟨j.sender, .join⟩) :
    HostPart limit h j (s.after (onMessage h now m)) heard ∧
      (s.after (onMessage h now m)).mode = s.mode ∧
      HasOffered j (s.after (onMessage h now m)) := by
  rcases hs.phase with ⟨hzero, hopening⟩ | hoffered
  · exact hs.join_opening now he hu hrole hzero hopening hread
  · have hbusy : Chats h j (onPlain h now ⟨j.sender, .join⟩) s.bare := by
      rw [onPlain_join now hrole]
      refine chats_silent (runs_startOffer_busy he ?_) (Undisturbed.refl j _)
      exact hoffered.stands.imp Offering.report Linking.report
    obtain ⟨hpart, hmode, hoffers⟩ := hs.chats (chats_onMessage hread hu.senders.symm hbusy)
    exact ⟨hpart, hmode, hpart.hasOffered (hoffers.trans hoffered.once)⟩

/-- Small talk other than an announcement changes nothing for a host that hears it. -/
theorem HostPart.talk (now : Instant) (he : Equipped limit hostAt h) (hu : Understood limit h j)
    (hs : HostPart limit h j s heard) (hread : h.read? m = some ⟨j.sender, signal⟩)
    (hsmall : SmallTalk j signal) (hjoin : signal ≠ .join) :
    HostPart limit h j (s.after (onMessage h now m)) (m :: heard) ∧
      (s.after (onMessage h now m)).mode = s.mode ∧
      (s.offers j = 1 → (s.after (onMessage h now m)).offers j = 1) := by
  have hplain : Chats h j (onPlain h now ⟨j.sender, signal⟩) s.bare :=
    chats_onPlain he hu hs.steady hsmall fun h => absurd h hjoin
  obtain ⟨hpart, hmode, hoffers⟩ := hs.chats (chats_onMessage hread hu.senders.symm hplain)
  refine ⟨hpart.hear hread (fun h => absurd h hjoin) ?_, hmode, fun h => hoffers.trans h⟩
  intro sdp hsdp
  rw [hsdp] at hsmall
  exact absurd hsmall id

/-- **What a message of the joiner does to the host.** -/
theorem HostPart.message (now : Instant) (he : Equipped limit hostAt h) (hu : Understood limit h j)
    (hrole : h.role = .host) (hs : HostPart limit h j s heard)
    (hread : h.read? m = some ⟨j.sender, signal⟩) (hspeech : JoinerSays j signal)
    (hanswered : ∀ answer, signal = .answer answer → s.offers j = 1) :
    HostPart limit h j (s.handle h now (.message m)) (m :: heard) ∧
      (s.handle h now (.message m)).mode = s.mode ∧
      (s.offers j = 1 → (s.handle h now (.message m)).offers j = 1) := by
  have htalk := hs.talk now he hu hread
  cases signal with
  | join =>
      obtain ⟨hpart, hmode, hhas⟩ := hs.join now he hu hrole hread
      exact ⟨hpart.hear hread (fun _ => hhas) (fun _ h => nomatch h), hmode, fun _ => hhas.once⟩
  | answer sdp =>
      have hoffered := hs.hasOffered (hanswered sdp rfl)
      obtain ⟨hpart, hmode, hhas, hlinking⟩ := hs.answer now he hu hoffered hspeech hread
      exact ⟨hpart.hear hread (fun h => nomatch h) fun _ _ => hlinking, hmode, fun _ => hhas.once⟩
  | iceCandidate c => exact htalk trivial Signal.noConfusion
  | chat words => exact htalk trivial Signal.noConfusion
  | identity key => exact htalk hspeech Signal.noConfusion
  | offer _ => exact absurd hspeech id
  | bye => exact absurd hspeech id
  | encrypted _ _ => exact absurd hspeech id
  | selectMode _ => exact absurd hspeech id
  | unknown => exact absurd hspeech id

/-! ## Messages to the joiner -/

theorem JoinerPart.settled (hs : JoinerPart limit h j mode s heard) : Settled s.bare := by
  rcases hs.phase with hopening | ⟨hlinking, -⟩
  · exact Or.inl hopening
  · exact Or.inr (Or.inr hlinking)

/-- One more message was heard. -/
theorem JoinerPart.hear (hs : JoinerPart limit h j mode s heard)
    (hread : j.read? m = some ⟨h.sender, signal⟩)
    (hmode : ∀ selected, signal = .selectMode selected → s.mode = mode)
    (hoffer : ∀ sdp, signal = .offer sdp → Linking s.bare) :
    JoinerPart limit h j mode s (m :: heard) := by
  refine ⟨hs.steady, hs.clear, hs.speech, hs.phase, ?_, ?_⟩
  · intro n hn selected hselected
    rcases List.mem_cons.mp hn with rfl | hn
    · rw [hread] at hselected
      cases hselected
      exact hmode selected rfl
    · exact hs.heardMode n hn selected hselected
  · intro n hn sdp hsdp
    rcases List.mem_cons.mp hn with rfl | hn
    · rw [hread] at hsdp
      cases hsdp
      exact hoffer sdp rfl
    · exact hs.heardOffer n hn sdp hsdp

/-- A joiner takes the host's mode and stays where it is in the negotiation. -/
theorem JoinerPart.selectMode (now : Instant) (he : Equipped limit joinerAt j)
    (hu : Understood limit j h) (hrole : j.role = .joiner)
    (hs : JoinerPart limit h j mode s heard)
    (hread : j.read? m = some ⟨h.sender, .selectMode mode⟩) :
    JoinerPart limit h j mode (s.after (onMessage j now m)) heard ∧
      (s.after (onMessage j now m)).mode = mode ∧
      (s.after (onMessage j now m)).said h = s.said h := by
  obtain ⟨w, hruns, hsteady, hwmode, hstage, hreport, hoffer, -⟩ :=
    runs_onMode h he hs.steady hrole mode
  have hplain : Runs j h (onPlain j now ⟨h.sender, .selectMode mode⟩) s.bare () w [] := hruns
  obtain ⟨hbare, hutters⟩ := (runs_onMessage hread hu.senders.symm hplain).after
  have hsaid := hutters.said_eq
  generalize s.after (onMessage j now m) = t at *
  subst hbare
  rw [List.append_nil] at hsaid
  have hlinking : Linking s.bare → Linking t.bare := by
    intro hlinking
    exact ⟨hstage.trans hlinking.stage, by rw [hreport]; exact hlinking.report⟩
  refine ⟨⟨hsteady, hs.clear.utters hutters, ?_, ?_, fun _ _ _ _ => hwmode, ?_⟩, hwmode, hsaid⟩
  · rw [hsaid]
    exact hs.speech
  · rw [hsaid]
    rcases hs.phase with hopening | ⟨hlinked, hanswered⟩
    · refine Or.inl ⟨?_, by rw [hreport]; exact hopening.report, hoffer.trans hopening.offerSentAt⟩
      rw [hstage]
      exact hopening.stage
    · exact Or.inr ⟨hlinking hlinked, hanswered⟩
  · intro n hn sdp hsdp
    exact hlinking (hs.heardOffer n hn sdp hsdp)

/-- A joiner answers an offer and is connected. -/
theorem JoinerPart.offer (now : Instant) (he : Equipped limit joinerAt j)
    (hu : Understood limit j h) (hs : JoinerPart limit h j mode s heard) {sdp : String}
    (hsdp : Probe.IsDescription sdp) (hread : j.read? m = some ⟨h.sender, .offer sdp⟩) :
    JoinerPart limit h j mode (s.after (onMessage j now m)) heard ∧
      Linking (s.after (onMessage j now m)).bare := by
  obtain ⟨w, answer, hruns, hanswer, hsteady, hwmode, hlinking, -⟩ :=
    runs_onOffer now he hu hs.steady hsdp
  have hplain : Runs j h (onPlain j now ⟨h.sender, .offer sdp⟩) s.bare () w [.answer answer] :=
    hruns
  obtain ⟨hbare, hutters⟩ := (runs_onMessage hread hu.senders.symm hplain).after
  have hsaid := hutters.said_eq
  generalize s.after (onMessage j now m) = t at *
  subst hbare
  have hmode : t.mode = s.mode := hwmode
  have hmem : .answer answer ∈ t.said h := by
    rw [hsaid]
    exact List.mem_append_right _ List.mem_cons_self
  refine ⟨⟨hsteady, hs.clear.utters hutters, ?_, Or.inr ⟨hlinking, answer, hmem⟩, ?_,
    fun _ _ _ _ => hlinking⟩, hlinking⟩
  · refine hutters.forall_said hs.speech ?_
    intro signal hsignal
    rw [List.mem_singleton.mp hsignal]
    exact hanswer
  · intro n hn selected hselected
    rw [hmode]
    exact hs.heardMode n hn selected hselected

/-- Small talk changes nothing for a joiner that hears it. -/
theorem JoinerPart.talk (now : Instant) (he : Equipped limit joinerAt j)
    (hu : Understood limit j h) (hrole : j.role = .joiner)
    (hs : JoinerPart limit h j mode s heard) (hread : j.read? m = some ⟨h.sender, signal⟩)
    (hsmall : SmallTalk h signal) :
    JoinerPart limit h j mode (s.after (onMessage j now m)) (m :: heard) ∧ ∀ answer,
      .answer answer ∈ (s.after (onMessage j now m)).said h → .answer answer ∈ s.said h := by
  have hplain : Chats j h (onPlain j now ⟨h.sender, signal⟩) s.bare :=
    chats_onPlain he hu hs.steady hsmall fun _ => hrole
  obtain ⟨hpart, hanswers⟩ := hs.chats (chats_onMessage hread hu.senders.symm hplain)
  refine ⟨hpart.hear hread ?_ ?_, hanswers⟩
  · intro selected hselected
    rw [hselected] at hsmall
    exact absurd hsmall id
  · intro sdp hsdp
    rw [hsdp] at hsmall
    exact absurd hsmall id

/-- **What a message of the host does to the joiner.** It answers offers only. -/
theorem JoinerPart.message (now : Instant) (he : Equipped limit joinerAt j)
    (hu : Understood limit j h) (hrole : j.role = .joiner)
    (hs : JoinerPart limit h j mode s heard) (hread : j.read? m = some ⟨h.sender, signal⟩)
    (hspeech : HostSays h mode signal) :
    JoinerPart limit h j mode (s.handle j now (.message m)) (m :: heard) ∧
      ((∃ sdp, signal = .offer sdp) ∨ ∀ answer,
        .answer answer ∈ (s.handle j now (.message m)).said h → .answer answer ∈ s.said h) := by
  have htalk := hs.talk now he hu hrole hread
  cases signal with
  | selectMode selected =>
      have hselected : selected = mode := hspeech
      subst hselected
      obtain ⟨hpart, hmode, hsaid⟩ := hs.selectMode now he hu hrole hread
      refine ⟨hpart.hear hread (fun _ _ => hmode) (fun _ h => nomatch h), Or.inr ?_⟩
      intro answer hanswer
      rw [← hsaid]
      exact hanswer
  | offer sdp =>
      obtain ⟨hpart, hlinking⟩ := hs.offer now he hu hspeech hread
      exact ⟨hpart.hear hread (fun _ h => nomatch h) fun _ _ => hlinking, Or.inl ⟨sdp, rfl⟩⟩
  | join => exact (htalk trivial).imp_right Or.inr
  | iceCandidate c => exact (htalk trivial).imp_right Or.inr
  | chat words => exact (htalk trivial).imp_right Or.inr
  | identity key => exact (htalk hspeech).imp_right Or.inr
  | answer _ => exact absurd hspeech id
  | bye => exact absurd hspeech id
  | encrypted _ _ => exact absurd hspeech id
  | unknown => exact absurd hspeech id

end

/-! ## Whole exchanges -/

section
variable {limit : Nat} {hostAt joinerAt : Net.Address} {h j p q : Party Probe} {x : Exchange}

/-- A session that was just bound has said nothing. -/
theorem bound_silent (he : Equipped limit hostAt p) (q : Party Probe) (nextId : UInt64)
    (now : Instant) (channel : Nat) :
    Clear p q ((Session.start (Probe.start nextId)).bind p now channel) ∧
      ((Session.start (Probe.start nextId)).bind p now channel).said q = [] := by
  obtain ⟨-, -, hutters, -⟩ := bound_opening he q nextId now channel
  have hclear : Clear p q (Session.start (Probe.start nextId)) :=
    ⟨fun _ hx => absurd hx List.not_mem_nil, fun _ hm => absurd hm List.not_mem_nil⟩
  refine ⟨hclear.utters hutters, ?_⟩
  rw [hutters.said_eq]
  rfl

theorem agreed_opened (hc : Couple limit hostAt joinerAt h j)
    (hostId joinerId : UInt64) (now now' : Instant) (channel channel' : Nat) :
    Agreed limit h j (.opened h j hostId joinerId now now' channel channel') := by
  obtain ⟨hsteady, hopening, -⟩ := bound_opening hc.host j hostId now channel
  obtain ⟨hclear, hsaid⟩ := bound_silent hc.host j hostId now channel
  obtain ⟨hsteady', hopening', -⟩ := bound_opening hc.joiner h joinerId now' channel'
  obtain ⟨hclear', hsaid'⟩ := bound_silent hc.joiner h joinerId now' channel'
  have hnone : ∀ {α : Type} {P : α → Prop}, ∀ a ∈ ([] : List α), P a :=
    fun a ha => absurd ha List.not_mem_nil
  unfold Exchange.opened
  refine ⟨⟨hsteady, hclear, ?_, Or.inl ⟨?_, hopening⟩, hnone, hnone⟩,
    ⟨hsteady', hclear', ?_, Or.inl hopening', hnone, hnone⟩, ?_⟩
  · dsimp only
    rw [hsaid]
    exact hnone
  · rw [Session.offers, hsaid]
    rfl
  · rw [hsaid']
    exact hnone
  · dsimp only
    rw [hsaid']
    exact fun answer ha => absurd ha List.not_mem_nil

/-- **Every move keeps the invariant.** -/
theorem Agreed.step (hc : Couple limit hostAt joinerAt h j) (hx : Agreed limit h j x)
    (now : Instant) (move : Move) (hmove : x.Allows limit h j now move) :
    Agreed limit h j (x.step h j now move) := by
  cases move with
  | host e =>
      have hchats := chats_local hc.host hc.toJoiner hx.host.steady hx.host.settled hmove
      obtain ⟨hpart, hmode, hoffers⟩ := hx.host.chats hchats
      refine ⟨hpart, ?_, fun answer ha => hoffers.trans (hx.answered answer ha)⟩
      change JoinerPart limit h j (x.host.after (react h now e)).mode _ _
      rw [hmode]
      exact hx.joiner
  | joiner e =>
      have hchats := chats_local hc.joiner hc.toHost hx.joiner.steady hx.joiner.settled hmove
      obtain ⟨hpart, hanswers⟩ := hx.joiner.chats hchats
      exact ⟨hx.host, hpart, fun answer ha => hx.answered answer (hanswers answer ha)⟩
  | toHost m =>
      obtain ⟨signal, hread⟩ := hx.joiner.clear.read m hmove
      have hmem := mem_said hmove hread
      have hanswered : ∀ answer, signal = .answer answer → x.host.offers j = 1 := by
        rintro answer rfl
        exact hx.answered answer hmem
      obtain ⟨hpart, hmode, honce⟩ := hx.host.message now hc.host hc.toJoiner hc.hostRole hread
        (hx.joiner.speech signal hmem) hanswered
      refine ⟨hpart, ?_, fun answer ha => honce (hx.answered answer ha)⟩
      change JoinerPart limit h j (x.host.handle h now (.message m)).mode _ _
      rw [hmode]
      exact hx.joiner
  | toJoiner m =>
      obtain ⟨signal, hread⟩ := hx.host.clear.read m hmove
      have hmem := mem_said hmove hread
      obtain ⟨hpart, hanswers⟩ := hx.joiner.message now hc.joiner hc.toHost hc.joinerRole hread
        (hx.host.speech signal hmem)
      refine ⟨hx.host, hpart, ?_⟩
      intro answer ha
      rcases hanswers with ⟨sdp, rfl⟩ | hanswers
      · -- An offer was said, so the host has offered once.
        rcases hx.host.phase with ⟨hzero, -⟩ | hoffered
        · exact absurd rfl (List.countP_eq_zero.mp hzero _ hmem)
        · exact hoffered.once
      · exact hx.answered answer (hanswers answer ha)

/-- **The invariant holds in every exchange reached.** -/
theorem Reached.agreed (hc : Couple limit hostAt joinerAt h j) (hx : Reached limit h j x) :
    Agreed limit h j x := by
  induction hx with
  | opened hostId joinerId now now' channel channel' => exact agreed_opened hc ..
  | step now move hx hmove ih => exact ih.step hc now move hmove

/-- Where a host has heard an announcement, and all but small talk was heard, both sides are
connected in the host's mode. -/
theorem Agreed.completes (hx : Agreed limit h j x)
    (hjoin : ∃ m ∈ x.heardByHost, h.read? m = some ⟨j.sender, .join⟩)
    (hheard : ∀ m ∈ x.joiner.sent, ∀ signal, h.read? m = some ⟨j.sender, signal⟩ →
      m ∈ x.heardByHost ∨ SmallTalk j signal)
    (hheard' : ∀ m ∈ x.host.sent, ∀ signal, j.read? m = some ⟨h.sender, signal⟩ →
      m ∈ x.heardByJoiner ∨ SmallTalk h signal) :
    HasOffered j x.host ∧ Linking x.host.bare ∧ Linking x.joiner.bare ∧
      x.joiner.mode = x.host.mode := by
  obtain ⟨m, hm, hread⟩ := hjoin
  have hoffered := hx.host.heardJoin m hm hread
  obtain ⟨m, hm, hread⟩ := hx.host.clear.sent_of_said hoffered.told
  have hmode := hx.joiner.heardMode m ((hheard' m hm _ hread).resolve_right id) _ hread
  have hoffers : 0 < (x.host.said j).countP isOffer := by
    have honce : (x.host.said j).countP isOffer = 1 := hoffered.once
    omega
  obtain ⟨signal, hsignal, hoffer⟩ := List.countP_pos_iff.mp hoffers
  obtain ⟨n, hn, hread'⟩ := hx.host.clear.sent_of_said hsignal
  have hlinking : Linking x.joiner.bare := by
    cases signal with
    | offer sdp =>
        exact hx.joiner.heardOffer n ((hheard' n hn _ hread').resolve_right id) sdp hread'
    | _ => cases hoffer
  have hanswered : ∃ answer, .answer answer ∈ x.joiner.said h := by
    rcases hx.joiner.phase with hopening | ⟨-, hanswered⟩
    · have hreport := hopening.report
      rw [hlinking.report] at hreport
      cases hreport
    · exact hanswered
  obtain ⟨answer, hanswer⟩ := hanswered
  obtain ⟨o, ho, hread''⟩ := hx.joiner.clear.sent_of_said hanswer
  have hheardAnswer := (hheard o ho _ hread'').resolve_right id
  exact ⟨hoffered, hx.host.heardAnswer o hheardAnswer answer hread'', hlinking, hmode⟩

/-- Where a joiner has announced itself and all was heard, both sides are connected. -/
theorem Agreed.quiescent (hx : Agreed limit h j x) (hjoin : ⟨j.sender, .join⟩ ∈ x.joiner.sent)
    (hquiescent : x.Quiescent) :
    HasOffered j x.host ∧ Linking x.host.bare ∧ Linking x.joiner.bare ∧
      x.joiner.mode = x.host.mode :=
  hx.completes ⟨_, hquiescent.1 _ hjoin, rfl⟩ (fun m hm _ _ => Or.inl (hquiescent.1 m hm))
    fun m hm _ _ => Or.inl (hquiescent.2 m hm)

/-- **A host and a joiner always get connected.** Whatever arrives in whatever order, how often it
does, and whatever happens in between, nothing fails, each side can read all that the other sends,
and the host offers once at most, and once from the first announcement on that it hears. Where the
joiner has announced itself and all messages were heard, both calls are established, both engines
connected, and both media sessions in the mode that the host has selected. -/
theorem negotiation_completes (hc : Couple limit hostAt joinerAt h j)
    (hx : Reached limit h j x) :
    (∀ entry ∈ x.host.log ++ x.joiner.log, entry.2.isFailure = false) ∧
    (∀ m ∈ x.host.sent, ∃ signal, j.read? m = some ⟨h.sender, signal⟩) ∧
    (∀ m ∈ x.joiner.sent, ∃ signal, h.read? m = some ⟨j.sender, signal⟩) ∧
    x.host.offers j ≤ 1 ∧
    (⟨j.sender, .join⟩ ∈ x.heardByHost → x.host.offers j = 1) ∧
    (∀ mode, .selectMode mode ∈ x.host.said j → mode = x.host.mode) ∧
    (⟨j.sender, .join⟩ ∈ x.joiner.sent → x.Quiescent →
      x.host.offers j = 1 ∧ .selectMode x.host.mode ∈ x.host.said j ∧
      x.host.stage = .linkEstablished ∧ x.joiner.stage = .linkEstablished ∧
      engineState h x.host = .connected ∧ engineState j x.joiner = .connected ∧
      ∃ a b, x.host.media.session = some a ∧ x.joiner.media.session = some b ∧
        a.video = x.host.mode.hasVideo ∧ b.video = x.host.mode.hasVideo) := by
  have hagreed := hx.agreed hc
  refine ⟨?_, hagreed.host.clear.read, hagreed.joiner.clear.read, ?_,
    fun hheard => (hagreed.host.heardJoin _ hheard rfl).once, ?_, ?_⟩
  · intro entry hentry
    rcases List.mem_append.mp hentry with hentry | hentry
    · exact hagreed.host.clear.fine entry hentry
    · exact hagreed.joiner.clear.fine entry hentry
  · rcases hagreed.host.phase with ⟨hzero, -⟩ | hoffered
    · omega
    · exact Nat.le_of_eq hoffered.once
  · intro mode hmode
    exact hagreed.host.speech _ hmode
  · intro hjoin hquiescent
    obtain ⟨hoffered, hhost, hjoiner, hmode⟩ := hagreed.quiescent hjoin hquiescent
    obtain ⟨a, ha, hvideo⟩ := hagreed.host.steady.session
    obtain ⟨b, hb, hvideo'⟩ := hagreed.joiner.steady.session
    refine ⟨hoffered.once, hoffered.told, hhost.stage, hjoiner.stage, ?_, ?_, a, b, ha, hb,
      hvideo, ?_⟩
    · rw [engineState_eq hc.host]
      exact hhost.report
    · rw [engineState_eq hc.joiner]
      exact hjoiner.report
    · rw [hvideo', ← hmode]
      rfl

end

/-- A suite for devices that do not seal: the agreement is a sum. -/
def sumSuite : Suite := { Suite.standard with
  publicKey := fun secret => secret
  agree := fun a b => .ofNatLE 32 (a.toNatLE + b.toNatLE) }

/-- A device with a probe engine that greets when it is ready and does not seal. -/
def greeter (role : Role) (sender : String) (video : Bool) : Party Probe where
  role
  sender
  keypair := .ofSecret sumSuite (.zero 32)
  config := { HandshakeConfig.standard with readyMessage := some "ready", video }
  engine := Probe.engine (.v4 127 0 0 1)
  suite := sumSuite
  ephemeral _ := .zero 32

/-- A host that wants a picture. -/
def hostGreeter : Party Probe := greeter .host "host" true

/-- A joiner that starts without a picture. -/
def joinerGreeter : Party Probe := greeter .joiner "joiner" false

theorem agreementCommutes_sum : sumSuite.AgreementCommutes := by
  intro a b
  change Octets.ofNatLE 32 (a.toNatLE + b.toNatLE) = Octets.ofNatLE 32 (b.toNatLE + a.toNatLE)
  rw [Nat.add_comm]

theorem couple_greeters : Couple Suite.maxPlaintext (.v4 127 0 0 1) (.v4 127 0 0 1)
    hostGreeter joinerGreeter := by
  have hdecrypts : sumSuite.DecryptsUpTo Suite.maxPlaintext := Suite.decryptsUpTo_standard
  have hlimit : Suite.maxPlaintext < Bytes.bound 8 := by decide
  refine ⟨rfl, rfl, ⟨rfl, (fun h => nomatch h), fun _ _ h => nomatch h⟩,
    ⟨rfl, (fun h => nomatch h), fun _ _ h => nomatch h⟩, ?_, ?_⟩
  · exact ⟨by decide, rfl, rfl, agreementCommutes_sum, hdecrypts, hlimit⟩
  · exact ⟨by decide, rfl, rfl, agreementCommutes_sum, hdecrypts, hlimit⟩

section
variable {limit : Nat} {hostAt joinerAt : Net.Address} {h j : Party Probe}
  {form : Party Probe → Message → Message} {x : Exchange} {now : Instant} {move : Move}

/-- A device reads messages in the form in which they come to it. -/
def Legible (limit : Nat) (form : Party Probe → Message → Message) (q : Party Probe) : Prop :=
  ∀ m, m.signal.isEnvelope = false → m.size ≤ limit → q.read? (form q m) = some m

/-- The exchange after a side has read a message, which it has heard in some form. -/
def Exchange.reads (form : Party Probe → Message → Message) (h j : Party Probe) (now : Instant)
    (x : Exchange) : Move → Exchange
  | .toHost m => { x.step h j now (.toHost m) with heardByHost := form h m :: x.heardByHost }
  | .toJoiner m => { x.step h j now (.toJoiner m) with
      heardByJoiner := form j m :: x.heardByJoiner }
  | .host e => x.step h j now (.host e)
  | .joiner e => x.step h j now (.joiner e)

/-- Whether a move delivers a message that was sent in this form. -/
def Exchange.hasSent (limit : Nat) (form : Party Probe → Message → Message) (h j : Party Probe)
    (x : Exchange) : Move → Bool
  | .toHost m => decide (m.sender = j.sender ∧ m.signal.isEnvelope = false ∧ m.size ≤ limit ∧
      form h m ∈ x.joiner.sent)
  | .toJoiner m => decide (m.sender = h.sender ∧ m.signal.isEnvelope = false ∧ m.size ≤ limit ∧
      form j m ∈ x.host.sent)
  | .host _ | .joiner _ => false

/-- A message that was sent in some form has the effect of what is read. -/
theorem Reached.reads (hc : Couple limit hostAt joinerAt h j) (hx : Reached limit h j x)
    (hhost : Legible limit form h) (hjoiner : Legible limit form j)
    (hsent : x.hasSent limit form h j move = true) :
    Reached limit h j (x.reads form h j now move) := by
  cases move with
  | host _ | joiner _ => cases hsent
  | toHost m =>
      obtain ⟨hsender, hplain, hsize, hmem⟩ := of_decide_eq_true hsent
      have hread := hhost m hplain hsize
      have hother : (form h m).sender ≠ h.sender := by
        rw [Party.sender_of_read? hread, hsender]
        exact hc.toHost.senders
      have hstep := hx.step now (.toHost (form h m)) hmem
      rw [Exchange.step, handle_of_read? hother hread] at hstep
      exact hstep
  | toJoiner m =>
      obtain ⟨hsender, hplain, hsize, hmem⟩ := of_decide_eq_true hsent
      have hread := hjoiner m hplain hsize
      have hother : (form j m).sender ≠ j.sender := by
        rw [Party.sender_of_read? hread, hsender]
        exact hc.toJoiner.senders
      have hstep := hx.step now (.toJoiner (form j m)) hmem
      rw [Exchange.step, handle_of_read? hother hread] at hstep
      exact hstep

/-- The exchange after some messages were read one behind the other. -/
def Exchange.readsAll (form : Party Probe → Message → Message) (h j : Party Probe) (x : Exchange)
    (moves : List (Instant × Move)) : Exchange :=
  moves.foldl (fun x a => x.reads form h j a.1 a.2) x

/-- Whether each of these messages was sent before it is read. -/
def Exchange.hasSentAll (limit : Nat) (form : Party Probe → Message → Message)
    (h j : Party Probe) : Exchange → List (Instant × Move) → Bool
  | _, [] => true
  | x, (now, move) :: moves =>
    x.hasSent limit form h j move && hasSentAll limit form h j (x.reads form h j now move) moves

theorem Reached.readsAll (hc : Couple limit hostAt joinerAt h j) (hx : Reached limit h j x)
    (hhost : Legible limit form h) (hjoiner : Legible limit form j)
    {moves : List (Instant × Move)} (hsent : x.hasSentAll limit form h j moves = true) :
    Reached limit h j (x.readsAll form h j moves) := by
  induction moves generalizing x with
  | nil => exact hx
  | cons a moves ih =>
      obtain ⟨hfirst, hrest⟩ := Bool.and_eq_true_iff.mp hsent
      exact ih (hx.reads hc hhost hjoiner hfirst) hrest

/-- A host and a joiner at the moment at which both have a channel. -/
def Exchange.onChannel (h j : Party Probe) : Exchange :=
  ((Exchange.opened h j 1 2 0 0 0 1).step h j 0 (.joiner (.channel .connected))).step h j 0
    (.host (.channel .connected))

theorem reached_onChannel (limit : Nat) (h j : Party Probe) :
    Reached limit h j (.onChannel h j) :=
  ((Reached.opened 1 2 0 0 0 1).step 0 (.joiner (.channel .connected)) rfl).step 0
    (.host (.channel .connected)) rfl

end

/-- The offer of the host. -/
def hostOffer : Message :=
  ⟨"host", .offer (ProbeSession.describe ⟨true, 1, 1, 0, some .offer, none, 0, none⟩ .offer)⟩

/-- The answer of a joiner that has not heard the mode yet. -/
def joinerAnswer : Message :=
  ⟨"joiner", .answer
    (ProbeSession.describe ⟨false, 2, 1, 0, some .answer, some .offer, 0, none⟩ .answer)⟩

/-- Messages come in the clear. -/
def inClear (_ : Party Probe) (m : Message) : Message := m

/-- Moves in which the offer overtakes the mode, and the announcement comes twice. -/
def overtaking : List (Instant × Move) :=
  [(1, .toHost ⟨"joiner", .join⟩), (2, .toJoiner hostOffer), (3, .toHost joinerAnswer),
    (4, .toJoiner ⟨"host", .selectMode .video⟩), (5, .toHost ⟨"joiner", .join⟩),
    (6, .toHost ⟨"joiner", .chat "ready"⟩), (7, .toJoiner ⟨"host", .join⟩),
    (8, .toJoiner ⟨"host", .chat "ready"⟩)]

/-- The exchange behind these moves. -/
def overtaken : Exchange :=
  (Exchange.onChannel hostGreeter joinerGreeter).readsAll inClear hostGreeter joinerGreeter
    overtaking

theorem reached_overtaken :
    Reached Suite.maxPlaintext hostGreeter joinerGreeter overtaken := by
  have hlegible : ∀ q, Legible Suite.maxPlaintext inClear q :=
    fun q m hplain _ => Party.read?_of_plain hplain
  refine (reached_onChannel _ _ _).readsAll couple_greeters (hlegible _) (hlegible _) ?_
  decide +kernel

theorem quiescent_overtaken : overtaken.Quiescent := by
  refine ⟨?_, ?_⟩
  · decide +kernel
  · decide +kernel

/-! ### Under seals -/

/-- Whose public key it is, of some secrets. -/
def holder? (secrets : List SecretKey) (key : Octets 32) : Option SecretKey :=
  secrets.find? fun secret => X25519.publicKey secret = key

/-- X25519 among some secrets, and SHA-256. The cipher adds a byte of the key, and the key is the
tag. -/
def shiftSuite (secrets : List SecretKey) : Suite := { Suite.standard with
  agree := fun secret key =>
    match holder? secrets (X25519.publicKey secret), holder? secrets key with
    | some x, some y => X25519.agree x (X25519.publicKey y)
    | _, _ => .zero 32
  encrypt := fun key _ plaintext => some (key.bytes ++ plaintext.map (· + key.bytes.headI))
  decrypt := fun key _ ciphertext =>
    if ciphertext.take 32 = key.bytes then
      some ((ciphertext.drop 32).map (· - key.bytes.headI))
    else none }

theorem agreementCommutes_shift {secrets : List SecretKey}
    (h : ∀ x ∈ secrets, ∀ y ∈ secrets, Suite.standard.AgreeOn x y) :
    (shiftSuite secrets).AgreementCommutes := by
  intro a b
  simp only [shiftSuite, Suite.standard]
  cases hx : holder? secrets (X25519.publicKey a) with
  | none => cases holder? secrets (X25519.publicKey b) <;> rfl
  | some x =>
      cases hy : holder? secrets (X25519.publicKey b) with
      | none => rfl
      | some y => exact h x (List.mem_of_find?_eq_some hx) y (List.mem_of_find?_eq_some hy)

theorem decryptsUpTo_shift (secrets : List SecretKey) (limit : Nat) :
    (shiftSuite secrets).DecryptsUpTo limit := by
  intro key nonce plaintext _
  refine ⟨_, rfl, ?_⟩
  have htag : ∀ rest : Bytes, (key.bytes ++ rest).take 32 = key.bytes := fun rest =>
    List.take_left' key.length_eq
  have hrest : ∀ rest : Bytes, (key.bytes ++ rest).drop 32 = rest := fun rest =>
    List.drop_left' key.length_eq
  have hback : (fun b : UInt8 => b - key.bytes.headI) ∘ (· + key.bytes.headI) = id :=
    funext fun b => UInt8.add_sub_cancel b _
  simp only [shiftSuite]
  rw [htag, hrest, if_pos rfl, List.map_map, hback, List.map_id]

/-- The secrets of a host and of a joiner, and the one that envelopes are sealed with. -/
def sealersSecrets : List SecretKey := [.ofNatLE 32 1, .ofNatLE 32 2, .zero 32]

/-- The same device with a secret of its own. It seals what it can and does not greet. -/
def sealing (secret : SecretKey) (p : Party Probe) : Party Probe := { p with
  suite := shiftSuite sealersSecrets
  keypair := .ofSecret (shiftSuite sealersSecrets) secret
  config := { p.config with encryptSignaling := true, readyMessage := none } }

/-- A host that seals and wants a picture. -/
def hostSealer : Party Probe := sealing (.ofNatLE 32 1) hostGreeter

/-- A joiner that seals and starts without a picture. -/
def joinerSealer : Party Probe := sealing (.ofNatLE 32 2) joinerGreeter

theorem couple_sealers : Couple Suite.maxPlaintext (.v4 127 0 0 1) (.v4 127 0 0 1)
    hostSealer joinerSealer := by
  have hagrees : (shiftSuite sealersSecrets).AgreementCommutes := by
    refine agreementCommutes_shift ?_
    unfold Suite.AgreeOn
    decide +kernel
  have hdecrypts := decryptsUpTo_shift sealersSecrets Suite.maxPlaintext
  have hlimit : Suite.maxPlaintext < Bytes.bound 8 := by decide
  refine ⟨rfl, rfl, ⟨rfl, fun _ => ?_, fun _ h => nomatch h⟩,
    ⟨rfl, fun _ => ?_, fun _ h => nomatch h⟩, ?_, ?_⟩
  · decide +kernel
  · decide +kernel
  · exact ⟨by decide, rfl, rfl, hagrees, hdecrypts, hlimit⟩
  · exact ⟨by decide, rfl, rfl, hagrees, hdecrypts, hlimit⟩

/-- A message as it goes out to a device whose key is known. -/
def sealedTo (q : Party Probe) (m : Message) : Message :=
  if isConfidential m.signal then
    (m.sealFor q.suite q.keypair.publicKey (.zero 32)).toOption.getD m
  else m

theorem legible_sealedTo {limit : Nat} {p q : Party Probe} (h : Understood limit p q) :
    Legible limit sealedTo q := by
  intro m hplain hsize
  unfold sealedTo
  split
  · obtain ⟨e, hseal, -, henvelope, hopen⟩ := Message.openWith_sealFor h.agreement h.decrypts
      h.limit_lt hsize hplain q.keypair.secret (.zero 32)
    rw [h.key, hseal]
    exact Party.read?_of_openWith hopen henvelope
  · exact Party.read?_of_plain hplain

/-- Moves in which the sealed offer overtakes the mode, after both have told their keys. -/
def sealedOvertaking : List (Instant × Move) :=
  [(1, .toHost ⟨"joiner", .identity joinerSealer.keypair.publicKey⟩),
    (2, .toJoiner ⟨"host", .identity hostSealer.keypair.publicKey⟩),
    (3, .toHost ⟨"joiner", .join⟩), (4, .toJoiner hostOffer), (5, .toHost joinerAnswer),
    (6, .toJoiner ⟨"host", .selectMode .video⟩), (7, .toHost ⟨"joiner", .join⟩),
    (8, .toJoiner ⟨"host", .join⟩)]

/-- The exchange behind these moves. -/
def sealedOvertaken : Exchange :=
  (Exchange.onChannel hostSealer joinerSealer).readsAll sealedTo hostSealer joinerSealer
    sealedOvertaking

theorem reached_sealedOvertaken :
    Reached Suite.maxPlaintext hostSealer joinerSealer sealedOvertaken := by
  refine (reached_onChannel _ _ _).readsAll couple_sealers
    (legible_sealedTo couple_sealers.toHost) (legible_sealedTo couple_sealers.toJoiner) ?_
  decide +kernel

theorem quiescent_sealedOvertaken : sealedOvertaken.Quiescent := by
  refine ⟨?_, ?_⟩
  · decide +kernel
  · decide +kernel

/-- Both are connected with a picture, though the offer overtook the mode. It is the same if offer
and answer go out as envelopes. -/
theorem negotiation_completes_overtaken :
    (overtaken.host.offers joinerGreeter = 1 ∧ overtaken.host.stage = .linkEstablished ∧
      overtaken.joiner.stage = .linkEstablished ∧
      ∃ b, overtaken.joiner.media.session = some b ∧ b.video = overtaken.host.mode.hasVideo) ∧
    (sealedTo joinerSealer hostOffer).signal.isEnvelope = true ∧
    sealedTo joinerSealer hostOffer ∈ sealedOvertaken.host.sent ∧
    (sealedTo hostSealer joinerAnswer).signal.isEnvelope = true ∧
    sealedTo hostSealer joinerAnswer ∈ sealedOvertaken.joiner.sent ∧
    sealedOvertaken.host.offers joinerSealer = 1 ∧
    sealedOvertaken.host.stage = .linkEstablished ∧
    sealedOvertaken.joiner.stage = .linkEstablished ∧
    ∃ b, sealedOvertaken.joiner.media.session = some b ∧
      b.video = sealedOvertaken.host.mode.hasVideo := by
  obtain ⟨-, -, -, -, -, -, hcompletes⟩ := negotiation_completes couple_greeters reached_overtaken
  obtain ⟨honce, -, hhost, hjoiner, -, -, a, b, -, hb, -, hvideo⟩ :=
    hcompletes (by decide +kernel) quiescent_overtaken
  obtain ⟨-, -, -, -, -, -, hsealed⟩ :=
    negotiation_completes couple_sealers reached_sealedOvertaken
  obtain ⟨honce', -, hhost', hjoiner', -, -, a', b', -, hb', -, hvideo'⟩ :=
    hsealed (by decide +kernel) quiescent_sealedOvertaken
  refine ⟨⟨honce, hhost, hjoiner, b, hb, hvideo⟩, ?_, ?_, ?_, ?_, honce', hhost', hjoiner', b', hb',
    hvideo'⟩
  all_goals decide +kernel

end PeerCall.Handshake
