import PeerCall.Proofs.Handshake.Sending

/-!
# How often a session offers and announces itself

Announcements come as often as peers and paths bring them. A host offers on one only if its last
offer, whatever it was made for, is a grace period ago, and a joiner announces itself again only if
its last announcement is long enough ago and no description was exchanged. Both are read off notes
that tell of the previous offer and the previous announcement in a run; a farewell and a new binding
make a session forget them.
-/
namespace PeerCall.Handshake

open Crypto

variable {σ : Type} {p : Party σ} {now before : Instant} {s : Session σ} {words : List Signal}
  {tags : List Tag} {tag : Tag} {signal : Signal} {m : Message} {e : Event} {o : Occurrence σ}
  {media : σ} {run : List (Instant × Occurrence σ)} {i k : Nat}

/-! ## Which announcements are answered -/

theorem heard?_eq_some (h : p.heard? e = some signal) :
    ∃ m n, e = .message m ∧ m.sender ≠ p.sender ∧ p.read? m = some n ∧ n.signal = signal := by
  unfold Party.heard? at h
  split at h
  · rename_i m
    split at h
    · cases h
    · rename_i hother
      obtain ⟨n, hread, hn⟩ := Option.map_eq_some_iff.mp h
      exact ⟨m, n, rfl, hother, hread, hn⟩
  · cases h

theorem handle_of_heard_join (h : p.heard? e = some .join) (now : Instant) (s : Session σ) :
    s.handle p now e = s.after (guarded p now (onJoin p now)) := by
  obtain ⟨m, n, rfl, hother, hread, hn⟩ := heard?_eq_some h
  rw [handle_message hother, dispatch_of_read? hread, onPlain, hn]

/-- **An announcement is passed over** by a host that has offered within the grace period, and by a
joiner that has announced itself within the interval or negotiates. -/
theorem heeds_of_changed (h : p.heard? e = some .join) (hchanged : s.handle p now e ≠ s) :
    (p.role = .host → isRecent now p.config.watchdogGrace s.offerSentAt = false) ∧
      (p.role = .joiner → s.stage.isPreNegotiation = true ∧
        isRecent now p.config.rejoinInterval s.lastJoin = false) := by
  have hheeds : outcome (onJoin p now) s ≠ (.ok (), s) := by
    intro hsame
    rw [handle_of_heard_join h, after_eq, guarded, outcome_tryCatch, hsame] at hchanged
    exact hchanged rfl
  rw [onJoin] at hheeds
  refine ⟨fun hrole => ?_, fun hrole => ?_⟩
  · rw [hrole] at hheeds
    refine Bool.eq_false_iff.mpr fun hrecent => hheeds ?_
    have hignores : ignoresJoin p now s = true := by
      rw [ignoresJoin, hrecent, Bool.or_true]
    dsimp only
    rw [startOffer, outcome_bind, outcome_get]
    simp only [hignores]
    rfl
  · rw [hrole] at hheeds
    cases hagain : s.stage.isPreNegotiation && !isRecent now p.config.rejoinInterval s.lastJoin with
    | true => simpa using hagain
    | false =>
        refine absurd ?_ hheeds
        dsimp only
        rw [outcome_bind, outcome_get]
        simp only [hagain]
        rfl

/-! ## Steps -/

/-- Whether an occurrence makes a session forget when it offered and announced itself. -/
def Occurrence.forgets (p : Party σ) : Occurrence σ → Bool
  | .bind _ => true
  | .event e => p.heard? e = some .bye
  | .engine _ => false

/-- At most what kinds of signals a session sends in a step. -/
def Occurrence.kinds (p : Party σ) : Occurrence σ → List Tag
  | .event e => p.kinds e
  | .bind _ | .engine _ => []

/-- Kinds of signals none of which comes twice or is an envelope. -/
def Distinct (tags : List Tag) : Prop := tags.Nodup ∧ Tag.encrypted ∉ tags

instance : Decidable (Distinct tags) := inferInstanceAs (Decidable (_ ∧ _))

theorem Distinct.sublist {tags' : List Tag} (h : Distinct tags) (hsub : tags'.Sublist tags) :
    Distinct tags' :=
  ⟨h.1.sublist hsub, fun hmem => h.2 (hsub.subset hmem)⟩

theorem distinct_kinds (p : Party σ) (o : Occurrence σ) : Distinct (o.kinds p) := by
  have hnone : Distinct [] := by decide
  have hreplies : ∀ signal, Distinct (p.replies signal) := by
    intro signal
    cases signal with
    | join =>
        rw [Party.replies]
        cases p.role <;> decide
    | offer sdp => exact (by decide : Distinct [.answer])
    | identity key => exact (by decide : Distinct [.identity])
    | _ => exact hnone
  cases o with
  | bind channel => exact hnone
  | engine media => exact hnone
  | event e =>
      cases e with
      | channel state =>
          cases state with
          | connected => exact (by decide : Distinct [.identity, .join, .message])
          | _ => exact hnone
      | message m =>
          rw [Occurrence.kinds, Party.kinds]
          cases p.heard? (.message m) with
          | none => exact hnone
          | some signal => exact hreplies signal
      | engine state => exact hnone
      | candidate c => exact (by decide : Distinct [.iceCandidate])
      | chat text => exact (by decide : Distinct [.message])
      | watchdog => exact (by decide : Distinct [.offer])

/-- **What a step sends and notes**, unless it makes the session forget. -/
theorem says_step (h : o.forgets p = false) (now : Instant) :
    Says p now (o.kinds p) s (s.step p now o) := by
  cases o with
  | bind channel => cases h
  | engine media =>
      have hstill : Still p now s { s with media } := still_of_eq rfl rfl rfl rfl rfl
      exact hstill.toSays
  | event e => exact says_react (of_decide_eq_false h) s

/-- A step that makes a session forget sends nothing. -/
theorem silent_of_forgets (h : o.forgets p = true) (now : Instant) :
    ∃ ds, Added s (s.step p now o) ds ∧ ds.filterMap Deed.message? = [] := by
  cases o with
  | engine media => cases h
  | bind channel =>
      let fresh : Session σ := { s with
        channel, mode := if p.config.video then CallMode.video else .voice
        peerKey := none, offerSentAt := none, lastJoin := none, watchdog := none }
      have hstill : Within (Still p now) (do
          enter .initializingHardware
          setUp p .settingUp
          enter .startingDiscovery) :=
        still_bind (still_enter _) fun _ => still_bind (still_setUp _) fun _ => still_enter _
      have hsilent : Says p now [] fresh (s.step p now (.bind channel)) :=
        says_guarded (says_of_still hstill) fresh
      obtain ⟨words, hwords, ⟨ds, hds, hsent⟩, -, -⟩ := hsilent
      rw [List.map_eq_nil_iff.mp (List.sublist_nil.mp hwords), List.map_nil, List.map_eq_nil_iff]
        at hsent
      exact ⟨ds, hds, hsent⟩
  | event e =>
      obtain ⟨m, n, rfl, hother, hread, hn⟩ := heard?_eq_some (of_decide_eq_true h)
      refine ⟨[.engine .close], ?_, rfl⟩
      rw [Session.step, handle_message hother, dispatch_of_read? hread, onPlain, hn]
      exact ⟨_, rfl, rfl⟩

/-! ## What messages show -/

/-- A message is the form in which a session sends a signal of a kind. -/
def Session.Shows (p : Party σ) (s : Session σ) (tag : Tag) (m : Message) : Prop :=
  ∃ signal, signal.isEnvelope = false ∧ signal.tag = tag ∧ s.form? p signal = some m

/-- Each message shows one kind of signals and no other. -/
def Session.ShowsEach (p : Party σ) (s : Session σ) (ms : List Message) (tags : List Tag) : Prop :=
  List.Forall₂ (fun m tag => ∀ tag', s.Shows p tag' m ↔ tag = tag') ms tags

theorem isEnvelope_of_tag (h : signal.tag ≠ .encrypted) : signal.isEnvelope = false := by
  cases signal with
  | encrypted key payload => exact absurd rfl h
  | _ => rfl

/-- A message shows the kind of the signal sent in it, and no other. -/
theorem shows_iff (hsuite : p.suite.Invertible) (hplain : signal.isEnvelope = false)
    (hform : s.form? p signal = some m) (tag : Tag) : s.Shows p tag m ↔ signal.tag = tag := by
  constructor
  · rintro ⟨signal', hplain', rfl, hform'⟩
    rw [eq_of_form? hsuite hplain hplain' hform hform']
  · intro htag
    exact ⟨signal, hplain, htag, hform⟩

theorem showsEach_of_sent (hsuite : p.suite.Invertible) {ms : List Message}
    (hplain : Tag.encrypted ∉ words.map Signal.tag) (hsent : ms.map some = words.map (s.form? p)) :
    s.ShowsEach p ms (words.map Signal.tag) := by
  induction words generalizing ms with
  | nil =>
      rw [List.map_eq_nil_iff.mp hsent]
      exact .nil
  | cons signal words ih =>
      rw [List.map_cons, List.map_eq_cons_iff] at hsent
      obtain ⟨m, ms, rfl, hform, hsent⟩ := hsent
      rw [List.map_cons, List.mem_cons, not_or] at hplain
      exact .cons (shows_iff hsuite (isEnvelope_of_tag (Ne.symm hplain.1)) hform.symm)
        (ih hplain.2 hsent)

/-- A kind is shown by one of the messages exactly if it is one of theirs. -/
theorem Session.ShowsEach.exists_iff {ms : List Message} (h : s.ShowsEach p ms tags) (tag : Tag) :
    (∃ m ∈ ms, s.Shows p tag m) ↔ tag ∈ tags := by
  induction h with
  | nil => simp
  | cons hfirst _ ih => rw [List.exists_mem_cons_iff, ih, hfirst, List.mem_cons, eq_comm]

/-! ## Runs -/

section
variable (p : Party σ) (media : σ) (run : List (Instant × Occurrence σ))

/-- A step of a run sends a signal of a kind. -/
def SendsAt (tag : Tag) (k : Nat) : Prop :=
  ∃ m ∈ sentAt p media run k, (sessionAt p media run k).Shows p tag m

/-- Before a step, a signal of a kind was sent last in an earlier one at some moment, and nothing
has made the session forget it since then. -/
structure Previous (tag : Tag) (k i : Nat) (before : Instant) : Prop where
  earlier : i < k
  moment : ∃ o, run[i]? = some (before, o)
  sends : SendsAt p media run tag i
  last : ∀ j, i < j → j < k → ¬ SendsAt p media run tag j
  remembered : ∀ j x, i < j → j < k → run[j]? = some x → x.2.forgets p = false

end

/-- The signals that a step of a run sends, and how they are noted: not at all if the step makes the
session forget, but then nothing is sent. -/
theorem wordsAt (p : Party σ) (media : σ) (run : List (Instant × Occurrence σ)) (k : Nat) :
    ∃ words, Distinct (words.map Signal.tag) ∧
      (sentAt p media run k).map some = words.map ((sessionAt p media run k).form? p) ∧
      ∀ now o, run[k]? = some (now, o) → o.forgets p = true ∧ words = [] ∨
        o.forgets p = false ∧ (words.map Signal.tag).Sublist (o.kinds p) ∧
          Speaks p now words (sessionAt p media run k) (sessionAt p media run (k + 1)) := by
  cases hk : run[k]? with
  | none =>
      refine ⟨[], by decide, ?_, fun _ _ h => nomatch h⟩
      rw [sentAt, deedsAt, sessionAt_succ_of_none hk, (added_nil rfl).deedsSince_eq]
      rfl
  | some x =>
      obtain ⟨now, o⟩ := x
      rw [sentAt, deedsAt, sessionAt_succ hk]
      cases hforgets : o.forgets p with
      | true =>
          obtain ⟨ds, hds, hsent⟩ :=
            silent_of_forgets (s := sessionAt p media run k) hforgets now
          refine ⟨[], by decide, ?_, ?_⟩
          · rw [hds.deedsSince_eq, hsent]
            rfl
          · rintro _ _ ⟨⟩
            exact Or.inl ⟨hforgets, rfl⟩
      | false =>
          obtain ⟨words, hwords, hspeaks⟩ :=
            says_step (s := sessionAt p media run k) hforgets now
          obtain ⟨ds, hds, hsent⟩ := hspeaks.sent
          refine ⟨words, (distinct_kinds p o).sublist hwords, ?_, ?_⟩
          · rw [hds.deedsSince_eq, hsent]
          · rintro _ _ ⟨⟩
            exact Or.inr ⟨hforgets, hwords, hspeaks⟩

theorem sendsAt_iff (hsuite : p.suite.Invertible) (hdistinct : Distinct (words.map Signal.tag))
    (hsent : (sentAt p media run k).map some = words.map ((sessionAt p media run k).form? p))
    (tag : Tag) : SendsAt p media run tag k ↔ tag ∈ words.map Signal.tag :=
  (showsEach_of_sent hsuite hdistinct.2 hsent).exists_iff tag

/-- Where a session notes when it sent a signal of a kind last. -/
def Notes (tag : Tag) (note : Session σ → Option Instant) : Prop :=
  ∀ {p : Party σ} {now : Instant} {words : List Signal} {s s' : Session σ},
    Speaks p now words s s' → note s' = if tag ∈ words.map Signal.tag then some now else note s

theorem notes_offer : Notes .offer (Session.offerSentAt (σ := σ)) := fun h => h.offerSentAt

theorem notes_join : Notes .join (Session.lastJoin (σ := σ)) := fun h => h.lastJoin

section
variable {note : Session σ → Option Instant}

/-- **What a step sends is noted.** -/
theorem Notes.of_sendsAt (hnotes : Notes tag note) (hsuite : p.suite.Invertible)
    (hk : run[k]? = some (now, o)) (hsends : SendsAt p media run tag k) :
    note (sessionAt p media run (k + 1)) = some now := by
  obtain ⟨words, hdistinct, hsent, hnoted⟩ := wordsAt p media run k
  have hmem := (sendsAt_iff hsuite hdistinct hsent tag).mp hsends
  rcases hnoted now o hk with ⟨-, rfl⟩ | ⟨-, -, hspeaks⟩
  · exact absurd hmem List.not_mem_nil
  · rw [hnotes hspeaks, if_pos hmem]

/-- **Nothing else is noted.** -/
theorem Notes.of_not_sendsAt (hnotes : Notes tag note) (hsuite : p.suite.Invertible)
    (hremembers : ∀ x, run[k]? = some x → x.2.forgets p = false)
    (hsilent : ¬ SendsAt p media run tag k) :
    note (sessionAt p media run (k + 1)) = note (sessionAt p media run k) := by
  cases hk : run[k]? with
  | none => rw [sessionAt_succ_of_none hk]
  | some x =>
      obtain ⟨words, hdistinct, hsent, hnoted⟩ := wordsAt p media run k
      rcases hnoted x.1 x.2 hk with ⟨hforgets, -⟩ | ⟨-, -, hspeaks⟩
      · rw [hremembers x hk] at hforgets
        cases hforgets
      · rw [hnotes hspeaks, if_neg fun h =>
          hsilent ((sendsAt_iff hsuite hdistinct hsent tag).mpr h)]

/-- **The note tells of the previous signal of the kind**, by induction on the steps since then. -/
theorem Notes.of_previous (hnotes : Notes tag note) (hsuite : p.suite.Invertible)
    (h : Previous p media run tag k i before) :
    note (sessionAt p media run k) = some before := by
  obtain ⟨o, hi⟩ := h.moment
  have hsince : ∀ j, i + 1 ≤ j → j ≤ k → note (sessionAt p media run j) = some before := by
    intro j hj
    induction j, hj using Nat.le_induction with
    | base => exact fun _ => hnotes.of_sendsAt hsuite hi h.sends
    | succ j hj ih =>
        intro hjk
        have hbetween : i < j ∧ j < k := by omega
        rw [hnotes.of_not_sendsAt hsuite
          (fun x => h.remembered j x hbetween.1 hbetween.2)
          (h.last j hbetween.1 hbetween.2)]
        exact ih (Nat.le_of_lt hbetween.2)
  exact hsince k h.earlier (Nat.le_refl k)

end

/-- What is not recent was long enough ago. -/
theorem le_of_not_isRecent {length : Duration} (h : isRecent now length (some before) = false) :
    length ≤ now - before :=
  Nat.le_of_not_lt (of_decide_eq_false h)

/-- What a step sends on an announcement is one of the replies to it, and the session has not passed
over the announcement. -/
theorem replies_of_sendsAt (hsuite : p.suite.Invertible) (hk : run[k]? = some (now, .event e))
    (hheard : p.heard? e = some .join) (hsends : SendsAt p media run tag k) :
    tag ∈ p.replies .join ∧
      (sessionAt p media run k).handle p now e ≠ sessionAt p media run k := by
  obtain ⟨words, hdistinct, hsent, hnoted⟩ := wordsAt p media run k
  have hmem := (sendsAt_iff hsuite hdistinct hsent tag).mp hsends
  refine ⟨?_, ?_⟩
  · have hkinds : p.kinds e = p.replies .join := by
      obtain ⟨m, n, rfl, -⟩ := heard?_eq_some hheard
      rw [Party.kinds, hheard]
      rfl
    rcases hnoted now _ hk with ⟨-, rfl⟩ | ⟨-, hwords, -⟩
    · exact absurd hmem List.not_mem_nil
    · rw [← hkinds]
      exact hwords.subset hmem
  · intro hsame
    have hstep : sessionAt p media run (k + 1) = sessionAt p media run k :=
      (sessionAt_succ hk).trans hsame
    obtain ⟨m, hm, -⟩ := hsends
    rw [sentAt, deedsAt, hstep, (added_nil rfl).deedsSince_eq] at hm
    cases hm

/-- The stages at which no description has been exchanged. -/
theorem isPreNegotiation_iff {stage : Stage} : stage.isPreNegotiation = true ↔
    stage = .idle ∨ stage = .initializingHardware ∨ stage = .startingDiscovery ∨
      stage = .peerFound := by
  cases stage <;> simp [Stage.isPreNegotiation]

/-- **Announcements are answered at intervals.** Whatever happens to a session, in any order and at
any readings of the clock, the messages of one step are of distinct kinds, each of one. If an
announcement is answered with an offer, the previous offer, whatever it was made for, is a grace
period ago, and if it is answered with an announcement, no description has been exchanged and the
previous announcement is long enough ago, unless the session was bound or a farewell taken up in
between. -/
theorem announcements_answered_at_intervals (p : Party σ) (hsuite : p.suite.Invertible) (media : σ)
    (run : List (Instant × Occurrence σ)) :
    (∀ k, ∃ tags : List Tag, tags.Nodup ∧
      (sessionAt p media run k).ShowsEach p (sentAt p media run k) tags) ∧
    ∀ k now e, run[k]? = some (now, .event e) → p.heard? e = some .join →
      (SendsAt p media run .offer k → p.role = .host ∧
        ∀ i before, Previous p media run .offer k i before →
          p.config.watchdogGrace ≤ now - before) ∧
      (SendsAt p media run .join k → p.role = .joiner ∧
        (sessionAt p media run k).stage.isPreNegotiation = true ∧
        ∀ i before, Previous p media run .join k i before →
          p.config.rejoinInterval ≤ now - before) := by
  refine ⟨fun k => ?_, fun k now e hk hheard => ⟨fun hsends => ?_, fun hsends => ?_⟩⟩
  · obtain ⟨words, hdistinct, hsent, -⟩ := wordsAt p media run k
    exact ⟨_, hdistinct.1, showsEach_of_sent hsuite hdistinct.2 hsent⟩
  · obtain ⟨hreply, hchanged⟩ := replies_of_sendsAt hsuite hk hheard hsends
    obtain ⟨hheeds, -⟩ := heeds_of_changed hheard hchanged
    cases hrole : p.role with
    | joiner => simp [Party.replies, hrole] at hreply
    | host =>
        refine ⟨rfl, fun i before hprevious => ?_⟩
        have hrecent := hheeds hrole
        rw [notes_offer.of_previous hsuite hprevious] at hrecent
        exact le_of_not_isRecent hrecent
  · obtain ⟨hreply, hchanged⟩ := replies_of_sendsAt hsuite hk hheard hsends
    obtain ⟨-, hheeds⟩ := heeds_of_changed hheard hchanged
    cases hrole : p.role with
    | host => simp [Party.replies, hrole] at hreply
    | joiner =>
        obtain ⟨hstage, hrecent⟩ := hheeds hrole
        refine ⟨rfl, hstage, fun i before hprevious => ?_⟩
        rw [notes_join.of_previous hsuite hprevious] at hrecent
        exact le_of_not_isRecent hrecent

/-- Without sealing a message shows its own kind. -/
theorem sendsAt_of_unsealed (hunsealed : p.config.encryptSignaling = false)
    (htag : tag ≠ .encrypted)
    (h : ∃ m ∈ sentAt p media run k, m.sender = p.sender ∧ m.tag = tag) :
    SendsAt p media run tag k := by
  obtain ⟨m, hm, hsender, rfl⟩ := h
  refine ⟨m, hm, m.signal, isEnvelope_of_tag htag, rfl, ?_⟩
  rw [Session.form?, outcome_dress, hunsealed, Bool.and_false, ← hsender]
  cases (sessionAt p media run k).peerKey <;> rfl

theorem not_sendsAt_of_silent (h : sentAt p media run k = []) : ¬ SendsAt p media run tag k := by
  rintro ⟨m, hm, -⟩
  rw [h] at hm
  cases hm

/-- A peer announces itself. -/
def peerComes (sender : String) : Occurrence Probe := .event (.message ⟨sender, .join⟩)

/-- The media fail, the host hands over, and its engine is reset; a peer announces itself at once,
and again when the grace period has passed since the handover. -/
def handedOver : List (Instant × Occurrence Probe) :=
  [(0, .bind 0), (7, .event (.engine .failed)), (5000000007, .event .watchdog),
    (5000000008, .engine (.start 1)), (5000000009, peerComes "joiner"),
    (10000000007, peerComes "joiner")]

/-- A joiner that does not seal. -/
def plainJoiner : Party Probe := { plainHost with role := .joiner, sender := "joiner" }

/-- The channel connects, and the host announces itself at once and a second later. -/
def announcedTwice : List (Instant × Occurrence Probe) :=
  [(0, .bind 0), (1, .event (.channel .connected)), (2, peerComes "host"),
    (1000000001, peerComes "host")]

/-- Both times the first announcement is passed over and the second one answered. -/
theorem announcements_answered_at_intervals_later :
    Suite.standard.Invertible ∧
    (Previous plainHost (.start 1) handedOver .offer 5 2 5000000007 ∧
      SendsAt plainHost (.start 1) handedOver .offer 5 ∧
      plainHost.config.watchdogGrace ≤ 10000000007 - 5000000007) ∧
    Previous plainJoiner (.start 1) announcedTwice .join 3 1 1 ∧
      SendsAt plainJoiner (.start 1) announcedTwice .join 3 ∧
      (sessionAt plainJoiner (.start 1) announcedTwice 3).stage.isPreNegotiation = true ∧
      plainJoiner.config.rejoinInterval ≤ 1000000001 - 1 := by
  have hhost : Previous plainHost (.start 1) handedOver .offer 5 2 5000000007 := by
    refine ⟨by decide, ⟨_, rfl⟩, sendsAt_of_unsealed rfl (by decide) (by decide +kernel), ?_, ?_⟩
    · intro j hj hjk
      obtain rfl | rfl : j = 3 ∨ j = 4 := by omega
      · exact not_sendsAt_of_silent (by decide +kernel)
      · exact not_sendsAt_of_silent (by decide +kernel)
    · intro j x hj hjk hx
      obtain rfl | rfl : j = 3 ∨ j = 4 := by omega
      · cases hx
        rfl
      · cases hx
        rfl
  have hjoiner : Previous plainJoiner (.start 1) announcedTwice .join 3 1 1 := by
    refine ⟨by decide, ⟨_, rfl⟩, sendsAt_of_unsealed rfl (by decide) (by decide +kernel), ?_, ?_⟩
    · intro j hj hjk
      obtain rfl : j = 2 := by omega
      exact not_sendsAt_of_silent (by decide +kernel)
    · intro j x hj hjk hx
      obtain rfl : j = 2 := by omega
      cases hx
      rfl
  have hoffers : SendsAt plainHost (.start 1) handedOver .offer 5 :=
    sendsAt_of_unsealed rfl (by decide) (by decide +kernel)
  have hjoins : SendsAt plainJoiner (.start 1) announcedTwice .join 3 :=
    sendsAt_of_unsealed rfl (by decide) (by decide +kernel)
  obtain ⟨-, hhosts⟩ := announcements_answered_at_intervals plainHost Suite.invertible_standard
    (.start 1) handedOver
  obtain ⟨-, hjoiners⟩ := announcements_answered_at_intervals plainJoiner Suite.invertible_standard
    (.start 1) announcedTwice
  obtain ⟨-, hgrace⟩ := (hhosts 5 _ _ rfl rfl).1 hoffers
  obtain ⟨-, hstage, hinterval⟩ := (hjoiners 3 _ _ rfl rfl).2 hjoins
  exact ⟨Suite.invertible_standard, ⟨hhost, hoffers, hgrace 2 _ hhost⟩, hjoiner, hjoins, hstage,
    hinterval 1 _ hjoiner⟩

end PeerCall.Handshake
