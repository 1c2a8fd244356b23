import PeerCall.Proofs.Rehearsal.Meetings

/-!
# What a turn leaves of a meeting

What holds all the time of a host and a joiner that meet, and what one turn of either side makes of
it. What a side says before the other end is connected is lost, so the invariant follows the
announcements of the joiner: none was lost, or they were lost and the host is not there yet, has not
been heard yet, was heard too soon, or was heard and answered.
-/
namespace PeerCall.Rehearsal.Duet

open Handshake

/-! ## What is lost and what is left -/

/-- A message is an announcement of one device to another. -/
def IsJoin (q p : Party Probe) (m : Message) : Prop := q.read? m = some ⟨p.sender, .join⟩

instance (q p : Party Probe) (m : Message) : Decidable (IsJoin q p m) :=
  inferInstanceAs (Decidable (_ = _))

/-- Whether a signal is an announcement. -/
def isJoin : Signal → Bool
  | .join => true
  | _ => false

/-- All that a side has sent has come to the other side, but for small talk at first. -/
def Reaches (p q : Party Probe) (far : Role) (c d : Call Probe) (past : List Happening) : Prop :=
  ∃ dropped, c.session.sent = dropped ++ came far d past ∧
    ∀ m ∈ dropped, ∀ signal, q.read? m = some ⟨p.sender, signal⟩ → SmallTalk p signal

/-- The session that a side has, or would have if it were bound at some moment. -/
def ready (p : Party Probe) (near : Role) (moment : Instant) (c : Call Probe) : Session Probe :=
  if c.binding.isSome then c.session else (c.bind p moment (number near)).session

/-- A side has taken a turn in which it said these words. Between the two figures lies what the turn
cost beyond what was allowed for. -/
structure Turned (near : Role) (p q : Party Probe) (c c' : Call Probe) (l : Loopback)
    (past past' : List Happening) (words : List Signal) (before after : Nat) : Prop where
  placed : ∃ b, Present near q c' ⟨l.state, c'.session.sent⟩ past' b
  utters : Utters p q c.session c'.session words
  came : came near c' past' = came near c past
  cost : owes near c' + weigh (facing near) (reads p (waiting c')) + weigh near words + 1 + after ≤
    owes near c + weigh (facing near) (reads p (waiting c)) + before

section
variable {limit : Nat} {at' : Net.Address} {near : Role} {p q : Party Probe}
  {c c' d d' : Call Probe} {l l' : Loopback} {past past' : List Happening} {b b' : Binding}
  {now : Instant} {event : Event} {e : Option Event} {words : List Signal} {allowance : Nat}
  {m : Message} {ms rest : List Message} {signal : Signal} {before after : Nat}

theorem mem_reads (hm : m ∈ ms) (hread : q.read? m = some ⟨p.sender, signal⟩) :
    signal ∈ reads q ms := by
  refine List.mem_filterMap.mpr ⟨m, hm, ?_⟩
  rw [hread]
  rfl

theorem join_mem_reads (hread : ∀ n ∈ ms, ∃ signal, q.read? n = some ⟨p.sender, signal⟩) :
    .join ∈ reads q ms ↔ ∃ n ∈ ms, IsJoin q p n := by
  constructor
  · intro h
    obtain ⟨n, hn, hsignal⟩ := List.mem_filterMap.mp h
    obtain ⟨signal, hread'⟩ := hread n hn
    rw [hread'] at hsignal
    cases hsignal
    exact ⟨n, hn, hread'⟩
  · rintro ⟨n, hn, hjoin⟩
    exact mem_reads hn hjoin

/-- A side that takes no turns hears nothing. -/
theorem heardBy_eq_nil (h : ∀ t e, .turn near t e ∉ past) : heardBy near past = [] := by
  rw [List.eq_nil_iff_forall_not_mem]
  intro m hm
  obtain ⟨t, hturn⟩ := mem_heardBy.mp hm
  exact h t _ hturn

/-- Nothing has come to a side that is not bound. -/
theorem Absent.came (h : Absent near c l past) : came near c past = [] := by
  rw [Duet.came, heardBy_eq_nil h.idle, waiting, h.binding]
  rfl

theorem came_hear (hfar : Placed (facing near) q d l past)
    (hroom : (waiting d).length + ms.length ≤ messageCapacity) :
    came (facing near) (d.hear ms) (.turn near now e :: past) =
      came (facing near) d past ++ if d.binding.isSome then ms else [] := by
  rw [came, came, heardBy_turn_facing, waiting_hear hfar hroom, List.append_assoc]

/-- A side that has taken a turn is bound. -/
theorem Placed.bound (hs : Placed near q c l past) {t : Instant} (h : .turn near t e ∈ past) :
    c.binding.isSome = true := by
  rcases hs with habsent | ⟨b, hpresent⟩
  · exact absurd h (habsent.idle t e)
  · exact hpresent.isBound

/-- What the near side says comes to the far side, or is lost. -/
theorem Reaches.turn (hflow : Reaches p q (facing near) c d past)
    (hfar : Placed (facing near) p d l' past)
    (hroom : (waiting d).length + ms.length ≤ messageCapacity)
    (hsent : c'.session.sent = c.session.sent ++ ms) (hwords : reads q ms = words)
    (htalk : d.binding = none → ∀ signal ∈ words, SmallTalk p signal) :
    Reaches p q (facing near) c' (d.hear ms) (.turn near now e :: past) := by
  obtain ⟨dropped, hdropped, hsmall⟩ := hflow
  have hcame : came (facing near) (d.hear ms) (.turn near now e :: past) = _ :=
    came_hear hfar hroom
  rcases hfar with habsent | ⟨b, hpresent⟩
  · have hnone := habsent.binding
    rw [hnone] at hcame
    refine ⟨dropped ++ ms, ?_, ?_⟩
    · rw [hcame, habsent.came, hsent, hdropped, habsent.came]
      simp
    · intro m hm signal hread
      rcases List.mem_append.mp hm with hm | hm
      · exact hsmall m hm signal hread
      · exact htalk hnone signal (hwords ▸ mem_reads hm hread)
  · rw [hpresent.binding] at hcame
    refine ⟨dropped, ?_, hsmall⟩
    rw [hcame, hsent, hdropped, List.append_assoc]
    rfl

/-- Nothing more was sent, and nothing more has come. -/
theorem Reaches.of_eq (hflow : Reaches q p near d c past)
    (hsent : d'.session.sent = d.session.sent)
    (hcame : came near c' past' = came near c past) : Reaches q p near d' c' past' := by
  obtain ⟨dropped, hdropped, hsmall⟩ := hflow
  refine ⟨dropped, ?_, hsmall⟩
  rw [hsent, hcame]
  exact hdropped

/-- Only what was sent waits. -/
theorem Reaches.sent (hflow : Reaches q p near d c past) (hm : m ∈ waiting c) :
    m ∈ d.session.sent := by
  obtain ⟨dropped, hdropped, -⟩ := hflow
  rw [hdropped]
  exact List.mem_append_right _ (List.mem_append_right _ hm)

/-- What waits weighs as much as it is long, at least. -/
theorem Reaches.length_waiting (hflow : Reaches q p near d c past) (hd : Clear q p d.session)
    (speaker : Role) : (waiting c).length ≤ weigh speaker (reads p (waiting c)) := by
  have hread : ∀ m ∈ waiting c, ∃ signal, p.read? m = some ⟨q.sender, signal⟩ :=
    fun m hm => hd.read m (hflow.sent hm)
  rw [← length_reads hread]
  exact length_le_weigh ..

theorem ready_of_present (h : Present near q c l past b) (p : Party Probe) (moment : Instant) :
    ready p near moment c = c.session := by
  rw [ready, h.binding]
  rfl

theorem ready_hear (hs : Placed near q c l past)
    (hroom : (waiting c).length + ms.length ≤ messageCapacity) (p : Party Probe)
    (moment : Instant) : ready p near moment (c.hear ms) = ready p near moment c := by
  rcases hs with habsent | ⟨b, hpresent⟩
  · rw [hear_of_none habsent.binding]
  · rw [ready, ready, hpresent.binding_hear hroom, hpresent.binding, Call.session_hear]
    rfl

/-! ## Turns -/

theorem waiting_mk (s : Session Probe) (b : Binding) :
    waiting ⟨s, some b⟩ = b.messages.waiting := rfl

theorem Present.waiting_eq (h : Present near q c l past b) : waiting c = b.messages.waiting := by
  rw [waiting, h.binding]
  rfl

/-- The first look. -/
theorem Present.turned_look (now : Instant) (n : Nat) (he : Equipped limit at' p)
    (hu : Understood limit p q) (hs : Present near q c l past b) (hrole : p.role = near)
    (hfresh : b.started = false)
    (hsteady : Steady limit p q c.session.bare) (hopening : Opening c.session.bare) :
    let c' : Call Probe := ⟨c.session.handle p now (.channel .connected), some { b with
      started := true, channelSeen := 1, engineSeen := c.session.media.report.version }⟩
    Turned near p q c c' l past (.turn near now none :: past) (greeting p) n n ∧
      c'.session.lastJoin = some now := by
  intro c'
  obtain ⟨hplaced, hutters, hlast, hcost⟩ := hs.look now he hu hrole hfresh hsteady hopening
  have hwaiting : waiting c' = waiting c := hs.waiting_eq.symm
  refine ⟨⟨⟨_, hplaced⟩, hutters, ?_, ?_⟩, hlast⟩
  · rw [came, came, hwaiting]
    rfl
  · change owes near c' + weigh near (greeting p) + 1 ≤ owes near c at hcost
    rw [hwaiting]
    omega

/-- A turn that takes up no message. -/
theorem Present.turned_local (n : Nat) (hs : Present near q c l past b) (hrole : p.role = near)
    (hstarted : b.started = true) (hp : Picked c.session b event b')
    (hlocal : ∀ m, event ≠ .message m)
    (hreply : Reply p q c.session (c.session.handle p now event) words (price event)) :
    Turned near p q c ⟨c.session.handle p now event, some b'⟩ l past
      (.turn near now (some event) :: past) words n n := by
  obtain ⟨hplaced, hcost⟩ := hs.take now hrole hstarted hp hreply
  have hwaiting : b'.messages.waiting = b.messages.waiting := by
    cases hp with
    | message m rest h => exact absurd rfl (hlocal m)
    | engine h => rfl
    | candidate found seen h hseen hall => rfl
  refine ⟨⟨_, hplaced⟩, hreply.utters, hp.came_eq hs.binding _, ?_⟩
  rw [waiting_mk, hwaiting, hs.waiting_eq]
  omega

/-- A turn that takes up a message. -/
theorem Present.turned_message (hs : Present near q c l past b) (hrole : p.role = near)
    (hstarted : b.started = true) (hp : Picked c.session b (.message m) b')
    (hread : p.read? m = some ⟨q.sender, signal⟩)
    (hreply : Reply p q c.session (c.session.handle p now (.message m)) words allowance)
    (hallowed : allowance + after ≤ weight (facing near) signal + before) :
    Turned near p q c ⟨c.session.handle p now (.message m), some b'⟩ l past
      (.turn near now (some (.message m)) :: past) words before after := by
  obtain ⟨hplaced, hcost⟩ := hs.take now hrole hstarted hp hreply
  have hwaiting : b.messages.waiting = m :: b'.messages.waiting := by
    cases hp with
    | message m rest h => exact h
  have hreads : reads p (m :: b'.messages.waiting) = signal :: reads p b'.messages.waiting := by
    rw [reads, List.filterMap_cons, hread]
    rfl
  have hweigh : weigh (facing near) (signal :: reads p b'.messages.waiting) =
      weight (facing near) signal + weigh (facing near) (reads p b'.messages.waiting) := rfl
  refine ⟨⟨_, hplaced⟩, hreply.utters, hp.came_eq hs.binding _, ?_⟩
  rw [waiting_mk, hs.waiting_eq, hwaiting, hreads, hweigh]
  simp only [price] at hcost
  omega

end

/-! ## The invariant -/

/-- The joiner greeted before the host was bound, and took up an announcement of the host within its
interval after that. -/
def TooSoon (h j : Party Probe) (past : List Happening) : Prop :=
  ∃ t₀ t m, List.Sublist [.bound .host, .turn .joiner t₀ none] past ∧
    .turn .joiner t (some (.message m)) ∈ past ∧ IsJoin j h m ∧ t - t₀ < j.config.rejoinInterval

/-- When the joiner looked. -/
def looks (past : List Happening) : List Instant :=
  past.filterMap fun
    | .turn .joiner t none => some t
    | _ => none

/-- When the joiner took up announcements of the host. -/
def hearings (h j : Party Probe) (past : List Happening) : List Instant :=
  past.filterMap fun
    | .turn .joiner t (some (.message m)) => if IsJoin j h m then some t else none
    | _ => none

theorem mem_looks {past : List Happening} {t : Instant} :
    t ∈ looks past ↔ .turn .joiner t none ∈ past := by
  constructor
  · intro h
    obtain ⟨happening, hmem, hlook⟩ := List.mem_filterMap.mp h
    split at hlook
    · cases hlook
      exact hmem
    · cases hlook
  · exact fun h => List.mem_filterMap.mpr ⟨_, h, rfl⟩

theorem mem_hearings {h j : Party Probe} {past : List Happening} {t : Instant} :
    t ∈ hearings h j past ↔ ∃ m, .turn .joiner t (some (.message m)) ∈ past ∧ IsJoin j h m := by
  constructor
  · intro h
    obtain ⟨happening, hmem, hheard⟩ := List.mem_filterMap.mp h
    split at hheard
    · split at hheard
      · rename_i m hjoin
        cases hheard
        exact ⟨m, hmem, hjoin⟩
      · cases hheard
    · cases hheard
  · rintro ⟨m, hmem, hjoin⟩
    exact List.mem_filterMap.mpr ⟨_, hmem, if_pos hjoin⟩

theorem tooSoon_iff {h j : Party Probe} {past : List Happening} :
    TooSoon h j past ↔ ∃ t₀ ∈ looks past, ∃ t ∈ hearings h j past,
      List.Sublist [.bound .host, .turn .joiner t₀ none] past ∧
        t - t₀ < j.config.rejoinInterval := by
  constructor
  · rintro ⟨t₀, t, m, horder, hturn, hjoin, hlt⟩
    have hlook : .turn .joiner t₀ none ∈ past :=
      horder.subset (List.mem_cons_of_mem _ List.mem_cons_self)
    exact ⟨t₀, mem_looks.mpr hlook, t, mem_hearings.mpr ⟨m, hturn, hjoin⟩, horder, hlt⟩
  · rintro ⟨t₀, -, t, ht, horder, hlt⟩
    obtain ⟨m, hturn, hjoin⟩ := mem_hearings.mp ht
    exact ⟨t₀, t, m, horder, hturn, hjoin, hlt⟩

instance (h j : Party Probe) (past : List Happening) : Decidable (TooSoon h j past) :=
  decidable_of_iff' _ tooSoon_iff

/-- What has become of the announcements of the joiner. -/
inductive Announced (h j : Party Probe) (c d : Call Probe) (past : List Happening) : Prop
  /-- None was lost. -/
  | kept (hfair : ∀ t, ¬ List.Sublist [.bound .host, .turn .joiner t none] past)
    (halone : c.binding = none → ∀ t, .turn .joiner t none ∉ past)
    (hsent : d.session.sent = came .host c past)
  /-- They were lost, and the host is not there yet. -/
  | alone (t₀ : Instant) (hhost : c.binding = none) (hlast : d.session.lastJoin = some t₀)
    (hlook : .turn .joiner t₀ none ∈ past) (honce : ∀ t, .turn .joiner t none ∈ past → t = t₀)
  /-- They were lost, and the host was not heard yet. -/
  | lost (t₀ : Instant) (hlast : d.session.lastJoin = some t₀)
    (horder : List.Sublist [.bound .host, .turn .joiner t₀ none] past)
    (honce : ∀ t, .turn .joiner t none ∈ past → t = t₀)
    (hdeaf : ∀ m ∈ heardBy .joiner past, ¬ IsJoin j h m)
    (hquiet : ∀ m ∈ came .host c past, ¬ IsJoin h j m)
    (hsent : c.session.sent = came .joiner d past)
  /-- They were lost, and the host was heard too soon. -/
  | missed (hsoon : TooSoon h j past) (hheard : ∃ m ∈ heardBy .joiner past, IsJoin j h m)
    (hquiet : ∀ m ∈ came .host c past, ¬ IsJoin h j m)
    (hsent : c.session.sent = came .joiner d past)
  /-- They were lost, and the host was heard late enough, and answered. -/
  | answered (hlate : ∀ t₀ t m, .turn .joiner t₀ none ∈ past →
      .turn .joiner t (some (.message m)) ∈ past → IsJoin j h m →
      j.config.rejoinInterval ≤ t - t₀)
    (hheard : ∃ m ∈ heardBy .joiner past, IsJoin j h m)
    (hloud : ∃ m ∈ came .host c past, IsJoin h j m)
    (hsent : c.session.sent = came .joiner d past)

/-- What holds all the time of a host and a joiner that meet. -/
structure Underway (limit : Nat) (h j : Party Probe) (a b : Loopback) (c d : Call Probe)
    (past : List Happening) : Prop where
  host : Placed .host j c a past
  joiner : Placed .joiner h d b past
  agreed : ∀ t t', Agreed limit h j
    ⟨ready h .host t c, ready j .joiner t' d, heardBy .host past, heardBy .joiner past⟩
  toJoiner : Reaches h j .joiner c d past
  toHost : Reaches j h .host d c past
  /-- Without an announcement the host does not offer. -/
  offers : c.session.offers j ≠ 0 → ∃ m ∈ heardBy .host past, IsJoin h j m
  /-- The host announces itself once. -/
  once : (c.session.said j).countP isJoin ≤ 1
  announced : Announced h j c d past
  cost : turnsIn past + owes .host c + owes .joiner d + reserve j c.session +
    weigh .joiner (reads h (waiting c)) + weigh .host (reads j (waiting d)) ≤ 21

section
variable {limit : Nat} {hostAt joinerAt : Net.Address} {h j p q : Party Probe} {a b : Loopback}
  {c c' d d' : Call Probe} {past : List Happening} {now : Instant} {errand : Errand}
  {e : Option Event} {words : List Signal}

theorem countP_isJoin (h : .join ∉ words) : words.countP isJoin = 0 := by
  rw [List.countP_eq_zero]
  intro signal hsignal hjoin
  cases signal with
  | join => exact h hsignal
  | _ => cases hjoin

theorem countP_isJoin_greeting (p : Party Probe) : (greeting p).countP isJoin = 1 := by
  unfold greeting ownKey
  cases p.config.encryptSignaling <;> cases p.config.readyMessage <;> rfl

theorem smallTalk_greeting {signal : Signal} (h : signal ∈ greeting p) : SmallTalk p signal := by
  rcases List.mem_append.mp h with h | h
  · rw [eq_of_mem_ownKey h]
    rfl
  · rcases List.mem_cons.mp h with rfl | h
    · trivial
    · obtain ⟨text, -, rfl⟩ := List.mem_map.mp h
      trivial

theorem offers_greeting {s : Session Probe} (h : Utters p q c.session s (greeting p)) :
    s.offers q = c.session.offers q :=
  offers_of_smallTalk h.said_eq fun _ => smallTalk_greeting

theorem take_of_absent {near : Role} {l : Loopback} (h : Absent near c l past)
    (htake : c.take? p now l.state errand = some (e, c')) : False := by
  rw [Call.take?, h.binding] at htake
  cases htake

/-- A side to which something has come faces a side that is bound. -/
theorem Reaches.present {near : Role} {l : Loopback} {m : Message}
    (hflow : Reaches p q near c d past) (hplaced : Placed (facing near) q c l past)
    (hm : m ∈ waiting d) : ∃ b, Present (facing near) q c l past b := by
  refine hplaced.resolve_left fun habsent => ?_
  have hsent := hflow.sent hm
  rw [habsent.sent] at hsent
  exact List.not_mem_nil hsent

/-- What the invariant says of a host that is bound. -/
theorem Underway.host_part (hx : Underway limit h j a b c d past) {b' : Binding}
    (hs : Present .host j c a past b') (t : Instant) :
    Agreed limit h j
      ⟨c.session, ready j .joiner t d, heardBy .host past, heardBy .joiner past⟩ := by
  have hagreed := hx.agreed 0 t
  rw [ready_of_present hs] at hagreed
  exact hagreed

/-- A host that has not looked yet has said nothing. -/
theorem Underway.host_fresh (hx : Underway limit h j a b c d past) {b' : Binding}
    (hs : Present .host j c a past b') (hfresh : b'.started = false) :
    c.session.said j = [] ∧ Opening c.session.bare := by
  have hsaid : c.session.said j = [] := by
    rw [said_eq_reads, (hs.fresh hfresh).1]
    rfl
  rcases (hx.host_part hs 0).host.phase with ⟨-, hopening⟩ | hoffered
  · exact ⟨hsaid, hopening⟩
  · have honce : (c.session.said j).countP isOffer = 1 := hoffered.once
    rw [hsaid] at honce
    cases honce

/-- What a turn of the host, in which it says these words, leaves of the invariant. -/
structure HostTurn (limit : Nat) (h j : Party Probe) (a : Loopback) (c c' d : Call Probe)
    (past past' : List Happening) (words : List Signal) : Prop where
  turned : Turned .host h j c c' a past past' words (reserve j c.session) (reserve j c'.session)
  agreed : ∀ t, Agreed limit h j
    ⟨c'.session, ready j .joiner t d, heardBy .host past', heardBy .joiner past'⟩
  talk : d.binding = none → ∀ signal ∈ words, SmallTalk h signal
  offers : c'.session.offers j ≠ 0 → ∃ m ∈ heardBy .host past', IsJoin h j m
  once : (c'.session.said j).countP isJoin ≤ 1

theorem reserve_eq {s t : Session Probe} (h : t.offers q = s.offers q) :
    reserve q t = reserve q s := by rw [reserve, reserve, h]

/-- The host looks. -/
theorem Underway.host_look (hc : Couple limit hostAt joinerAt h j)
    (hx : Underway limit h j a b c d past) {b' : Binding} (hs : Present .host j c a past b')
    (hfresh : b'.started = false) (now : Instant) :
    HostTurn limit h j a c ⟨c.session.handle h now (.channel .connected), some { b' with
      started := true, channelSeen := 1, engineSeen := c.session.media.report.version }⟩ d past
      (.turn .host now none :: past) (greeting h) := by
  obtain ⟨hsaid, hopening⟩ := hx.host_fresh hs hfresh
  obtain ⟨hturned, -⟩ := hs.turned_look now (reserve j c.session) hc.host hc.toJoiner hc.hostRole
    hfresh (hx.host_part hs 0).host.steady hopening
  have hoffers := offers_greeting hturned.utters
  refine ⟨?_, ?_, fun _ _ => smallTalk_greeting, ?_, ?_⟩
  · rw [reserve_eq hoffers]
    exact hturned
  · exact fun t => (hx.host_part hs t).step hc now (.host (.channel .connected)) rfl
  · rw [hoffers, Session.offers, hsaid]
    exact fun h => absurd rfl h
  · refine Nat.le_of_eq ?_
    rw [hturned.utters.said_eq, hsaid, List.nil_append, countP_isJoin_greeting]

/-- The host does something of its own. -/
theorem Underway.host_local (hc : Couple limit hostAt joinerAt h j)
    (hx : Underway limit h j a b c d past) {b' b'' : Binding} (hs : Present .host j c a past b')
    (hstarted : b'.started = true) {event : Event} (hp : Picked c.session b' event b'')
    (hlocal : Local limit h now c.session event) (hother : ∀ m, event ≠ .message m)
    (hreply : Reply h j c.session (c.session.handle h now event) words (price event))
    (hwords : ∀ signal ∈ words, ∃ c, signal = .iceCandidate c) :
    HostTurn limit h j a c ⟨c.session.handle h now event, some b''⟩ d past
      (.turn .host now (some event) :: past) words := by
  have hturned := hs.turned_local (reserve j c.session) hc.hostRole hstarted hp hother hreply
  have htalk : ∀ signal ∈ words, SmallTalk h signal := by
    intro signal hsignal
    obtain ⟨found, rfl⟩ := hwords signal hsignal
    trivial
  have hquiet : .join ∉ words := by
    intro hjoin
    obtain ⟨found, hfound⟩ := hwords _ hjoin
    cases hfound
  have hoffers : (c.session.handle h now event).offers j = c.session.offers j :=
    offers_of_smallTalk hturned.utters.said_eq htalk
  have hheard : ∀ side, heardBy side (.turn .host now (some event) :: past) = heardBy side past :=
    fun side => heardBy_turn fun m h => hother m (Option.some.inj h)
  refine ⟨?_, ?_, fun _ => htalk, ?_, ?_⟩
  · rw [reserve_eq hoffers]
    exact hturned
  · intro t
    rw [hheard, hheard]
    exact (hx.host_part hs t).step hc now (.host event) hlocal
  · rw [hoffers, hheard]
    exact hx.offers
  · rw [hturned.utters.said_eq, List.countP_append, countP_isJoin hquiet]
    exact hx.once

/-- The host takes up a message. -/
theorem Underway.host_message (hc : Couple limit hostAt joinerAt h j)
    (hx : Underway limit h j a b c d past) {b' b'' : Binding} (hs : Present .host j c a past b')
    (hstarted : b'.started = true) {m : Message} (hp : Picked c.session b' (.message m) b'')
    (hm : m ∈ waiting c) (now : Instant) :
    ∃ words, HostTurn limit h j a c ⟨c.session.handle h now (.message m), some b''⟩ d past
      (.turn .host now (some (.message m)) :: past) words := by
  have hpresent : ∃ b₂, Present .joiner h d b past b₂ := hx.toHost.present hx.joiner hm
  obtain ⟨b₂, hd⟩ := hpresent
  have hagreed : Agreed limit h j
      ⟨c.session, d.session, heardBy .host past, heardBy .joiner past⟩ := by
    have hagreed := hx.host_part hs 0
    rw [ready_of_present hd] at hagreed
    exact hagreed
  have hsent := hx.toHost.sent hm
  obtain ⟨signal, hread⟩ := hagreed.joiner.clear.read m hsent
  have hsaid := mem_said hsent hread
  have hanswered : ∀ answer, signal = .answer answer → c.session.offers j = 1 := by
    rintro answer rfl
    exact hagreed.answered answer hsaid
  obtain ⟨words, allowance, hreply⟩ := hagreed.host.reply now hc.host hc.toJoiner hc.hostRole
    hread (hagreed.joiner.speech signal hsaid) hanswered
  have hturned := hs.turned_message hc.hostRole hstarted hp hread hreply.reply hreply.allowed
  refine ⟨words, hturned, ?_, ?_, ?_, ?_⟩
  · intro t
    rw [ready_of_present hd, heardBy_message]
    exact hagreed.step hc now (.toHost m) hsent
  · rw [hd.binding]
    exact fun h => nomatch h
  · intro hoffers
    rw [heardBy_message]
    by_cases hjoin : signal = .join
    · subst hjoin
      exact ⟨m, List.mem_cons_self, hread⟩
    · have hbefore : c.session.offers j ≠ 0 := by
        rw [← hreply.offers hjoin]
        exact hoffers
      obtain ⟨n, hn, hjoin'⟩ := hx.offers hbefore
      exact ⟨n, List.mem_cons_of_mem _ hn, hjoin'⟩
  · rw [hturned.utters.said_eq, List.countP_append, countP_isJoin hreply.quiet]
    exact hx.once

/-- **A turn of the host.** -/
theorem Underway.host_turn (hc : Couple limit hostAt joinerAt h j)
    (hx : Underway limit h j a b c d past) (htake : c.take? h now a.state errand = some (e, c')) :
    ∃ words, HostTurn limit h j a c c' d past (.turn .host now e :: past) words := by
  obtain ⟨b', hs⟩ := hx.host.resolve_left fun habsent => take_of_absent habsent htake
  have hpart := (hx.host_part hs 0).host
  have hready : b'.started = false → c.session.media.report.value = .ready :=
    fun hfresh => (hx.host_fresh hs hfresh).2.report
  rcases hs.take_cases hc.host hpart.steady.watchdog hready htake with
    ⟨hfresh, rfl, rfl⟩ | ⟨hstarted, event, b'', rfl, rfl, hp⟩
  · exact ⟨_, hx.host_look hc hs hfresh now⟩
  · rcases hp.reply now hc.host hc.toJoiner hpart.steady hpart.settled with
      ⟨m, rest, rfl, hwaiting⟩ | ⟨hlocal, hother, words, hreply, hwords⟩
    · have hm : m ∈ waiting c := by
        rw [hs.waiting_eq, hwaiting]
        exact List.mem_cons_self
      exact hx.host_message hc hs hstarted hp hm now
    · exact ⟨words, hx.host_local hc hs hstarted hp hlocal hother hreply hwords⟩

/-- What the invariant says of a joiner that is bound. -/
theorem Underway.joiner_part (hx : Underway limit h j a b c d past) {b' : Binding}
    (hs : Present .joiner h d b past b') (t : Instant) :
    Agreed limit h j
      ⟨ready h .host t c, d.session, heardBy .host past, heardBy .joiner past⟩ := by
  have hagreed := hx.agreed t 0
  rw [ready_of_present hs] at hagreed
  exact hagreed

/-- A joiner that has not looked yet is ready for the negotiation. -/
theorem Underway.joiner_fresh (hx : Underway limit h j a b c d past) {b' : Binding}
    (hs : Present .joiner h d b past b') (hfresh : b'.started = false) :
    Opening d.session.bare := by
  rcases (hx.joiner_part hs 0).joiner.phase with hopening | ⟨-, answer, hanswer⟩
  · exact hopening
  · have hsaid : d.session.said h = [] := by
      rw [said_eq_reads, (hs.fresh hfresh).1]
      rfl
    rw [hsaid] at hanswer
    cases hanswer

/-- What a turn of the joiner, in which it says these words, leaves of the invariant, and when it
announces itself. -/
structure JoinerTurn (limit : Nat) (h j : Party Probe) (b : Loopback) (c d d' : Call Probe)
    (past : List Happening) (now : Instant) (e : Option Event) (words : List Signal) : Prop where
  turned : Turned .joiner j h d d' b past (.turn .joiner now e :: past) words 0 0
  agreed : ∀ t, Agreed limit h j ⟨ready h .host t c, d'.session,
    heardBy .host (.turn .joiner now e :: past), heardBy .joiner (.turn .joiner now e :: past)⟩
  talk : c.binding = none → ∀ signal ∈ words, SmallTalk j signal
  look : e = none → d'.session.lastJoin = some now ∧ ∀ t e, .turn .joiner t e ∉ past
  looked : e ≠ none → ∃ t, .turn .joiner t none ∈ past
  waiting : ∀ m, e = some (.message m) → m ∈ waiting d
  lastJoin : e ≠ none → d'.session.lastJoin = d.session.lastJoin ∨ .join ∈ words
  joins : e ≠ none → (.join ∈ words ↔ (∃ m, e = some (.message m) ∧ IsJoin j h m) ∧
    d.session.stage.isPreNegotiation = true ∧
    isRecent now j.config.rejoinInterval d.session.lastJoin = false)

/-- The joiner looks. -/
theorem Underway.joiner_look (hc : Couple limit hostAt joinerAt h j)
    (hx : Underway limit h j a b c d past) {b' : Binding} (hs : Present .joiner h d b past b')
    (hfresh : b'.started = false) (now : Instant) :
    JoinerTurn limit h j b c d ⟨d.session.handle j now (.channel .connected), some { b' with
      started := true, channelSeen := 1, engineSeen := d.session.media.report.version }⟩ past now
      none (greeting j) := by
  have hopening := hx.joiner_fresh hs hfresh
  obtain ⟨hturned, hlast⟩ := hs.turned_look now 0 hc.joiner hc.toHost hc.joinerRole hfresh
    (hx.joiner_part hs 0).joiner.steady hopening
  refine ⟨hturned, ?_, fun _ _ => smallTalk_greeting, fun _ => ⟨hlast, (hs.fresh hfresh).2.2⟩,
    fun h => absurd rfl h, fun m h => (nomatch h), fun h => absurd rfl h, fun h => absurd rfl h⟩
  exact fun t => (hx.joiner_part hs t).step hc now (.joiner (.channel .connected)) rfl

/-- The joiner does something of its own. -/
theorem Underway.joiner_local (hc : Couple limit hostAt joinerAt h j)
    (hx : Underway limit h j a b c d past) {b' b'' : Binding} (hs : Present .joiner h d b past b')
    (hstarted : b'.started = true) {event : Event} (hp : Picked d.session b' event b'')
    (hlocal : Local limit j now d.session event) (hother : ∀ m, event ≠ .message m)
    (hreply : Reply j h d.session (d.session.handle j now event) words (price event))
    (hwords : ∀ signal ∈ words, ∃ c, signal = .iceCandidate c) :
    JoinerTurn limit h j b c d ⟨d.session.handle j now event, some b''⟩ past now (some event)
      words := by
  have hquiet : .join ∉ words := by
    intro hjoin
    obtain ⟨found, hfound⟩ := hwords _ hjoin
    cases hfound
  have hheard : ∀ side, heardBy side (.turn .joiner now (some event) :: past) =
      heardBy side past :=
    fun side => heardBy_turn fun m h => hother m (Option.some.inj h)
  refine ⟨hs.turned_local 0 hc.joinerRole hstarted hp hother hreply, ?_, ?_, fun h => (nomatch h),
    fun _ => (hs.awake hstarted).2.2.2, fun m h => absurd (Option.some.inj h) (hother m),
    fun _ => hreply.lastJoin, ?_⟩
  · intro t
    rw [hheard, hheard]
    exact (hx.joiner_part hs t).step hc now (.joiner event) hlocal
  · intro _ signal hsignal
    obtain ⟨found, rfl⟩ := hwords signal hsignal
    trivial
  · refine fun _ => ⟨fun hjoin => absurd hjoin hquiet, ?_⟩
    rintro ⟨⟨m, hm, -⟩, -⟩
    exact absurd (Option.some.inj hm) (hother m)

/-- The joiner takes up a message. -/
theorem Underway.joiner_message (hc : Couple limit hostAt joinerAt h j)
    (hx : Underway limit h j a b c d past) {b' b'' : Binding} (hs : Present .joiner h d b past b')
    (hstarted : b'.started = true) {m : Message} (hp : Picked d.session b' (.message m) b'')
    (hm : m ∈ waiting d) (now : Instant) :
    ∃ words, JoinerTurn limit h j b c d ⟨d.session.handle j now (.message m), some b''⟩ past now
      (some (.message m)) words := by
  have hpresent : ∃ b₂, Present .host j c a past b₂ := hx.toJoiner.present hx.host hm
  obtain ⟨b₂, hhost⟩ := hpresent
  have hagreed : Agreed limit h j
      ⟨c.session, d.session, heardBy .host past, heardBy .joiner past⟩ := by
    have hagreed := hx.joiner_part hs 0
    rw [ready_of_present hhost] at hagreed
    exact hagreed
  have hsent := hx.toJoiner.sent hm
  obtain ⟨signal, hread⟩ := hagreed.host.clear.read m hsent
  obtain ⟨words, hreply, hjoins⟩ := hagreed.joiner.reply now hc.joiner hc.toHost hc.joinerRole
    hread (hagreed.host.speech signal (mem_said hsent hread))
  refine ⟨words, hs.turned_message hc.joinerRole hstarted hp hread hreply (Nat.le_refl _), ?_, ?_,
    fun h => (nomatch h), fun _ => (hs.awake hstarted).2.2.2, ?_, fun _ => hreply.lastJoin, ?_⟩
  · intro t
    rw [ready_of_present hhost, heardBy_message]
    exact hagreed.step hc now (.toJoiner m) hsent
  · rw [hhost.binding]
    exact fun h => nomatch h
  · rintro n hn
    cases hn
    exact hm
  · refine fun _ => hjoins.trans (and_congr_left fun _ => ?_)
    constructor
    · rintro rfl
      exact ⟨m, rfl, hread⟩
    · rintro ⟨n, hn, hjoin⟩
      cases hn
      rw [IsJoin, hread] at hjoin
      cases hjoin
      rfl

/-- **A turn of the joiner.** -/
theorem Underway.joiner_turn (hc : Couple limit hostAt joinerAt h j)
    (hx : Underway limit h j a b c d past) (htake : d.take? j now b.state errand = some (e, d')) :
    ∃ words, JoinerTurn limit h j b c d d' past now e words := by
  obtain ⟨b', hs⟩ := hx.joiner.resolve_left fun habsent => take_of_absent habsent htake
  have hpart := (hx.joiner_part hs 0).joiner
  have hready : b'.started = false → d.session.media.report.value = .ready :=
    fun hfresh => (hx.joiner_fresh hs hfresh).report
  rcases hs.take_cases hc.joiner hpart.steady.watchdog hready htake with
    ⟨hfresh, rfl, rfl⟩ | ⟨hstarted, event, b'', rfl, rfl, hp⟩
  · exact ⟨_, hx.joiner_look hc hs hfresh now⟩
  · rcases hp.reply now hc.joiner hc.toHost hpart.steady hpart.settled with
      ⟨m, rest, rfl, hwaiting⟩ | ⟨hlocal, hother, words, hreply, hwords⟩
    · have hm : m ∈ Duet.waiting d := by
        rw [hs.waiting_eq, hwaiting]
        exact List.mem_cons_self
      exact hx.joiner_message hc hs hstarted hp hm now
    · exact ⟨words, hx.joiner_local hc hs hstarted hp hlocal hother hreply hwords⟩

end

end PeerCall.Rehearsal.Duet
