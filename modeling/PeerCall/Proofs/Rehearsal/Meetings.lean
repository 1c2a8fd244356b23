import PeerCall.Proofs.Handshake.Replies
import PeerCall.Proofs.Rehearsal.Duets

/-!
# A host and a joiner meet

The two sides of a duet are bound, each of them once, and take turns with whatever waits for them.
When all that happens is open. What a side does with a turn is told here for one side at a time: it
keeps its place in the meeting, all that has come to it stays with it, what it says comes to the
other side if that is bound, and the turns that can still follow become fewer.
-/
namespace PeerCall.Rehearsal.Duet

open Handshake

/-! ## Meetings -/

deriving instance DecidableEq for Event

/-- What has happened. -/
inductive Happening
  | bound (side : Role)
  /-- A side took a turn: its first look, which is no event, or an event. -/
  | turn (side : Role) (moment : Instant) (event : Option Event)
  deriving DecidableEq

/-- What can happen next. -/
inductive Move
  | bind (side : Role)
  | turn (side : Role) (errand : Errand)
  | wait (d : Duration)

/-- A duet with what has happened so far, latest first. -/
structure Meeting where
  world : World Probe
  past : List Happening

/-- The messages that a side has taken up, latest first. -/
def heardBy (side : Role) (past : List Happening) : List Message :=
  past.filterMap fun
    | .turn r _ (some (.message m)) => if r = side then some m else none
    | _ => none

/-- The turns that were taken. -/
def turnsIn (past : List Happening) : Nat :=
  past.countP fun
    | .turn .. => true
    | .bound _ => false

namespace Meeting

def start (h j : Party Probe) : Meeting := ⟨Duet.start h j, []⟩

/-- The call of a side. -/
def call (side : Role) (m : Meeting) : Call Probe :=
  (m.world.calls[number side]?.map (·.2)).getD (.start (.start 0))

/-- The meeting after a move, if that can happen: a side is bound once only, to its own end of the
channel, and takes turns only with what waits for it. -/
def step? (m : Meeting) : Move → Option Meeting
  | .bind side =>
    if (m.call side).binding.isSome then none
    else some ⟨m.world.bind (number side) (number side), .bound side :: m.past⟩
  | .turn side errand =>
    (m.world.take? (number side) errand).map fun (e, w) => ⟨w, .turn side m.world.now e :: m.past⟩
  | .wait d => some { m with world := { m.world with now := m.world.now + d } }

/-- The meeting after several moves. -/
def run? (m : Meeting) (moves : List Move) : Option Meeting := moves.foldlM step? m

/-- Nothing waits for either side. -/
def Idle (m : Meeting) : Prop := ∀ side, m.world.turn? (number side) = none

/-- Both ends of the channel are connected. -/
def Connected (m : Meeting) : Prop :=
  ∀ side, (m.world.channelState (number side)).value = .connected

theorem forall_side {P : Role → Prop} : (∀ side, P side) ↔ P .host ∧ P .joiner := by
  refine ⟨fun h => ⟨h .host, h .joiner⟩, fun h side => ?_⟩
  cases side
  · exact h.1
  · exact h.2

instance (m : Meeting) : Decidable m.Idle := decidable_of_iff' _ forall_side

instance (m : Meeting) : Decidable m.Connected := decidable_of_iff' _ forall_side

end Meeting

/-! ## What has come to a side -/

/-- What waits for a call. -/
def waiting (c : Call Probe) : List Message := (c.binding.map (·.messages.waiting)).getD []

/-- All messages that have come to a side, taken up or not. -/
def came (side : Role) (c : Call Probe) (past : List Happening) : List Message :=
  (heardBy side past).reverse ++ waiting c

/-- The signals that a device reads in messages. -/
def reads (q : Party Probe) (ms : List Message) : List Signal :=
  ms.filterMap fun m => (q.read? m).map (·.signal)

section
variable {p q : Party Probe} {s t : Session Probe} {words : List Signal} {ms : List Message}
  {past : List Happening} {side r : Role} {moment : Instant}

theorem said_eq_reads (q : Party Probe) (s : Session Probe) : s.said q = reads q s.sent := rfl

@[simp] theorem reads_append (q : Party Probe) (ms ms' : List Message) :
    reads q (ms ++ ms') = reads q ms ++ reads q ms' := List.filterMap_append

theorem length_reads (h : ∀ m ∈ ms, ∃ signal, q.read? m = some ⟨p.sender, signal⟩) :
    (reads q ms).length = ms.length := by
  induction ms with
  | nil => rfl
  | cons m ms ih =>
      obtain ⟨signal, hread⟩ := h m List.mem_cons_self
      have hrest := ih fun n hn => h n (List.mem_cons_of_mem _ hn)
      rw [reads, List.filterMap_cons, hread]
      exact congrArg Nat.succ hrest

/-- The messages that say these words. -/
theorem sent_of_utters (h : Utters p q s t words) :
    ∃ ms, t.sent = s.sent ++ ms ∧ reads q ms = words ∧ ms.length = words.length := by
  obtain ⟨entries, hlog, -, hread⟩ := h
  refine ⟨entries.filterMap fun x => x.2.message?, ?_, ?_, ?_⟩
  · rw [Session.sent, hlog, List.filterMap_append]
    rfl
  · have hwords := congrArg (List.filterMap (Option.map Message.signal)) hread
    rw [List.filterMap_map, List.filterMap_map] at hwords
    exact hwords.trans List.filterMap_some
  · have hlength := congrArg List.length hread
    rw [List.length_map, List.length_map] at hlength
    exact hlength

@[simp] theorem heardBy_bound : heardBy side (.bound r :: past) = heardBy side past := rfl

theorem heardBy_message (m : Message) :
    heardBy side (.turn side moment (some (.message m)) :: past) = m :: heardBy side past := by
  simp only [heardBy, List.filterMap_cons, if_true]

/-- A turn that takes up no message. -/
theorem heardBy_turn {event : Option Event} (h : ∀ m, event ≠ some (.message m)) :
    heardBy side (.turn r moment event :: past) = heardBy side past := by
  cases event with
  | none => rfl
  | some e =>
      cases e with
      | message m => exact absurd rfl (h m)
      | _ => rfl

/-- A turn of the other side. -/
theorem heardBy_turn_facing {near : Role} {event : Option Event} :
    heardBy (facing near) (.turn near moment event :: past) = heardBy (facing near) past := by
  cases event with
  | none => rfl
  | some e =>
      cases e with
      | message m => cases near <;> simp [heardBy, facing]
      | _ => rfl

theorem mem_heardBy {m : Message} :
    m ∈ heardBy side past ↔ ∃ t, .turn side t (some (.message m)) ∈ past := by
  constructor
  · intro h
    obtain ⟨happening, hmem, htaken⟩ := List.mem_filterMap.mp h
    split at htaken
    · split at htaken
      · rename_i r moment n hr
        cases htaken
        subst hr
        exact ⟨moment, hmem⟩
      · cases htaken
    · cases htaken
  · rintro ⟨t, hmem⟩
    exact List.mem_filterMap.mpr ⟨_, hmem, if_pos rfl⟩

/-- A side that takes up an event hears that, if it is a message, and nothing else. -/
theorem mem_heardBy_turn {event : Event} {m : Message} :
    m ∈ heardBy side (.turn side moment (some event) :: past) ↔
      event = .message m ∨ m ∈ heardBy side past := by
  rw [mem_heardBy, mem_heardBy]
  constructor
  · rintro ⟨t, hmem⟩
    rcases List.mem_cons.mp hmem with heq | hmem
    · cases heq
      exact Or.inl rfl
    · exact Or.inr ⟨t, hmem⟩
  · rintro (rfl | ⟨t, hmem⟩)
    · exact ⟨moment, List.mem_cons_self⟩
    · exact ⟨t, List.mem_cons_of_mem _ hmem⟩

end

/-! ## Places in a meeting -/

/-- The id of a side's first media session. -/
def firstId : Role → UInt64
  | .host => 1
  | .joiner => 2

/-- A side that is not bound yet. -/
structure Absent (near : Role) (c : Call Probe) (l : Loopback) (past : List Happening) : Prop where
  call : c = .start (.start (firstId near))
  loop : l = .idle
  unbound : .bound near ∉ past
  idle : ∀ t e, .turn near t e ∉ past

/-- A side that is bound. Before its first look it has said nothing; from then on it has announced
itself, and waits for its peer until its media are set up. -/
structure Present (near : Role) (q : Party Probe) (c : Call Probe) (l : Loopback)
    (past : List Happening) (b : Binding) : Prop where
  binding : c.binding = some b
  channel : c.session.channel = number near
  loop : l = ⟨⟨.connected, 1⟩, c.session.sent⟩
  chats : b.chats = []
  capacity : b.messages.capacity = messageCapacity
  fresh : b.started = false → c.session.sent = [] ∧ c.session.media.gathered = [] ∧
    ∀ t e, .turn near t e ∉ past
  awake : b.started = true → b.channelSeen = 1 ∧ .join ∈ c.session.said q ∧
    (c.session.media.report.value = .ready → c.session.stage = .peerFound) ∧
    ∃ t, .turn near t none ∈ past

/-- The place of a side. -/
def Placed (near : Role) (q : Party Probe) (c : Call Probe) (l : Loopback)
    (past : List Happening) : Prop :=
  Absent near c l past ∨ ∃ b, Present near q c l past b

section
variable {limit : Nat} {at' : Net.Address} {near : Role} {p q : Party Probe} {c d : Call Probe}
  {l l' : Loopback} {past : List Happening}

theorem Absent.binding (h : Absent near c l past) : c.binding = none := by
  rw [h.call]
  rfl

theorem Present.isBound {b : Binding} (h : Present near q c l past b) :
    c.binding.isSome = true := by
  rw [h.binding]
  rfl

/-- A side that is not bound takes no turns. -/
theorem Absent.take_world {now : Instant} {errand : Errand} (h : Absent near c l past) :
    (world near now l l' (p, c) (q, d)).take? (number near) errand = none := by
  have hcall : (world near now l l' (p, c) (q, d)).calls[number near]? = some (p, c) := by
    cases near <;> rfl
  simp only [World.take?, Call.take?, hcall, h.binding, Option.bind_eq_bind, Option.bind_some,
    Option.bind_none]

theorem Absent.sent (h : Absent near c l past) : c.session.sent = [] := by
  rw [h.call]
  rfl

theorem session_bind (h : c.binding = none) (now : Instant) (channel : Nat) :
    (c.bind p now channel).session =
      (c.session.bind p now channel).after (does (.connect channel)) := by
  simp only [Call.bind, h, Option.isSome_none, Bool.false_and, Bool.false_eq_true, if_false]

theorem Absent.silent (he : Equipped limit at' p) (h : Absent near c l past) (q : Party Probe)
    (now : Instant) : (c.session.bind p now (number near)).sent = c.session.sent := by
  obtain ⟨-, -, hutters, -⟩ := bound_opening he q (firstId near) now (number near)
  obtain ⟨ms, hsent, -, hnone⟩ := sent_of_utters hutters
  rw [List.eq_nil_of_length_eq_zero hnone, List.append_nil] at hsent
  rw [h.call]
  exact hsent

/-- **Binding a side.** -/
theorem Absent.bind_world (he : Equipped limit at' p) (h : Absent near c l past) (now : Instant) :
    (world near now l l' (p, c) (q, d)).bind (number near) (number near) =
      world near now ⟨⟨.connected, 1⟩, []⟩ l' (p, c.bind p now (number near)) (q, d) := by
  rw [Duet.bind_world h.binding (h.silent he q now), h.loop]
  rfl

/-- A side that was just bound. -/
theorem Absent.bound (he : Equipped limit at' p) (h : Absent near c l past) (q : Party Probe)
    (now : Instant) : ∃ b, Present near q (c.bind p now (number near)) ⟨⟨.connected, 1⟩, []⟩
      (.bound near :: past) b ∧ b.started = false ∧ b.messages.waiting = [] := by
  have hsession := session_bind (p := p) h.binding now (number near)
  have hsent : (c.bind p now (number near)).session.sent = [] := by
    rw [hsession, ← h.sent, ← h.silent he q now]
    change List.filterMap _ (_ ++ _) = _
    rw [List.filterMap_append]
    exact List.append_nil _
  obtain ⟨-, -, -, hgathered⟩ := bound_opening he q (firstId near) now (number near)
  refine ⟨_, ⟨rfl, ?_, ?_, rfl, rfl, ?_, fun h => nomatch h⟩, rfl, rfl⟩
  · rw [hsession]
    exact (addressed_bind c.session (number near)).channel
  · rw [hsent]
  · intro _
    refine ⟨hsent, ?_, ?_⟩
    · rw [hsession, h.call]
      exact hgathered
    · intro t e hmem
      exact h.idle t e ((List.mem_cons.mp hmem).resolve_left fun heq => nomatch heq)

end

/-! ## Turns of a side -/

/-- An event that a bound session of a negotiation takes up, and what it has seen then. -/
inductive Picked (s : Session Probe) (b : Binding) : Event → Binding → Prop
  | message (m : Message) (rest : List Message) (h : b.messages.waiting = m :: rest) :
    Picked s b (.message m)
      { b with messages := { b.messages with waiting := rest, lost := 0 } }
  | engine (h : s.media.report.version ≠ b.engineSeen) :
    Picked s b (.engine s.media.report.value) { b with engineSeen := s.media.report.version }
  | candidate (c : IceCandidate) (seen : Nat) (h : c ∈ s.media.gathered)
    (hseen : b.candidatesSeen < seen) (hall : seen ≤ s.media.gathered.length) :
    Picked s b (.candidate c) { b with candidatesSeen := seen }

/-- The turns that an event leads to by itself. -/
def price : Event → Nat
  | .engine _ => 1
  | .candidate _ => 2
  | _ => 0

section
variable {limit : Nat} {at' : Net.Address} {near : Role} {p q : Party Probe} {c c' d : Call Probe}
  {l l' : Loopback} {past : List Happening} {b b' : Binding} {errand : Errand} {now : Instant}
  {e : Option Event} {event : Event} {words : List Signal} {allowance : Nat}

theorem mem_of_waitingCandidate {capacity seen seen' : Nat} {gathered : List IceCandidate}
    {candidate : IceCandidate}
    (h : waitingCandidate? capacity seen gathered = some (candidate, seen')) :
    candidate ∈ gathered ∧ seen < seen' ∧ seen' ≤ gathered.length := by
  obtain ⟨found, hfound, heq⟩ := Option.map_eq_some_iff.mp h
  obtain ⟨hlt, -⟩ := List.getElem?_eq_some_iff.mp hfound
  cases heq
  have hmax : seen ≤ max seen (gathered.length - capacity) := Nat.le_max_left ..
  exact ⟨List.mem_of_getElem? hfound, by omega, hlt⟩

/-- A side that has looked takes up a message, news of its media engine or a network path. -/
theorem Present.picked_of_take (he : Equipped limit at' p) (hs : Present near q c l past b)
    (hwatchdog : c.session.watchdog = none) (hstarted : b.started = true)
    (h : b.take? p now l.state c.session errand = some (event, b')) :
    Picked c.session b event b' := by
  cases errand with
  | channel =>
      have hseen : b.channelSeen = 1 := (hs.awake hstarted).1
      simp only [Binding.take?, Watched.changedSince, hs.loop, hseen, bne_self_eq_false,
        Bool.false_eq_true, if_false] at h
      cases h
  | message =>
      simp only [Binding.take?] at h
      split at h
      · rename_i m rest hwaiting
        cases h
        exact .message m rest hwaiting
      · cases h
  | engine =>
      have hengine : p.engine.report c.session.media = c.session.media.report := by
        rw [he.engine]
        rfl
      simp only [Binding.take?, hengine] at h
      split at h
      · rename_i hchanged
        cases h
        exact .engine (by simpa [Watched.changedSince] using hchanged)
      · cases h
  | candidate =>
      have hgathered : p.engine.gathered c.session.media = c.session.media.gathered := by
        rw [he.engine]
        rfl
      simp only [Binding.take?, hgathered] at h
      obtain ⟨⟨candidate, seen⟩, hfound, heq⟩ := Option.map_eq_some_iff.mp h
      cases heq
      obtain ⟨hmem, hseen, hall⟩ := mem_of_waitingCandidate hfound
      exact .candidate candidate seen hmem hseen hall
  | chat =>
      simp only [Binding.take?, hs.chats] at h
      cases h
  | watchdog =>
      simp only [Binding.take?, hwatchdog, Option.any_none, Bool.false_eq_true, if_false] at h
      cases h

/-- **What a side can do with a turn**: look, or take up an event. -/
theorem Present.take_cases (he : Equipped limit at' p) (hs : Present near q c l past b)
    (hwatchdog : c.session.watchdog = none)
    (hready : b.started = false → c.session.media.report.value = .ready)
    (h : c.take? p now l.state errand = some (e, c')) :
    (b.started = false ∧ e = none ∧ c' = ⟨c.session.handle p now (.channel .connected),
      some { b with
        started := true, channelSeen := 1, engineSeen := c.session.media.report.version }⟩) ∨
    (b.started = true ∧ ∃ event b', e = some event ∧
      c' = ⟨c.session.handle p now event, some b'⟩ ∧ Picked c.session b event b') := by
  simp only [Call.take?, hs.binding, Option.bind_eq_bind, Option.bind_some] at h
  split at h
  · rename_i hstarted
    obtain ⟨⟨event, b'⟩, htake, heq⟩ := Option.bind_eq_some_iff.mp h
    cases heq
    exact Or.inr ⟨hstarted, event, b', rfl, rfl, hs.picked_of_take he hwatchdog hstarted htake⟩
  · rename_i hstarted
    have hfresh : b.started = false := by simpa using hstarted
    have hengine : p.engine.report c.session.media = c.session.media.report := by
      rw [he.engine]
      rfl
    simp only [Call.firstLook, hs.loop, hengine, hready hfresh, reduceCtorEq, if_false,
      if_true] at h
    cases h
    exact Or.inl ⟨hfresh, rfl, rfl⟩

/-- What a side takes up is a message, or it says little and leaves the negotiation alone. -/
theorem Picked.reply (now : Instant) (he : Equipped limit at' p) (hu : Understood limit p q)
    (hsteady : Steady limit p q c.session.bare) (hsettled : Settled c.session.bare)
    (hp : Picked c.session b event b') :
    (∃ m rest, event = .message m ∧ b.messages.waiting = m :: rest) ∨
    (Local limit p now c.session event ∧ (∀ m, event ≠ .message m) ∧ ∃ words,
      Reply p q c.session (c.session.handle p now event) words (price event) ∧
      ∀ signal ∈ words, ∃ c, signal = .iceCandidate c) := by
  cases hp with
  | message m rest h => exact Or.inl ⟨m, rest, rfl, h⟩
  | engine h =>
      refine Or.inr ⟨engineState_eq he c.session, fun m h => (nomatch h), [], ?_, ?_⟩
      · exact reply_engine hsteady hsettled
      · exact fun signal h => absurd h List.not_mem_nil
  | candidate found seen h hseen hall =>
      refine Or.inr ⟨?_, fun m h => (nomatch h), [.iceCandidate found], ?_, ?_⟩
      · change found ∈ p.engine.gathered c.session.media
        rw [he.engine]
        exact h
      · exact reply_candidate hu hsteady h
      · exact fun signal h => ⟨found, List.mem_singleton.mp h⟩

/-- All that has come to a side stays with it when the side takes a turn. -/
theorem Picked.came_eq (hp : Picked c.session b event b') (hb : c.binding = some b)
    (s : Session Probe) :
    came near ⟨s, some b'⟩ (.turn near now (some event) :: past) = came near c past := by
  have hwaiting : waiting c = b.messages.waiting := by rw [waiting, hb]; rfl
  rw [came, came, hwaiting]
  cases hp with
  | message m rest h =>
      rw [heardBy_message, List.reverse_cons, List.append_assoc, h]
      rfl
  | engine h => rw [heardBy_turn fun m h => by cases h]; rfl
  | candidate found seen h hseen hall => rw [heardBy_turn fun m h => by cases h]; rfl

/-! ## What is left to do -/

/-- The turns that a side leads to that has not looked yet: its look, what the words of its greeting
lead to, and a reply to a key. -/
def debut : Role → Nat
  | .host => 6
  | .joiner => 5

/-- The turns that a side can still lead to, besides those that messages lead to. -/
def owes (near : Role) (c : Call Probe) : Nat :=
  match c.binding with
  | some b =>
    if b.started then
      keyless c.session + 2 * (c.session.media.gathered.length - b.candidatesSeen) +
        (if c.session.media.report.version = b.engineSeen then 0 else 1)
    else debut near
  | none => debut near

theorem owes_of_started (hb : c.binding = some b) (hstarted : b.started = true) :
    owes near c = keyless c.session + 2 * (c.session.media.gathered.length - b.candidatesSeen) +
      (if c.session.media.report.version = b.engineSeen then 0 else 1) := by
  simp only [owes, hb, hstarted, if_true]

theorem unseen_le (s t : Session Probe) (seen : Nat) :
    (if t.media.report.version = seen then 0 else 1) ≤
      (if s.media.report.version = seen then 0 else 1) + news s t := by
  by_cases hsame : t.media.report = s.media.report
  · rw [hsame]
    exact Nat.le_add_right ..
  · have hnews : news s t = 1 := if_neg hsame
    rw [hnews]
    split <;> omega

theorem weigh_greeting_le (p : Party Probe) : weigh p.role (greeting p) + 2 ≤ debut p.role := by
  have hkey := weigh_ownKey_le p.role p
  have hchat : weigh p.role (p.config.readyMessage.toList.map .chat) ≤ 1 := by
    cases p.config.readyMessage with
    | none => exact Nat.zero_le _
    | some text => exact Nat.le_refl _
  have hjoin : weight p.role .join + 4 ≤ debut p.role := by cases p.role <;> decide
  have hcons : weigh p.role (.join :: p.config.readyMessage.toList.map .chat) =
      weight p.role .join + weigh p.role (p.config.readyMessage.toList.map .chat) := rfl
  rw [greeting, weigh_append, hcons]
  omega

/-- **A side that looks greets**, and is awake. -/
theorem Present.look (now : Instant) (he : Equipped limit at' p) (hu : Understood limit p q)
    (hs : Present near q c l past b) (hrole : p.role = near) (hfresh : b.started = false)
    (hsteady : Steady limit p q c.session.bare) (hopening : Opening c.session.bare) :
    let s := c.session.handle p now (.channel .connected)
    let b' := { b with
      started := true, channelSeen := 1, engineSeen := c.session.media.report.version }
    Present near q ⟨s, some b'⟩ ⟨l.state, s.sent⟩ (.turn near now none :: past) b' ∧
      Utters p q c.session s (greeting p) ∧ s.lastJoin = some now ∧
      owes near ⟨s, some b'⟩ + weigh near (greeting p) + 1 ≤ owes near c := by
  intro s b'
  have hruns : Runs p q (onConnected p now) c.session.bare () _ (greeting p) :=
    runs_onConnected he hu hsteady hopening.stage
  obtain ⟨hbare, hutters⟩ := hruns.after
  change s.bare = _ at hbare
  obtain ⟨-, hpaths, -⟩ := hs.fresh hfresh
  have hchannel : s.channel = number near :=
    (addressed_handle c.session (.channel .connected)).channel.trans hs.channel
  have hmedia : s.bare.media = c.session.media := by rw [hbare]; rfl
  have hstage : s.bare.stage = .peerFound := by rw [hbare]
  have hlast : s.bare.lastJoin = some now := by rw [hbare]
  have hjoin : .join ∈ s.said q := by
    have hsaid : s.said q = c.session.said q ++ greeting p := hutters.said_eq
    rw [hsaid]
    exact List.mem_append_right _ (List.mem_append_right _ List.mem_cons_self)
  have hloop : (⟨l.state, s.sent⟩ : Loopback) = ⟨⟨.connected, 1⟩, s.sent⟩ := by rw [hs.loop]
  refine ⟨⟨rfl, hchannel, hloop, hs.chats, hs.capacity, (fun h => nomatch h),
    fun _ => ⟨rfl, hjoin, fun _ => hstage, now, List.mem_cons_self⟩⟩, hutters, hlast, ?_⟩
  have howes : owes near c = debut near := by simp [owes, hs.binding, hfresh]
  have hkeyless : keyless s ≤ 1 := by
    unfold keyless
    split <;> omega
  have hgreeting := weigh_greeting_le p
  have hmedia' : s.media = c.session.media := hmedia
  rw [owes_of_started rfl rfl, howes, ← hrole]
  simp only [hmedia', hpaths, List.length_nil, Nat.zero_sub, b', if_true]
  omega

/-- What a side takes up leaves it awake. -/
theorem Picked.kept (hp : Picked c.session b event b') :
    b'.started = b.started ∧ b'.channelSeen = b.channelSeen ∧ b'.chats = b.chats ∧
      b'.messages.capacity = b.messages.capacity := by
  cases hp <;> exact ⟨rfl, rfl, rfl, rfl⟩

/-- What an event costs is covered by what it is worth. -/
theorem Picked.owes_le {s : Session Probe} (hp : Picked c.session b event b')
    (hb : c.binding = some b) (hstarted : b.started = true) (hrole : p.role = near)
    (hreply : Reply p q c.session s words allowance) :
    owes near ⟨s, some b'⟩ + weigh near words + 1 + price event ≤ owes near c + allowance := by
  have hcost : weigh p.role words + keyless s + 2 * s.media.gathered.length + news c.session s + 1 ≤
    keyless c.session + 2 * c.session.media.gathered.length + allowance := hreply.cost
  have hgathered : c.session.media.gathered.length ≤ s.media.gathered.length := hreply.gathered
  have hnews := unseen_le c.session s
  rw [owes_of_started rfl (hp.kept.1.trans hstarted), owes_of_started hb hstarted]
  rw [hrole] at hcost
  cases hp with
  | message m rest h =>
      have hunseen := hnews b.engineSeen
      simp only [price]
      omega
  | engine h =>
      have hunseen := hnews c.session.media.report.version
      rw [if_pos rfl] at hunseen
      rw [if_neg h]
      simp only [price]
      omega
  | candidate found seen h hlt hall =>
      have hunseen := hnews b.engineSeen
      simp only [price]
      omega

/-- **A side that takes up an event** keeps its place. -/
theorem Present.take (now : Instant) (hs : Present near q c l past b) (hrole : p.role = near)
    (hstarted : b.started = true) (hp : Picked c.session b event b')
    (hreply : Reply p q c.session (c.session.handle p now event) words allowance) :
    let s := c.session.handle p now event
    Present near q ⟨s, some b'⟩ ⟨l.state, s.sent⟩ (.turn near now (some event) :: past) b' ∧
      owes near ⟨s, some b'⟩ + weigh near words + 1 + price event ≤ owes near c + allowance := by
  intro s
  have hutters : Utters p q c.session s words := hreply.utters
  obtain ⟨hseen, hjoin, hfound, t₀, hlook⟩ := hs.awake hstarted
  have hchannel : s.channel = number near :=
    (addressed_handle c.session event).channel.trans hs.channel
  have hloop : (⟨l.state, s.sent⟩ : Loopback) = ⟨⟨.connected, 1⟩, s.sent⟩ := by rw [hs.loop]
  have hjoin' : .join ∈ s.said q := by
    rw [hutters.said_eq]
    exact List.mem_append_left _ hjoin
  have hfound' : s.media.report.value = .ready → s.stage = .peerFound := by
    intro hready
    obtain ⟨hbefore, hstage⟩ := hreply.waits hready
    exact hstage.trans (hfound hbefore)
  obtain ⟨hstarted', hseen', hchats, hcapacity⟩ := hp.kept
  refine ⟨⟨rfl, hchannel, hloop, hchats.trans hs.chats, hcapacity.trans hs.capacity, ?_,
    fun _ => ⟨hseen'.trans hseen, hjoin', hfound', t₀, List.mem_cons_of_mem _ hlook⟩⟩,
    hp.owes_le hs.binding hstarted hrole hreply⟩
  rw [hstarted', hstarted]
  exact fun h => nomatch h

end

/-! ## What comes to the other side -/

section
variable {near : Role} {p q : Party Probe} {c d : Call Probe} {l l' : Loopback}
  {past : List Happening} {b : Binding} {moment : Instant} {event : Option Event}
  {ms : List Message}

theorem hear_of_none (h : d.binding = none) : d.hear ms = d := by
  obtain ⟨session, binding⟩ := d
  cases h
  induction ms with
  | nil => rfl
  | cons m ms ih => exact ih

/-- A bound side keeps what it has room for behind the rest. -/
theorem Present.binding_hear (hs : Present near q c l past b)
    (hroom : (waiting c).length + ms.length ≤ messageCapacity) :
    (c.hear ms).binding = some { b with messages :=
      { b.messages with waiting := b.messages.waiting ++ ms } } := by
  have hwaiting : waiting c = b.messages.waiting := by rw [waiting, hs.binding]; rfl
  refine Call.binding_hear hs.binding ?_
  rw [← hwaiting, hs.capacity]
  exact hroom

theorem owes_hear (hs : Placed near q c l past)
    (hroom : (waiting c).length + ms.length ≤ messageCapacity) (side : Role) :
    owes side (c.hear ms) = owes side c := by
  rcases hs with habsent | ⟨b, hpresent⟩
  · rw [hear_of_none habsent.binding]
  · simp only [owes, hpresent.binding_hear hroom, hpresent.binding, Call.session_hear]

/-- What is said to a side that is bound waits for it behind the rest. -/
theorem waiting_hear (hs : Placed near q c l past)
    (hroom : (waiting c).length + ms.length ≤ messageCapacity) :
    waiting (c.hear ms) = waiting c ++ if c.binding.isSome then ms else [] := by
  rcases hs with habsent | ⟨b, hpresent⟩
  · rw [hear_of_none habsent.binding, habsent.binding]
    exact (List.append_nil _).symm
  · rw [waiting, waiting, hpresent.binding_hear hroom, hpresent.binding]
    rfl

/-- A side that hears something keeps its place. -/
theorem Placed.hear (hs : Placed (facing near) q c l past)
    (hroom : (waiting c).length + ms.length ≤ messageCapacity) :
    Placed (facing near) q (c.hear ms) l (.turn near moment event :: past) := by
  have hother : ∀ {t e}, .turn (facing near) t e ∉ past →
      .turn (facing near) t e ∉ (.turn near moment event :: past) := by
    intro t e hnone hmem
    rcases List.mem_cons.mp hmem with heq | hmem
    · cases near <;> cases heq
    · exact hnone hmem
  rcases hs with habsent | ⟨b, hpresent⟩
  · rw [hear_of_none habsent.binding]
    refine Or.inl ⟨habsent.call, habsent.loop, ?_, fun t e => hother (habsent.idle t e)⟩
    exact fun hmem => habsent.unbound ((List.mem_cons.mp hmem).resolve_left fun h => nomatch h)
  · refine Or.inr ⟨_, hpresent.binding_hear hroom, ?_, ?_, hpresent.chats, hpresent.capacity,
      ?_, ?_⟩
    · rw [Call.session_hear]
      exact hpresent.channel
    · rw [Call.session_hear]
      exact hpresent.loop
    · intro hfresh
      obtain ⟨hsent, hgathered, hpast⟩ := hpresent.fresh hfresh
      rw [Call.session_hear]
      exact ⟨hsent, hgathered, fun t e => hother (hpast t e)⟩
    · intro hstarted
      obtain ⟨hseen, hjoin, hfound, t₀, hlook⟩ := hpresent.awake hstarted
      rw [Call.session_hear]
      exact ⟨hseen, hjoin, hfound, t₀, List.mem_cons_of_mem _ hlook⟩

/-- **A turn in the world.** The far side hears what the near side says. -/
theorem take_placed {now : Instant} {errand : Errand} (hs : Present near q c l past b)
    (hfar : Placed (facing near) p d l' past) :
    (world near now l l' (p, c) (q, d)).take? (number near) errand =
      (c.take? p now l.state errand).map fun (e, c') =>
        (e, world near now ⟨l.state, c'.session.sent⟩ l' (p, c')
          (q, d.hear (c'.session.sent.drop c.session.sent.length))) := by
  rw [take_world hs.channel]
  refine Option.map_congr ?_
  rintro ⟨e, c'⟩ htake
  obtain ⟨entries, hlog, -⟩ := (Call.addressed_take htake).deeds
  have hsent : c'.session.sent =
      c.session.sent ++ entries.filterMap fun x => x.2.message? := by
    rw [Session.sent, hlog, List.filterMap_append]
    rfl
  have hrecord : l.sent = c.session.sent := by rw [hs.loop]
  simp only [hlog, List.drop_left, hsent, hrecord]
  refine congrArg (fun d' => (e, world near now _ l' (p, c') (q, d'))) ?_
  rcases hfar with habsent | ⟨b', hpresent⟩
  · rw [hear_of_none habsent.binding, ite_self]
  · have hlinked : (l.reaches (some l') && d.isBoundTo (number (facing near))) = true := by
      rw [hs.loop, hpresent.loop]
      simp [Loopback.reaches, Loopback.isConnected, Call.isBoundTo, hpresent.binding,
        hpresent.channel]
    rw [if_pos hlinked]

end

end PeerCall.Rehearsal.Duet
