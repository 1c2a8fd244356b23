import PeerCall.Proofs.Channel.Tracking

/-!
# The messages of all channels in one stream

Every candidate has an observer of its own, which passes on what comes in on the candidate's
channel, message by message. The subscriber of the bundle gets these messages one after the other.
As long as nobody is further behind than a queue is long, what came in for a candidate is what its
observer passed on and what still waits for it, in this order; and what was passed on is what the
subscriber read and what still waits for the subscriber. So the subscriber gets an interleaving of
what came in, whatever becomes of the channels' states and of the selection in the meantime.
-/
namespace PeerCall

/-! ## Interleavings -/

/-- The entries with a label. -/
def ofLabel {α : Type} (i : Nat) (xs : List (Nat × α)) : List α :=
  xs.filterMap fun x => if x.1 = i then some x.2 else none

/-- A list is an interleaving of several: each of its entries comes from one of them, and what comes
from one of them is all that it holds, in order. -/
def Interleaves {α : Type} (count : Nat) (parts : Nat → List α) (l : List α) : Prop :=
  ∃ xs : List (Nat × α), xs.map Prod.snd = l ∧ (∀ x ∈ xs, x.1 < count) ∧
    ∀ i < count, ofLabel i xs = parts i

section Interleavings

variable {α : Type} {count i : Nat} {parts parts' : Nat → List α} {l l' : List α}

@[simp] theorem ofLabel_append (i : Nat) (xs ys : List (Nat × α)) :
    ofLabel i (xs ++ ys) = ofLabel i xs ++ ofLabel i ys := List.filterMap_append ..

theorem ofLabel_singleton (i j : Nat) (a : α) : ofLabel i [(j, a)] = if j = i then [a] else [] := by
  by_cases h : j = i <;> simp [ofLabel, h]

theorem Interleaves.append (h : Interleaves count parts l) (h' : Interleaves count parts' l') :
    Interleaves count (fun i => parts i ++ parts' i) (l ++ l') := by
  obtain ⟨xs, rfl, hlabels, hparts⟩ := h
  obtain ⟨ys, rfl, hlabels', hparts'⟩ := h'
  refine ⟨xs ++ ys, List.map_append, ?_, ?_⟩
  · intro x hx
    rcases List.mem_append.mp hx with hx | hx
    · exact hlabels x hx
    · exact hlabels' x hx
  · intro i hi
    rw [ofLabel_append, hparts i hi, hparts' i hi]

theorem Interleaves.congr (h : Interleaves count parts l) (heq : ∀ i < count, parts i = parts' i) :
    Interleaves count parts' l := by
  obtain ⟨xs, hl, hlabels, hparts⟩ := h
  exact ⟨xs, hl, hlabels, fun i hi => (hparts i hi).trans (heq i hi)⟩

/-- A single list interleaves with nothing. -/
theorem Interleaves.eq_of_one (h : Interleaves 1 parts l) : l = parts 0 := by
  obtain ⟨xs, rfl, hlabels, hparts⟩ := h
  rw [← hparts 0 Nat.zero_lt_one, ofLabel, ← List.filterMap_eq_map]
  refine List.filterMap_congr fun x hx => ?_
  simp [Nat.lt_one_iff.mp (hlabels x hx)]

/-- Nothing is the one interleaving of empty lists. -/
theorem interleaves_nil (h : ∀ i < count, parts i = []) : Interleaves count parts [] :=
  ⟨[], rfl, by simp, fun i hi => (h i hi).symm⟩

end Interleavings

/-! ## Reading from a queue -/

/-- The entry that was read, unless entries were lost. -/
def Receipt.item? {α : Type} : Receipt α → Option α
  | .item a => some a
  | .lagged _ => none

namespace Inbox

variable {α : Type} {q : Inbox α}

/-- What a subscriber reads next, and the queue after that. -/
def next? (q : Inbox α) : Option (Receipt α × Inbox α) :=
  if q.lost ≠ 0 then some (.lagged q.lost, { q with lost := 0 })
  else match q.waiting with
    | [] => none
    | a :: rest => some (.item a, { q with waiting := rest })

/-- What there is to be read is what is read next and what there is after that. -/
theorem receipts_eq_next? (q : Inbox α) :
    q.receipts = match q.next? with
      | some (r, q') => r :: q'.receipts
      | none => [] := by
  unfold next?
  by_cases hlost : q.lost = 0
  · cases hwaiting : q.waiting with
    | nil => simp [receipts, hlost, hwaiting]
    | cons a rest => simp [receipts, hlost, hwaiting]
  · simp [receipts, hlost]

/-- Nothing is there to be read. -/
theorem next?_of_nil (hlost : q.lost = 0) (h : q.waiting = []) : q.next? = none := by
  simp [next?, hlost, h]

/-- The oldest entry is read. -/
theorem next?_of_cons {a : α} {rest : List α} (hlost : q.lost = 0) (h : q.waiting = a :: rest) :
    q.next? = some (.item a, { q with waiting := rest }) := by
  simp [next?, hlost, h]

/-- Where there is room nothing is lost. -/
theorem append_of_le {as : List α} (h : q.waiting.length + as.length ≤ q.capacity) :
    q.append as = { q with waiting := q.waiting ++ as } := by
  have hexcess : q.waiting.length + as.length - q.capacity = 0 := by omega
  simp [append, hexcess]

end Inbox

namespace Bundle

variable {b b' : Bundle} {channel i : Nat} {ms : List Message} {q : Inbox Message}

/-! ## What a bundle has to do with messages -/

/-- The channels of the candidates. -/
def sources (b : Bundle) : List Nat := b.selection.candidates.map Candidate.channel

/-- The queues of the observers. -/
def inboxes (b : Bundle) : List (Inbox Message) := b.observers.map Observer.inbox

/-- What waits for the observer of a candidate. -/
def waitingAt (b : Bundle) (i : Nat) : List Message :=
  (b.inboxes[i]?.map Inbox.waiting).getD []

/-- Every candidate has an observer, and every observer a queue of full length. -/
structure Equipped (b : Bundle) : Prop where
  length_eq : b.inboxes.length = b.sources.length
  capacity : ∀ q ∈ b.inboxes, q.capacity = messageCapacity

/-- Channels were taken up, and about messages nothing else changed. -/
structure Grown (b b' : Bundle) (taken : List Nat) : Prop where
  sources : b'.sources = b.sources ++ taken
  inboxes : b'.inboxes = b.inboxes ++ taken.map fun _ => .empty messageCapacity
  inbox : b'.inbox = b.inbox

/-- Some channels or none were taken up, and about messages nothing else changed. -/
def Grows (b b' : Bundle) : Prop := ∃ taken, Grown b b' taken

theorem Grows.refl (b : Bundle) : Grows b b :=
  ⟨[], (List.append_nil _).symm, (List.append_nil _).symm, rfl⟩

theorem Grows.trans {b'' : Bundle} (h : Grows b b') (h' : Grows b' b'') : Grows b b'' := by
  obtain ⟨taken, hsources, hinboxes, hinbox⟩ := h
  obtain ⟨taken', hsources', hinboxes', hinbox'⟩ := h'
  refine ⟨taken ++ taken', ?_, ?_, hinbox'.trans hinbox⟩
  · rw [hsources', hsources, List.append_assoc]
  · rw [hinboxes', hinboxes, List.append_assoc, List.map_append]

theorem grows_of_eq (hsources : b'.sources = b.sources) (hinboxes : b'.inboxes = b.inboxes)
    (hinbox : b'.inbox = b.inbox) : Grows b b' :=
  ⟨[], by rw [hsources, List.append_nil], by rw [hinboxes]; exact (List.append_nil _).symm, hinbox⟩

theorem sources_of_map_source {cs cs' : List Candidate}
    (h : cs'.map Candidate.source = cs.map Candidate.source) :
    cs'.map Candidate.channel = cs.map Candidate.channel := by
  have hchannel : Candidate.channel = Prod.snd ∘ Candidate.source := rfl
  rw [hchannel, ← List.map_map, ← List.map_map, h]

theorem grows_act (b : Bundle) : Grows b b.act := by
  unfold act
  split
  · exact .refl b
  · rename_i transport channel commands hcommands
    refine ⟨[channel], ?_, List.map_append, rfl⟩
    rw [sources, adopt, Selection.candidates_add, List.map_append]
    rfl
  · refine grows_of_eq ?_ rfl rfl
    rw [sources, adopt, Selection.candidates_record]
    exact sources_of_map_source (map_source_modify _ _ _)

theorem grows_actAll (b : Bundle) : Grows b b.actAll :=
  List.foldlRecOn b.commands _ (.refl b) fun _ h _ _ => h.trans (grows_act _)

theorem grows_onRoute (b : Bundle) (route : Selection.Route) (f : Loopback → Loopback) :
    Grows b (b.onRoute route f) :=
  List.foldlRecOn _ _ (grows_actAll b) fun _ h _ _ => h.trans (grows_of_eq rfl rfl rfl)

theorem inboxes_set_seen {o : Observer} (ho : b.observers[i]? = some o) (seen : Nat) :
    (b.observers.set i { o with seen }).map Observer.inbox = b.inboxes := by
  obtain ⟨hi, rfl⟩ := List.getElem?_eq_some_iff.mp ho
  rw [inboxes, List.map_set]
  conv_rhs => rw [← List.set_getElem_self hi, List.map_set]

theorem grows_observeState (i : Nat) (b : Bundle) : Grows b (b.observeState i) := by
  unfold observeState
  split
  · rename_i c o hc ho
    split
    · split
      · exact grows_of_eq rfl (inboxes_set_seen ho _) rfl
      · exact .refl b
    · exact .refl b
  · exact .refl b

/-- Messages come in for the candidates that are the channel. -/
theorem getElem?_inboxes_arrive (h : b.inboxes.length = b.sources.length) (channel : Nat)
    (ms : List Message) (i : Nat) : (b.arrive channel ms).inboxes[i]? =
      b.inboxes[i]?.map fun q => if b.sources[i]? = some channel then q.append ms else q := by
  rw [inboxes, inboxes, arrive, List.map_map, List.getElem?_map, List.getElem?_map, sources,
    List.getElem?_map]
  cases ho : b.observers[i]? with
  | none => simp [List.zip, List.getElem?_zipWith, ho]
  | some o =>
      cases hc : b.selection.candidates[i]? with
      | none =>
          have hlt := (List.getElem?_eq_some_iff.mp ho).1
          have hle := List.getElem?_eq_none_iff.mp hc
          rw [inboxes, sources, List.length_map, List.length_map] at h
          omega
      | some c =>
          have hzip : (b.selection.candidates.zip b.observers)[i]? = some (c, o) :=
            List.getElem?_zip_eq_some.mpr ⟨hc, ho⟩
          by_cases hchannel : c.channel = channel <;> simp [hzip, hchannel]

/-- An observer passes its oldest message on, if it has one. -/
theorem observeMessage_cases (i : Nat) (b : Bundle) :
    b.waitingAt i = [] ∧ b.observeMessage i = b ∨
      ∃ q m rest, b.inboxes[i]? = some q ∧ q.waiting = m :: rest ∧
        (b.observeMessage i).sources = b.sources ∧
        (b.observeMessage i).inboxes = b.inboxes.set i ⟨q.capacity, rest, 0⟩ ∧
        (b.observeMessage i).inbox = b.inbox.push m := by
  unfold observeMessage
  cases ho : b.observers[i]? with
  | none => exact Or.inl ⟨by simp [waitingAt, inboxes, ho], rfl⟩
  | some o =>
      cases hwaiting : o.inbox.waiting with
      | nil => exact Or.inl ⟨by simp [waitingAt, inboxes, ho, hwaiting], by simp [hwaiting]⟩
      | cons m rest =>
          refine Or.inr ⟨o.inbox, m, rest, by simp [inboxes, ho], hwaiting, ?_, ?_, ?_⟩
          · simp [hwaiting, sources]
          · simp [hwaiting, inboxes, List.map_set]
          · simp [hwaiting]

theorem Equipped.grows (h : Equipped b) (hgrows : Grows b b') : Equipped b' := by
  obtain ⟨taken, hsources, hinboxes, -⟩ := hgrows
  refine ⟨?_, ?_⟩
  · rw [hsources, hinboxes, List.length_append, List.length_append, List.length_map, h.length_eq]
  · rw [hinboxes]
    intro q hq
    rcases List.mem_append.mp hq with hq | hq
    · exact h.capacity q hq
    · obtain ⟨_, -, rfl⟩ := List.mem_map.mp hq
      rfl

theorem sources_arrive (channel : Nat) (ms : List Message) (b : Bundle) :
    (b.arrive channel ms).sources = b.sources := rfl

theorem Equipped.arrive (h : Equipped b) (channel : Nat) (ms : List Message) :
    Equipped (b.arrive channel ms) := by
  have hget := getElem?_inboxes_arrive h.length_eq channel ms
  refine ⟨?_, ?_⟩
  · rw [sources_arrive, ← h.length_eq]
    refine Nat.le_antisymm ?_ ?_
    · rw [← List.getElem?_eq_none_iff, hget, List.getElem?_eq_none (Nat.le_refl _)]
      rfl
    · rw [← List.getElem?_eq_none_iff, ← Option.map_eq_none_iff, ← hget,
        List.getElem?_eq_none (Nat.le_refl _)]
  · intro q hq
    obtain ⟨i, hi⟩ := List.mem_iff_getElem?.mp hq
    rw [hget] at hi
    obtain ⟨p, hp, rfl⟩ := Option.map_eq_some_iff.mp hi
    split
    · exact h.capacity p (List.mem_of_getElem? hp)
    · exact h.capacity p (List.mem_of_getElem? hp)

theorem Equipped.observeMessage (h : Equipped b) (i : Nat) : Equipped (b.observeMessage i) := by
  rcases observeMessage_cases i b with ⟨-, heq⟩ | ⟨q, m, rest, hq, -, hsources, hinboxes, -⟩
  · rw [heq]
    exact h
  · refine ⟨?_, ?_⟩
    · rw [hsources, hinboxes, List.length_set, h.length_eq]
    · rw [hinboxes]
      intro p hp
      rcases List.mem_or_eq_of_mem_set hp with hp | rfl
      · exact h.capacity p hp
      · exact h.capacity q (List.mem_of_getElem? hq)

/-- The turns in which no message moves. -/
def Turn.isQuiet : Turn → Bool
  | .bring .. | .observeMessage _ => false
  | _ => true

theorem grows_turn {t : Turn} (ht : t.isQuiet = true) (b : Bundle) : Grows b (t.after b) := by
  cases t with
  | bring | observeMessage => cases ht
  | report channel state => exact grows_of_eq rfl rfl rfl
  | add transport channel => exact grows_of_eq rfl rfl rfl
  | observeState candidate => exact grows_observeState candidate b
  | act => exact grows_act b
  | send m => exact grows_onRoute b .best _
  | broadcast m => exact grows_onRoute b .connected _
  | connect => exact grows_onRoute b .everyone _
  | disconnect => exact grows_onRoute b .everyone _

theorem Equipped.turn (h : Equipped b) (t : Turn) : Equipped (t.after b) := by
  cases ht : t.isQuiet with
  | true => exact h.grows (grows_turn ht b)
  | false =>
      cases t with
      | bring channel ms => exact h.arrive channel ms
      | observeMessage candidate => exact h.observeMessage candidate
      | _ => cases ht

theorem equipped_run (channels : List Loopback) (turns : List Turn) :
    Equipped (run channels turns) :=
  List.foldlRecOn turns _ (⟨rfl, by simp [start, inboxes]⟩ : Equipped (start channels))
    fun _ h t _ => h.turn t

/-! ## What waits for the observers -/

/-- Nothing waits for new observers. -/
theorem Grows.waitingAt_eq (h : Grows b b') (i : Nat) : b'.waitingAt i = b.waitingAt i := by
  obtain ⟨taken, -, hinboxes, -⟩ := h
  rw [waitingAt, waitingAt, hinboxes]
  by_cases hi : i < b.inboxes.length
  · rw [List.getElem?_append_left hi]
  · rw [List.getElem?_append_right (Nat.le_of_not_lt hi), List.getElem?_map,
      List.getElem?_eq_none (Nat.le_of_not_lt hi)]
    cases taken[i - b.inboxes.length]? <;> rfl

theorem Grows.length_le (h : Grows b b') : b.sources.length ≤ b'.sources.length := by
  obtain ⟨taken, hsources, -, -⟩ := h
  simp [hsources]

theorem Grows.inbox_eq (h : Grows b b') : b'.inbox = b.inbox := by
  obtain ⟨-, -, -, hinbox⟩ := h
  exact hinbox

/-- Where there is room for all that comes in, it waits behind what is there. -/
theorem Equipped.waitingAt_arrive (h : Equipped b)
    (hroom : b.sources[i]? = some channel →
      (b.waitingAt i).length + ms.length ≤ messageCapacity) :
    (b.arrive channel ms).waitingAt i =
      b.waitingAt i ++ if b.sources[i]? = some channel then ms else [] := by
  simp only [waitingAt, getElem?_inboxes_arrive h.length_eq] at hroom ⊢
  cases hq : b.inboxes[i]? with
  | none =>
      have hnone : b.sources[i]? = none := by
        rw [List.getElem?_eq_none_iff, ← h.length_eq]
        exact List.getElem?_eq_none_iff.mp hq
      simp [hnone]
  | some q =>
      by_cases hsource : b.sources[i]? = some channel
      · have hcapacity := h.capacity q (List.mem_of_getElem? hq)
        have hle : q.waiting.length + ms.length ≤ q.capacity := by
          simpa [hq, hcapacity] using hroom hsource
        simp [hsource, Inbox.append_of_le hle]
      · simp [hsource]

theorem waitingAt_set {q : Inbox Message} (hi : i < b.inboxes.length)
    (h : b'.inboxes = b.inboxes.set i q) (j : Nat) :
    b'.waitingAt j = if i = j then q.waiting else b.waitingAt j := by
  rw [waitingAt, h]
  by_cases hij : i = j
  · subst hij
    simp [hi]
  · simp [hij, waitingAt]

/-! ## Listening -/

/-- A bundle with a subscriber, and what came to pass since it subscribed. -/
structure Audience where
  bundle : Bundle
  /-- What came in for each candidate, from what waited for its observer on. -/
  came : Nat → List Message
  /-- What the observers passed on, each message with its candidate. -/
  passed : List (Nat × Message)
  /-- What the subscriber read. -/
  heard : List (Receipt Message)

/-- Somebody subscribes. -/
def subscribe (b : Bundle) : Audience :=
  ⟨{ b with inbox := .empty messageCapacity }, b.waitingAt, [], []⟩

/-- The messages that come in for a candidate in a turn. -/
def Turn.brings (b : Bundle) (i : Nat) : Turn → List Message
  | .bring channel ms => if b.sources[i]? = some channel then ms else []
  | _ => []

/-- The message that is passed on in a turn, with its candidate. -/
def Turn.passes? (b : Bundle) : Turn → Option (Nat × Message)
  | .observeMessage i => (b.waitingAt i).head?.map fun m => (i, m)
  | _ => none

/-- What happens while a subscriber listens: a turn, or it reads on. -/
inductive Beat
  | turn (t : Turn)
  | read

/-- Beats in which messages move on and none comes in. -/
def Beat.isOnward : Beat → Bool
  | .read | .turn (.observeMessage _) => true
  | _ => false

/-- What becomes of a bundle and its subscriber. -/
def Beat.after (s : Audience) : Beat → Audience
  | .turn t =>
    ⟨t.after s.bundle, fun i => s.came i ++ t.brings s.bundle i,
      s.passed ++ (t.passes? s.bundle).toList, s.heard⟩
  | .read => match s.bundle.inbox.next? with
    | some (r, inbox) =>
      { s with bundle := { s.bundle with inbox }, heard := s.heard ++ [r] }
    | none => s

/-- What becomes of them in the end. -/
def listen (s : Audience) (beats : List Beat) : Audience := beats.foldl Beat.after s

namespace Audience

variable {s : Audience}

/-- A subscriber that reads on hears what its queue has for it, in turn. -/
theorem heard_listen_reads (s : Audience) (n : Nat) :
    (listen s (List.replicate n .read)).heard = s.heard ++ s.bundle.inbox.receipts.take n := by
  induction n generalizing s with
  | zero => simp [listen]
  | succ n ih =>
      rw [List.replicate_succ, listen, List.foldl_cons]
      refine (ih _).trans ?_
      rw [Inbox.receipts_eq_next? s.bundle.inbox, Beat.after]
      cases hnext : s.bundle.inbox.next? with
      | none =>
          have hnone := Inbox.receipts_eq_next? s.bundle.inbox
          rw [hnext] at hnone
          simp [hnone]
      | some x => simp

/-- How many candidates there are. -/
def count (s : Audience) : Nat := s.bundle.sources.length

/-- The messages that the subscriber read. -/
def messages (s : Audience) : List Message := s.heard.filterMap Receipt.item?

/-- Nobody is further behind than a queue is long: no observer with what came in for its candidate,
and the subscriber not with what was passed on. -/
def KeepsUp (s : Audience) : Prop :=
  (∀ i < s.count, (s.came i).length ≤ (ofLabel i s.passed).length + messageCapacity) ∧
    s.passed.length ≤ s.messages.length + messageCapacity

instance (s : Audience) : Decidable s.KeepsUp := by
  unfold KeepsUp
  infer_instance

/-- Nothing waits for anybody. -/
def Quiet (s : Audience) : Prop :=
  (∀ q ∈ s.bundle.inboxes, q.waiting = []) ∧ s.bundle.inbox.waiting = []

instance (s : Audience) : Decidable s.Quiet := by
  unfold Quiet
  infer_instance

/-- Every message that came in is accounted for, and in its place. -/
structure Accounts (s : Audience) : Prop where
  equipped : s.bundle.Equipped
  capacity : s.bundle.inbox.capacity = messageCapacity
  lost : s.bundle.inbox.lost = 0
  labels : ∀ x ∈ s.passed, x.1 < s.count
  /-- What came in was passed on or waits for the observer. -/
  came : ∀ i, s.came i = ofLabel i s.passed ++ s.bundle.waitingAt i
  /-- The subscriber read messages and nothing else. -/
  heard : s.heard = s.messages.map .item
  /-- What was passed on was read or waits for the subscriber. -/
  passed : s.passed.map Prod.snd = s.messages ++ s.bundle.inbox.waiting

theorem accounts_subscribe {b : Bundle} (h : b.Equipped) : Accounts (subscribe b) :=
  ⟨⟨h.length_eq, h.capacity⟩, rfl, rfl, by simp [subscribe], fun _ => rfl, rfl, rfl⟩

theorem Accounts.length_passed (h : Accounts s) :
    s.passed.length = s.messages.length + s.bundle.inbox.waiting.length := by
  rw [← List.length_map (f := Prod.snd), h.passed, List.length_append]

/-- No message moves in a quiet turn. -/
theorem after_quiet {t : Turn} (ht : t.isQuiet = true) (s : Audience) :
    Beat.after s (.turn t) = ⟨t.after s.bundle, s.came, s.passed, s.heard⟩ := by
  cases t with
  | bring | observeMessage => cases ht
  | _ => simp [Beat.after, Turn.brings, Turn.passes?]

theorem after_bring (channel : Nat) (ms : List Message) (s : Audience) :
    Beat.after s (.turn (.bring channel ms)) =
      ⟨s.bundle.arrive channel ms,
        fun i => s.came i ++ if s.bundle.sources[i]? = some channel then ms else [],
        s.passed, s.heard⟩ := by
  simp [Beat.after, Turn.after, Turn.brings, Turn.passes?]

theorem after_observeMessage {i : Nat} {q : Inbox Message} {m : Message} {rest : List Message}
    (hq : s.bundle.inboxes[i]? = some q) (hwaiting : q.waiting = m :: rest) :
    Beat.after s (.turn (.observeMessage i)) =
      ⟨s.bundle.observeMessage i, s.came, s.passed ++ [(i, m)], s.heard⟩ := by
  simp [Beat.after, Turn.after, Turn.brings, Turn.passes?, waitingAt, hq, hwaiting]

theorem after_read {m : Message} {rest : List Message} (hlost : s.bundle.inbox.lost = 0)
    (h : s.bundle.inbox.waiting = m :: rest) : Beat.after s .read =
      { s with
        bundle := { s.bundle with inbox := { s.bundle.inbox with waiting := rest } }
        heard := s.heard ++ [.item m] } := by
  rw [Beat.after, Inbox.next?_of_cons hlost h]

theorem Accounts.quiet (h : Accounts s) {t : Turn} (ht : t.isQuiet = true) :
    Accounts (Beat.after s (.turn t)) := by
  have hgrows := grows_turn ht s.bundle
  rw [after_quiet ht]
  refine ⟨h.equipped.turn t, ?_, ?_, ?_, ?_, h.heard, ?_⟩
  · rw [hgrows.inbox_eq]
    exact h.capacity
  · rw [hgrows.inbox_eq]
    exact h.lost
  · intro x hx
    exact Nat.lt_of_lt_of_le (h.labels x hx) hgrows.length_le
  · intro i
    rw [hgrows.waitingAt_eq]
    exact h.came i
  · rw [hgrows.inbox_eq]
    exact h.passed

/-- What comes in waits for the observers that are not too far behind. -/
theorem Accounts.bring (h : Accounts s) {channel : Nat} {ms : List Message}
    (hkeep : (Beat.after s (.turn (.bring channel ms))).KeepsUp) :
    Accounts (Beat.after s (.turn (.bring channel ms))) := by
  rw [after_bring] at hkeep ⊢
  refine ⟨h.equipped.arrive channel ms, h.capacity, h.lost, h.labels, ?_, h.heard, h.passed⟩
  intro i
  have hroom : s.bundle.sources[i]? = some channel →
      (s.bundle.waitingAt i).length + ms.length ≤ messageCapacity := by
    intro hsource
    have hlt : i < s.count := (List.getElem?_eq_some_iff.mp hsource).1
    have hle := hkeep.1 i hlt
    simp only [hsource, if_true, h.came i, List.length_append] at hle
    omega
  rw [h.equipped.waitingAt_arrive hroom, ← List.append_assoc, ← h.came i]

/-- What an observer passes on waits for a subscriber that is not too far behind. -/
theorem Accounts.observeMessage (h : Accounts s) {i : Nat}
    (hkeep : (Beat.after s (.turn (.observeMessage i))).KeepsUp) :
    Accounts (Beat.after s (.turn (.observeMessage i))) := by
  rcases observeMessage_cases i s.bundle with
    ⟨hnil, heq⟩ | ⟨q, m, rest, hq, hwaiting, hsources, hinboxes, hinbox⟩
  · have hsame : Beat.after s (.turn (.observeMessage i)) = s := by
      simp [Beat.after, Turn.after, Turn.brings, Turn.passes?, hnil, heq]
    rw [hsame]
    exact h
  · have hi : i < s.bundle.inboxes.length := (List.getElem?_eq_some_iff.mp hq).1
    have hat : s.bundle.waitingAt i = m :: rest := by simp [waitingAt, hq, hwaiting]
    rw [after_observeMessage hq hwaiting] at hkeep ⊢
    have hpush : s.bundle.inbox.push m =
        { s.bundle.inbox with waiting := s.bundle.inbox.waiting ++ [m] } := by
      refine Inbox.append_of_le ?_
      have hle := hkeep.2
      simp only [List.length_append, List.length_singleton, h.length_passed] at hle
      rw [h.capacity, List.length_singleton]
      exact Nat.le_of_add_le_add_left (by rw [← Nat.add_assoc]; exact hle)
    refine ⟨h.equipped.observeMessage i, ?_, ?_, ?_, ?_, h.heard, ?_⟩
    · rw [hinbox, hpush]
      exact h.capacity
    · rw [hinbox, hpush]
      exact h.lost
    · intro x hx
      rw [count, hsources]
      rcases List.mem_append.mp hx with hx | hx
      · exact h.labels x hx
      · rw [List.mem_singleton.mp hx]
        exact Nat.lt_of_lt_of_eq hi h.equipped.length_eq
    · intro j
      rw [ofLabel_append, ofLabel_singleton, waitingAt_set hi hinboxes, h.came j]
      by_cases hij : i = j
      · subst hij
        simp [hat]
      · simp [hij]
    · rw [hinbox, hpush, List.map_append, h.passed, List.append_assoc]
      rfl

/-- The subscriber reads what was passed on longest ago. -/
theorem Accounts.read (h : Accounts s) : Accounts (Beat.after s .read) := by
  cases hwaiting : s.bundle.inbox.waiting with
  | nil =>
      rw [Beat.after, Inbox.next?_of_nil h.lost hwaiting]
      exact h
  | cons m rest =>
      rw [after_read h.lost hwaiting]
      have hmessages : (s.heard ++ [Receipt.item m]).filterMap Receipt.item? = s.messages ++ [m] :=
        List.filterMap_append
      refine ⟨⟨h.equipped.length_eq, h.equipped.capacity⟩, h.capacity, h.lost, h.labels, h.came,
        ?_, ?_⟩
      · rw [messages, hmessages, List.map_append, ← h.heard]
        rfl
      · rw [messages, hmessages, h.passed, hwaiting, List.append_assoc]
        rfl

/-- **Every beat keeps account**, as long as nobody falls too far behind. -/
theorem Accounts.beat (h : Accounts s) (beat : Beat) (hkeep : (beat.after s).KeepsUp) :
    Accounts (beat.after s) := by
  cases beat with
  | read => exact h.read
  | turn t =>
      cases ht : t.isQuiet with
      | true => exact h.quiet ht
      | false =>
          cases t with
          | bring channel ms => exact h.bring hkeep
          | observeMessage i => exact h.observeMessage hkeep
          | _ => cases ht

theorem Accounts.listened (h : Accounts s) (beats : List Beat)
    (hkeep : ∀ k, (listen s (beats.take k)).KeepsUp) : Accounts (listen s beats) := by
  induction beats generalizing s with
  | nil => exact h
  | cons beat beats ih => exact ih (h.beat beat (hkeep 1)) fun k => hkeep (k + 1)

/-! ## What comes in on a channel -/

/-- The messages that come in on a channel. -/
def brought (channel : Nat) (beats : List Beat) : List Message :=
  beats.flatMap fun beat => match beat with
    | .turn (.bring c ms) => if c = channel then ms else []
    | _ => []

theorem sources_beat {i channel : Nat} (h : s.bundle.sources[i]? = some channel) (beat : Beat) :
    (beat.after s).bundle.sources[i]? = some channel := by
  cases beat with
  | read =>
      rw [Beat.after]
      split
      · exact h
      · exact h
  | turn t =>
      cases ht : t.isQuiet with
      | true =>
          obtain ⟨taken, hsources, -⟩ := grows_turn ht s.bundle
          rw [after_quiet ht, hsources,
            List.getElem?_append_left (List.getElem?_eq_some_iff.mp h).1]
          exact h
      | false =>
          cases t with
          | bring c ms => exact h
          | observeMessage j =>
              rcases observeMessage_cases j s.bundle with ⟨-, heq⟩ | ⟨-, -, -, -, -, hsources, -⟩
              · exact (congrArg (fun b => b.sources[i]?) heq).trans h
              · exact (congrArg (fun l => l[i]?) hsources).trans h
          | _ => cases ht

/-- What comes in on the channel of a candidate comes in for the candidate. -/
theorem came_beat {i channel : Nat} (h : s.bundle.sources[i]? = some channel) (beat : Beat) :
    (beat.after s).came i = s.came i ++ brought channel [beat] := by
  cases beat with
  | read =>
      rw [Beat.after]
      split <;> simp [brought]
  | turn t => cases t <;> simp [Beat.after, Turn.brings, brought, h, eq_comm]

theorem came_listen {i channel : Nat} (h : s.bundle.sources[i]? = some channel)
    (beats : List Beat) : (listen s beats).came i = s.came i ++ brought channel beats := by
  induction beats generalizing s with
  | nil => simp [listen, brought]
  | cons beat beats ih =>
      have hcons : brought channel (beat :: beats) =
          brought channel [beat] ++ brought channel beats := by
        simp only [brought, List.flatMap_cons, List.flatMap_nil, List.append_nil]
      rw [hcons, ← List.append_assoc, ← came_beat h]
      exact ih (sources_beat h beat)

/-! ## Until nothing waits -/

theorem onward_beat {beat : Beat} (h : beat.isOnward = true) (s : Audience) :
    (beat.after s).came = s.came ∧ (beat.after s).count = s.count := by
  cases beat with
  | read =>
      rw [Beat.after]
      split
      · exact ⟨rfl, rfl⟩
      · exact ⟨rfl, rfl⟩
  | turn t =>
      cases t with
      | observeMessage i =>
          refine ⟨by simp [Beat.after, Turn.brings], ?_⟩
          rcases observeMessage_cases i s.bundle with ⟨-, heq⟩ | ⟨-, -, -, -, -, hsources, -⟩
          · exact congrArg (fun b => b.sources.length) heq
          · exact congrArg List.length hsources
      | _ => cases h

theorem onward_listen {beats : List Beat} (h : ∀ beat ∈ beats, beat.isOnward = true)
    (s : Audience) : (listen s beats).came = s.came ∧ (listen s beats).count = s.count := by
  induction beats generalizing s with
  | nil => exact ⟨rfl, rfl⟩
  | cons beat beats ih =>
      obtain ⟨hcame, hcount⟩ := onward_beat (h beat List.mem_cons_self) s
      have hrest := ih (fun b hb => h b (List.mem_cons_of_mem _ hb)) (beat.after s)
      rwa [hcame, hcount] at hrest

/-- How many steps are ahead of the messages that wait: two for those that wait for an observer. -/
def backlog (s : Audience) : Nat :=
  2 * (s.bundle.inboxes.flatMap Inbox.waiting).length + s.bundle.inbox.waiting.length

theorem length_flatMap_set {l : List (Inbox Message)} {i : Nat} {q : Inbox Message}
    (h : l[i]? = some q) (q' : Inbox Message) :
    ((l.set i q').flatMap Inbox.waiting).length + q.waiting.length =
      (l.flatMap Inbox.waiting).length + q'.waiting.length := by
  induction l generalizing i with
  | nil => simp at h
  | cons p l ih =>
      cases i with
      | zero =>
          obtain rfl : p = q := by simpa using h
          simp only [List.set_cons_zero, List.flatMap_cons, List.length_append]
          omega
      | succ i =>
          have hrest := ih (i := i) (by simpa using h)
          simp only [List.set_cons_succ, List.flatMap_cons, List.length_append]
          omega

/-- While something waits, somebody can go on without anybody falling behind: the subscriber if
something waits for it, else an observer. -/
theorem Accounts.exists_onward (h : Accounts s) (hkeep : s.KeepsUp) (hwaits : ¬ s.Quiet) :
    ∃ beat : Beat, beat.isOnward = true ∧ (beat.after s).KeepsUp ∧
      (beat.after s).backlog < s.backlog := by
  cases hinbox : s.bundle.inbox.waiting with
  | cons m rest =>
      refine ⟨.read, rfl, ?_, ?_⟩
      · rw [after_read h.lost hinbox]
        refine ⟨hkeep.1, Nat.le_trans hkeep.2 ?_⟩
        simp [messages]
      · rw [after_read h.lost hinbox, backlog, backlog, hinbox]
        exact Nat.add_lt_add_left (Nat.lt_succ_self _) _
  | nil =>
      have hobserver : ∃ q ∈ s.bundle.inboxes, q.waiting ≠ [] := by
        by_contra hnone
        refine hwaits ⟨fun q hq => ?_, hinbox⟩
        by_contra hq'
        exact hnone ⟨q, hq, hq'⟩
      obtain ⟨p, hp, hne⟩ := hobserver
      obtain ⟨i, hi⟩ := List.mem_iff_getElem?.mp hp
      have hne' : s.bundle.waitingAt i ≠ [] := by simpa [waitingAt, hi] using hne
      rcases observeMessage_cases i s.bundle with
        ⟨hnil, -⟩ | ⟨q, m, rest, hq, hwaiting, hsources, hinboxes, hinbox'⟩
      · exact absurd hnil hne'
      have hlength := h.length_passed
      rw [hinbox, List.length_nil, Nat.add_zero] at hlength
      refine ⟨.turn (.observeMessage i), rfl, ?_⟩
      rw [after_observeMessage hq hwaiting]
      refine ⟨⟨?_, ?_⟩, ?_⟩
      · intro j hj
        have hle := hkeep.1 j (by rwa [count, hsources] at hj)
        simp only [ofLabel_append, List.length_append]
        omega
      -- The subscriber read all that was passed on before, so it is one message behind.
      · simp only [List.length_append, List.length_singleton, hlength, messages, messageCapacity]
        omega
      · have hsum := length_flatMap_set hq ⟨q.capacity, rest, 0⟩
        have hpush : (s.bundle.inbox.push m).waiting.length ≤ 1 := by
          simp [Inbox.push, Inbox.append, hinbox]
        simp only [hwaiting, List.length_cons] at hsum
        simp only [backlog, hinboxes, hinbox', hinbox, List.length_nil]
        omega

/-- **All that waits gets to the subscriber** in the end. -/
theorem Accounts.exists_quiet (h : Accounts s) (hkeep : s.KeepsUp) :
    ∃ more : List Beat, (∀ beat ∈ more, beat.isOnward = true) ∧
      (∀ k, (listen s (more.take k)).KeepsUp) ∧ (listen s more).Quiet := by
  induction hbacklog : s.backlog using Nat.strongRecOn generalizing s with
  | _ n ih =>
      by_cases hquiet : s.Quiet
      · exact ⟨[], by simp, fun k => by simpa [listen] using hkeep, hquiet⟩
      · obtain ⟨beat, honward, hkeep', hlt⟩ := h.exists_onward hkeep hquiet
        obtain ⟨more, hmore, hkeeps, hend⟩ :=
          ih _ (hbacklog ▸ hlt) (h.beat beat hkeep') hkeep' rfl
        refine ⟨beat :: more, ?_, ?_, hend⟩
        · rintro b (_ | ⟨_, hb⟩)
          · exact honward
          · exact hmore b hb
        · intro k
          cases k with
          | zero => exact hkeep
          | succ k => exact hkeeps k

/-! ## What the subscriber gets -/

/-- What was read, what waits for the subscriber and what waits for the observers interleave what
came in. -/
theorem Accounts.interleaves (h : Accounts s) {rest : List Message}
    (hrest : Interleaves s.count s.bundle.waitingAt rest) :
    Interleaves s.count s.came (s.messages ++ s.bundle.inbox.waiting ++ rest) := by
  have hpassed : Interleaves s.count (fun i => ofLabel i s.passed)
      (s.messages ++ s.bundle.inbox.waiting) := ⟨s.passed, h.passed, h.labels, fun _ _ => rfl⟩
  exact (hpassed.append hrest).congr fun i _ => (h.came i).symm

theorem Quiet.waitingAt_eq (h : s.Quiet) (i : Nat) : s.bundle.waitingAt i = [] := by
  rw [waitingAt]
  cases hq : s.bundle.inboxes[i]? with
  | none => rfl
  | some q => exact h.1 q (List.mem_of_getElem? hq)

/-- Once nothing waits, the subscriber has read all that came in. -/
theorem Accounts.interleaves_of_quiet (h : Accounts s) (hquiet : s.Quiet) :
    Interleaves s.count s.came s.messages := by
  have hall := h.interleaves (interleaves_nil fun i _ => hquiet.waitingAt_eq i)
  rwa [hquiet.2, List.append_nil, List.append_nil] at hall

end Audience

open Audience

/-- **The subscriber gets an interleaving** of what comes in for the candidates, unchanged and once
each, whatever happens to the channels and the selection: as long as nobody falls further behind
than a queue is long, it reads messages only, and what it read, what waits for it and what waits for
the observers, together, interleave what came in; and when the observers and the subscriber go on
and nothing more comes in, nothing waits in the end. What comes in for a candidate is what comes in
on its channel, so the messages of a channel come once if it was taken up once. -/
theorem fan_in_interleaves (channels : List Loopback) (turns : List Turn) (beats : List Beat)
    (hkeep : ∀ k, (listen (subscribe (run channels turns)) (beats.take k)).KeepsUp) :
    let b := run channels turns
    let s := listen (subscribe b) beats
    s.heard = s.messages.map .item ∧
      (∀ i channel, b.sources[i]? = some channel →
        s.came i = b.waitingAt i ++ brought channel beats) ∧
      (∀ rest, Interleaves s.count s.bundle.waitingAt rest →
        Interleaves s.count s.came (s.messages ++ s.bundle.inbox.waiting ++ rest)) ∧
      (s.Quiet → Interleaves s.count s.came s.messages) ∧
      ∃ more : List Beat, (∀ beat ∈ more, beat.isOnward = true) ∧ (listen s more).Quiet ∧
        Interleaves s.count s.came (listen s more).messages := by
  intro b s
  have haccounts : s.Accounts :=
    (accounts_subscribe (equipped_run channels turns)).listened beats hkeep
  have hkeeps : s.KeepsUp := by
    simpa only [List.take_length] using hkeep beats.length
  obtain ⟨more, honward, hmore, hquiet⟩ := haccounts.exists_quiet hkeeps
  refine ⟨haccounts.heard, fun i channel h => came_listen h beats,
    fun rest hrest => haccounts.interleaves hrest, haccounts.interleaves_of_quiet,
    more, honward, hquiet, ?_⟩
  have hall := (haccounts.listened more hmore).interleaves_of_quiet hquiet
  rwa [(onward_listen honward s).1, (onward_listen honward s).2] at hall

/-- Two channels, and the selection moves between them and a third one while messages wait. -/
theorem fan_in_interleaves_moving :
    let channels := [Loopback.idle, .idle, .idle]
    let turns : List Turn := [.add .cloud 0, .add .lan 1, .connect]
    let m (text : String) : Message := ⟨"peer", .chat text⟩
    let beats : List Beat := [.turn (.bring 0 [m "a", m "b"]), .turn (.observeState 0),
      .turn (.bring 1 [m "c"]), .turn (.observeMessage 0), .turn (.report 1 .disconnected),
      .turn (.observeState 1), .turn .act, .turn (.observeMessage 1), .read,
      .turn (.add .ble 2), .turn .act, .turn (.observeMessage 0), .read, .read]
    let s := listen (subscribe (run channels turns)) beats
    (∀ k, (listen (subscribe (run channels turns)) (beats.take k)).KeepsUp) ∧
      s.messages = [m "a", m "c", m "b"] ∧ Interleaves s.count s.came s.messages := by
  intro channels turns m beats s
  have hkeep : ∀ k, (listen (subscribe (run channels turns)) (beats.take k)).KeepsUp := by
    intro k
    rcases Nat.lt_or_ge k 14 with hk | hk
    · revert k
      decide +kernel
    · rw [List.take_of_length_le hk]
      decide +kernel
  obtain ⟨-, -, -, hend, -⟩ := fan_in_interleaves channels turns beats hkeep
  exact ⟨hkeep, by decide +kernel, hend (by decide +kernel)⟩

/-- A channel that was taken up twice is observed twice, and its messages come twice. -/
theorem channel_taken_up_twice :
    let m : Message := ⟨"peer", .join⟩
    let b := run [.idle] [.add .lan 0, .add .lan 0, .act, .act]
    let beats : List Beat := [.turn (.bring 0 [m]), .turn (.observeMessage 0),
      .turn (.observeMessage 1), .read, .read]
    let s := listen (subscribe b) beats
    (∀ k, (listen (subscribe b) (beats.take k)).KeepsUp) ∧ s.Quiet ∧ brought 0 beats = [m] ∧
      s.messages = [m, m] ∧ ¬ Interleaves 1 (fun channel => brought channel beats) s.messages := by
  intro m b beats s
  have hmessages : s.messages = [m, m] := by decide +kernel
  refine ⟨fun k => ?_, by decide +kernel, by decide +kernel, hmessages, fun h => ?_⟩
  · rcases Nat.lt_or_ge k 5 with hk | hk
    · revert k
      decide +kernel
    · rw [List.take_of_length_le hk]
      decide +kernel
  · have hsame := hmessages.symm.trans h.eq_of_one
    exact absurd hsame (by decide +kernel)

end Bundle

end PeerCall
