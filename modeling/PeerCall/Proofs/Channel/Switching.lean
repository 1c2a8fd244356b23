import Mathlib.Data.Nat.Init
import PeerCall.Proofs.Channel.Tracking

/-!
# Notices tell what is selected

Whoever hears the notices of a selection, and when no candidate is connected, knows which transport
is selected all the time. A notice comes exactly when the selection moves to another connected
candidate, also to one of the same transport, and it names the transport selected just before.
-/
namespace PeerCall

namespace Selection

/-! ## Orders -/

/-- What a selection is told: to take up a channel whose state is known, or another state of a
candidate. -/
inductive Order
  | add (transport : Transport) (channel : Nat) (state : ChannelState)
  | record (candidate : Nat) (state : ChannelState)

/-- Obey an order: a notice, if there is one, and the selection after it. -/
def obey (s : Selection) : Order → Option Switch × Selection
  | .add transport channel state => s.add transport channel state
  | .record candidate state => s.record candidate state

/-- The selection after the first of some orders. -/
def selectionAt (orders : List Order) (k : Nat) : Selection :=
  (orders.take k).foldl (fun s order => (s.obey order).2) .empty

/-- The notice on one of some orders. -/
def noticeAt? (orders : List Order) (k : Nat) : Option Switch :=
  orders[k]?.bind fun order => ((selectionAt orders k).obey order).1

/-- No candidate is connected. -/
def isGap (s : Selection) : Bool := !s.candidates.any (·.state = .connected)

/-- The selected transport as one knows it from outside: a notice tells it, and in a gap there is
none. -/
def followed (orders : List Order) : Nat → Option Transport
  | 0 => none
  | k + 1 => match noticeAt? orders k with
    | some notice => some notice.current
    | none => if (selectionAt orders (k + 1)).isGap then none else followed orders k

variable {s : Selection} {c : Candidate} {i j k : Nat} {order : Order} {orders : List Order}
  {notice : Switch}

theorem selectionAt_succ (hk : orders[k]? = some order) :
    selectionAt orders (k + 1) = ((selectionAt orders k).obey order).2 := by
  simp [selectionAt, List.take_add_one, hk]

theorem noticeAt?_eq (hk : orders[k]? = some order) :
    noticeAt? orders k = ((selectionAt orders k).obey order).1 := by
  rw [noticeAt?, hk, Option.bind_some]

theorem selectionAt_succ_of_none (hk : orders[k]? = none) :
    selectionAt orders (k + 1) = selectionAt orders k := by
  simp [selectionAt, List.take_add_one, hk]

theorem noticeAt?_of_none (hk : orders[k]? = none) : noticeAt? orders k = none := by
  rw [noticeAt?, hk, Option.bind_none]

/-- The first orders do not know of later ones. -/
theorem selectionAt_append (h : k ≤ orders.length) (more : List Order) :
    selectionAt (orders ++ more) k = selectionAt orders k := by
  rw [selectionAt, selectionAt, List.take_append_of_le_length h]

theorem noticeAt?_append (h : k < orders.length) (more : List Order) :
    noticeAt? (orders ++ more) k = noticeAt? orders k := by
  rw [noticeAt?, noticeAt?, selectionAt_append (Nat.le_of_lt h), List.getElem?_append_left h]

/-! ## One order -/

/-- A selection moves on to another one, with a notice or without: candidates stay where they are
and what transport they are, what is selected is the best of them, and the notice tells whether a
candidate is selected that was not, and what was selected before. -/
structure Moves (s : Selection) (notice? : Option Switch) (s' : Selection) : Prop where
  keeps : ∀ (i : Nat) (c : Candidate), s.candidates[i]? = some c →
    ∃ c' : Candidate, s'.candidates[i]? = some c' ∧ c'.transport = c.transport
  current : s'.Current
  notice : notice? = if s'.best = s.best then none
    else s'.bestTransport.map fun t => ⟨s.bestTransport, t, t.bitrateHint⟩

theorem evaluate_eq (s : Selection) : (evaluate s).1 =
    if (evaluate s).2.best = s.best then none
    else (evaluate s).2.bestTransport.map fun t => ⟨s.bestTransport, t, t.bitrateHint⟩ := by
  unfold evaluate
  dsimp only
  split <;> rfl

/-- To select again after candidates changed in state only, or more came, is to move on. -/
theorem moves_evaluate {cs : List Candidate} (hcurrent : s.Current)
    (hkeeps : ∀ (i : Nat) (c : Candidate), s.candidates[i]? = some c →
      ∃ c' : Candidate, cs[i]? = some c' ∧ c'.transport = c.transport) :
    Moves s (evaluate { s with candidates := cs }).1 (evaluate { s with candidates := cs }).2 := by
  -- The transport selected before is looked up among the new candidates, where it is the same.
  let t : Selection := { s with candidates := cs }
  have hprevious : t.bestTransport = s.bestTransport := by
    cases hbest : s.best with
    | none =>
        have hnone : t.best = none := hbest
        rw [bestTransport_of_none hbest, bestTransport_of_none hnone]
    | some i =>
        obtain ⟨c, hc⟩ := isBest_of_bestOf (hcurrent.best.symm.trans hbest)
        obtain ⟨c', hc', htransport⟩ := hkeeps i c hc.here
        have hsome : t.best = some i := hbest
        rw [bestTransport_of_some hbest hc.here, bestTransport_of_some hsome hc', htransport]
  refine ⟨?_, current_evaluate _, ?_⟩
  · rw [candidates_evaluate]
    exact hkeeps
  · rw [evaluate_eq t, hprevious]

theorem Moves.refl (h : s.Current) : Moves s none s :=
  ⟨fun _ c hc => ⟨c, hc, rfl⟩, h, (if_pos rfl).symm⟩

/-- **Every order moves a selection on.** -/
theorem moves_obey (h : s.Current) (order : Order) :
    Moves s (s.obey order).1 (s.obey order).2 := by
  cases order with
  | add transport channel state =>
      refine moves_evaluate h fun i c hc => ⟨c, ?_, rfl⟩
      rw [List.getElem?_append_left (List.getElem?_eq_some_iff.mp hc).1]
      exact hc
  | record candidate state =>
      rw [obey, Selection.record]
      cases hcandidate : s.candidates[candidate]? with
      | none => exact .refl h
      | some d =>
          refine moves_evaluate h fun i c hc => ?_
          by_cases hi : candidate = i
          · subst hi
            cases hcandidate.symm.trans hc
            exact ⟨_, List.getElem?_set_self (List.getElem?_eq_some_iff.mp hc).1, rfl⟩
          · exact ⟨c, by rw [List.getElem?_set_ne hi, hc], rfl⟩

/-- A selection up to date has selected a candidate exactly if that is the best one. -/
theorem Current.best_eq_some_iff (h : s.Current) :
    s.best = some i ↔ ∃ c, IsBest s.candidates i c := by
  rw [h.best]
  refine ⟨isBest_of_bestOf, ?_⟩
  rintro ⟨c, hc⟩
  cases hbest : bestOf s.candidates with
  | none =>
      have hmem : c ∈ s.candidates := List.mem_of_getElem? hc.here
      exact absurd hc.connected (not_connected_of_bestOf hbest c hmem)
  | some j =>
      obtain ⟨d, hd⟩ := isBest_of_bestOf hbest
      have hij := hc.precedes j d hd.here hd.connected
      have hji := hd.precedes i c hc.here hc.connected
      unfold Precedes at hij hji
      exact congrArg some (by omega)

theorem Current.best_eq_none_iff (h : s.Current) : s.best = none ↔ s.isGap = true := by
  rw [isGap, Bool.not_eq_true', List.any_eq_false, h.best]
  constructor
  · intro hbest c hc
    rw [decide_eq_true_iff]
    exact not_connected_of_bestOf hbest c hc
  · intro hgap
    cases hbest : bestOf s.candidates with
    | none => rfl
    | some i =>
        obtain ⟨c, hc⟩ := isBest_of_bestOf hbest
        exact absurd (decide_eq_true hc.connected) (hgap c (List.mem_of_getElem? hc.here))

/-- In a selection up to date nothing is selected exactly in a gap. -/
theorem Current.bestTransport_eq_none_iff (h : s.Current) :
    s.bestTransport = none ↔ s.isGap = true := by
  rw [← h.best_eq_none_iff]
  refine ⟨?_, bestTransport_of_none⟩
  intro hnone
  cases hbest : s.best with
  | none => rfl
  | some i =>
      obtain ⟨c, hc⟩ := h.best_eq_some_iff.mp hbest
      rw [bestTransport_of_some hbest hc.here] at hnone
      cases hnone

namespace Moves

variable {s' : Selection} {notice? : Option Switch}

/-- There is a notice exactly if a candidate is selected that was not selected before. -/
theorem eq_some_iff (h : Moves s notice? s') :
    notice? = some notice ↔ ∃ i c, IsBest s'.candidates i c ∧ s'.best = some i ∧
      s.best ≠ some i ∧
      notice = ⟨s.bestTransport, c.transport, c.transport.bitrateHint⟩ := by
  rw [h.notice]
  constructor
  · intro hnotice
    split at hnotice
    · cases hnotice
    · rename_i hchanged
      obtain ⟨t, ht, rfl⟩ := Option.map_eq_some_iff.mp hnotice
      cases hbest : s'.best with
      | none =>
          rw [bestTransport_of_none hbest] at ht
          cases ht
      | some i =>
          obtain ⟨c, hc⟩ := h.current.best_eq_some_iff.mp hbest
          rw [bestTransport_of_some hbest hc.here] at ht
          cases ht
          rw [hbest] at hchanged
          exact ⟨i, c, hc, rfl, Ne.symm hchanged, rfl⟩
  · rintro ⟨i, c, hc, hbest, hchanged, rfl⟩
    rw [if_neg (by rw [hbest]; exact Ne.symm hchanged), bestTransport_of_some hbest hc.here]
    rfl

/-- Who is selected after a notice is the one that it names. -/
theorem bestTransport_of_some (h : Moves s (some notice) s') :
    s'.bestTransport = some notice.current := by
  obtain ⟨i, c, hc, hbest, -, rfl⟩ := h.eq_some_iff.mp rfl
  exact Selection.bestTransport_of_some hbest hc.here

/-- Without a notice the transport selected is the same, if one is selected at all. -/
theorem bestTransport_of_none (hs : s.Current) (h : Moves s none s') :
    s'.bestTransport = if s'.isGap then none else s.bestTransport := by
  split
  · rename_i hgap
    exact h.current.bestTransport_eq_none_iff.mpr hgap
  · rename_i hgap
    have hnotice := h.notice
    split at hnotice
    · rename_i hsame
      cases hbest : s.best with
      | none => exact absurd (h.current.best_eq_none_iff.mp (hsame.trans hbest)) hgap
      | some i =>
          obtain ⟨c, hc⟩ := hs.best_eq_some_iff.mp hbest
          obtain ⟨c', hc', htransport⟩ := h.keeps i c hc.here
          rw [Selection.bestTransport_of_some hbest hc.here,
            Selection.bestTransport_of_some (hsame.trans hbest) hc', htransport]
    · exact absurd (h.current.bestTransport_eq_none_iff.mp
        (Option.map_eq_none_iff.mp hnotice.symm)) hgap

end Moves

/-! ## Orders in turn -/

theorem current_selectionAt (orders : List Order) (k : Nat) : (selectionAt orders k).Current := by
  induction k with
  | zero => exact current_empty
  | succ k ih =>
      cases hk : orders[k]? with
      | none =>
          rw [selectionAt_succ_of_none hk]
          exact ih
      | some order =>
          rw [selectionAt_succ hk]
          exact (moves_obey ih order).current

/-- **From one point to the next a selection moves on**, with the notice of that order. -/
theorem moves_selectionAt (orders : List Order) (k : Nat) :
    Moves (selectionAt orders k) (noticeAt? orders k) (selectionAt orders (k + 1)) := by
  have hcurrent := current_selectionAt orders k
  cases hk : orders[k]? with
  | none =>
      rw [selectionAt_succ_of_none hk, noticeAt?_of_none hk]
      exact .refl hcurrent
  | some order =>
      rw [selectionAt_succ hk, noticeAt?_eq hk]
      exact moves_obey hcurrent order

/-- **What one follows from outside is what is selected.** -/
theorem followed_eq (orders : List Order) (k : Nat) :
    followed orders k = (selectionAt orders k).bestTransport := by
  induction k with
  | zero => rfl
  | succ k ih =>
      have hmoves := moves_selectionAt orders k
      rw [followed]
      cases hnotice : noticeAt? orders k with
      | some notice =>
          rw [hnotice] at hmoves
          exact hmoves.bestTransport_of_some.symm
      | none =>
          rw [hnotice] at hmoves
          rw [hmoves.bestTransport_of_none (current_selectionAt orders k), ih]

/-- While there is no notice the transport stays selected, unless there is a gap. -/
theorem bestTransport_unnoticed (hjk : j ≤ k)
    (hquiet : ∀ i, j ≤ i → i < k → noticeAt? orders i = none) :
    (selectionAt orders k).bestTransport = (selectionAt orders j).bestTransport ∨
      (selectionAt orders k).bestTransport = none ∧
        ∃ i, j < i ∧ i ≤ k ∧ (selectionAt orders i).isGap = true := by
  induction k, hjk using Nat.le_induction with
  | base => exact Or.inl rfl
  | succ k hjk ih =>
      have hmoves := moves_selectionAt orders k
      rw [hquiet k hjk (Nat.lt_succ_self k)] at hmoves
      rw [hmoves.bestTransport_of_none (current_selectionAt orders k)]
      split
      · rename_i hgap
        exact Or.inr ⟨rfl, k + 1, Nat.lt_succ_of_le hjk, Nat.le_refl _, hgap⟩
      · rcases ih fun i hji hik => hquiet i hji (Nat.lt_succ_of_lt hik) with hsame | ⟨hnone, hgap⟩
        · exact Or.inl hsame
        · obtain ⟨i, hji, hik, hgap⟩ := hgap
          exact Or.inr ⟨hnone, i, hji, Nat.le_succ_of_le hik, hgap⟩

/-- A notice names the transport selected just before. -/
theorem previous_eq (h : noticeAt? orders k = some notice) :
    notice.previous = (selectionAt orders k).bestTransport := by
  have hmoves := moves_selectionAt orders k
  rw [h] at hmoves
  obtain ⟨i, c, -, -, -, rfl⟩ := hmoves.eq_some_iff.mp rfl
  rfl

/-- The first notice names no transport as the one before. -/
theorem previous_of_first (h : noticeAt? orders k = some notice)
    (hfirst : ∀ i < k, noticeAt? orders i = none) : notice.previous = none := by
  rw [previous_eq h]
  rcases bestTransport_unnoticed (Nat.zero_le k) fun i _ hik => hfirst i hik with hsame | ⟨hnone, -⟩
  · exact hsame
  · exact hnone

/-- A notice takes up where the one before it ended, unless there was a gap between them. -/
theorem previous_of_next {next : Switch} (hjk : j < k) (hj : noticeAt? orders j = some notice)
    (hk : noticeAt? orders k = some next)
    (hquiet : ∀ i, j < i → i < k → noticeAt? orders i = none) :
    next.previous = some notice.current ∨
      next.previous = none ∧ ∃ i, j < i ∧ i ≤ k ∧ (selectionAt orders i).isGap = true := by
  have hmoves := moves_selectionAt orders j
  rw [hj] at hmoves
  rw [previous_eq hk, ← hmoves.bestTransport_of_some]
  rcases bestTransport_unnoticed (Nat.succ_le_of_lt hjk) fun i hji hik =>
      hquiet i (Nat.lt_of_succ_le hji) hik with hsame | ⟨hnone, i, hji, hik, hgap⟩
  · exact Or.inl hsame
  · exact Or.inr ⟨hnone, i, Nat.lt_of_succ_lt hji, hik, hgap⟩

end Selection

/-! ## The selection of a bundle -/

namespace Bundle

open Selection

variable {b b' : Bundle} {orders : List Order} {i : Nat}

/-- A bundle's selection has obeyed orders in turn, and the bundle has told all notices. -/
structure Obeyed (b : Bundle) (orders : List Order) : Prop where
  selection : b.selection = selectionAt orders orders.length
  switches : b.switches = (List.range orders.length).filterMap (noticeAt? orders)

/-- The selection has obeyed some orders or other. -/
def Obeys (b : Bundle) : Prop := ∃ orders, Obeyed b orders

theorem obeys_start (channels : List Loopback) : Obeys (start channels) := ⟨[], rfl, rfl⟩

theorem Obeys.of_eq (h : Obeys b) (hselection : b'.selection = b.selection)
    (hswitches : b'.switches = b.switches) : Obeys b' := by
  obtain ⟨orders, h⟩ := h
  exact ⟨orders, hselection.trans h.selection, hswitches.trans h.switches⟩

/-- One more order is obeyed, and its notice told. -/
theorem Obeys.obey (h : Obeys b) (order : Order)
    (hselection : b'.selection = (b.selection.obey order).2)
    (hswitches : b'.switches = b.switches ++ (b.selection.obey order).1.toList) : Obeys b' := by
  obtain ⟨orders, h⟩ := h
  have hlast : (orders ++ [order])[orders.length]? = some order := List.getElem?_concat_length ..
  have hbefore : selectionAt (orders ++ [order]) orders.length = b.selection := by
    rw [selectionAt_append (Nat.le_refl _), h.selection]
  have hnotices : (List.range orders.length).filterMap (noticeAt? (orders ++ [order])) =
      b.switches := by
    rw [h.switches]
    exact List.filterMap_congr fun k hk => noticeAt?_append (List.mem_range.mp hk) [order]
  refine ⟨orders ++ [order], ?_, ?_⟩
  · rw [List.length_append, List.length_singleton, selectionAt_succ hlast, hbefore, hselection]
  · rw [List.length_append, List.length_singleton, List.range_succ, List.filterMap_append,
      hnotices, hswitches, ← hbefore, ← noticeAt?_eq hlast, List.filterMap_cons,
      List.filterMap_nil]
    cases noticeAt? (orders ++ [order]) orders.length <;> rfl

theorem Obeys.act (h : Obeys b) : Obeys b.act := by
  unfold Bundle.act
  split
  · exact h
  · exact h.obey (.add _ _ _) rfl rfl
  · exact h.obey (.record _ _) rfl rfl

theorem Obeys.actAll (h : Obeys b) : Obeys b.actAll :=
  List.foldlRecOn b.commands _ h fun _ h' _ _ => h'.act

theorem Obeys.onRoute (h : Obeys b) (route : Route) (f : Loopback → Loopback) :
    Obeys (b.onRoute route f) :=
  List.foldlRecOn _ _ h.actAll fun _ h' _ _ => h'.of_eq rfl rfl

theorem Obeys.observeState (h : Obeys b) (i : Nat) : Obeys (b.observeState i) := by
  unfold Bundle.observeState
  split
  · split
    · split
      · exact h.of_eq rfl rfl
      · exact h
    · exact h
  · exact h

theorem Obeys.observeMessage (h : Obeys b) (i : Nat) : Obeys (b.observeMessage i) := by
  unfold Bundle.observeMessage
  split
  · split
    · exact h.of_eq rfl rfl
    · exact h
  · exact h

theorem Obeys.turn (h : Obeys b) (t : Turn) : Obeys (t.after b) := by
  cases t with
  | report channel state => exact h.of_eq rfl rfl
  | bring channel ms => exact h.of_eq rfl rfl
  | add transport channel => exact h.of_eq rfl rfl
  | observeState candidate => exact h.observeState candidate
  | observeMessage candidate => exact h.observeMessage candidate
  | act => exact h.act
  | send m => exact h.onRoute .best _
  | broadcast m => exact h.onRoute .connected _
  | connect => exact h.onRoute .everyone _
  | disconnect => exact h.onRoute .everyone _

/-- **Whatever happens to a bundle, its selection obeys orders in turn**, and the bundle tells the
notices. -/
theorem obeys_run (channels : List Loopback) (turns : List Turn) : Obeys (run channels turns) :=
  List.foldlRecOn turns _ (obeys_start channels) fun _ h t _ => h.turn t

end Bundle

/-! ## The whole -/

namespace Selection

/-- Notices tell what is selected while orders are obeyed. -/
structure Replays (orders : List Order) : Prop where
  /-- The best of the connected candidates is selected. -/
  selected : ∀ k i, (selectionAt orders k).best = some i ↔
    ∃ c, IsBest (selectionAt orders k).candidates i c
  /-- None is selected in a gap, and only there. -/
  gap : ∀ k, (selectionAt orders k).best = none ↔ (selectionAt orders k).isGap = true
  /-- There is a notice exactly if a candidate is selected that was not, and what it names. -/
  notice : ∀ k notice, noticeAt? orders k = some notice ↔
    ∃ i c, IsBest (selectionAt orders (k + 1)).candidates i c ∧
      (selectionAt orders (k + 1)).best = some i ∧ (selectionAt orders k).best ≠ some i ∧
      notice = ⟨(selectionAt orders k).bestTransport, c.transport, c.transport.bitrateHint⟩
  /-- The first notice names no transport before. -/
  first : ∀ k notice, noticeAt? orders k = some notice → (∀ i < k, noticeAt? orders i = none) →
    notice.previous = none
  /-- Any other one names what the notice before it came to, or none after a gap. -/
  next : ∀ j k notice next, j < k → noticeAt? orders j = some notice →
    noticeAt? orders k = some next → (∀ i, j < i → i < k → noticeAt? orders i = none) →
    next.previous = some notice.current ∨
      next.previous = none ∧ ∃ i, j < i ∧ i ≤ k ∧ (selectionAt orders i).isGap = true
  /-- What one follows by notices and gaps is what is selected. -/
  followed : ∀ k, followed orders k = (selectionAt orders k).bestTransport

/-- **Notices replay the selection**, whatever orders it is given. A notice comes exactly when the
selection moves to another connected candidate, be it of the same transport. It names the transport
selected just before and the bitrate of the new one, takes up where the notice before it ended
unless there was a gap, and with the gaps it tells the transport selected at every point. A bundle's
selection does nothing but obey orders in turn, whatever happens to the bundle, and the bundle tells
all the notices and no others. -/
theorem notices_replay_selection :
    (∀ orders, Replays orders) ∧ ∀ channels turns, (Bundle.run channels turns).Obeys := by
  refine ⟨fun orders => ?_, Bundle.obeys_run⟩
  have hcurrent := current_selectionAt orders
  exact {
    selected := fun k _ => (hcurrent k).best_eq_some_iff
    gap := fun k => (hcurrent k).best_eq_none_iff
    notice := fun k _ => (moves_selectionAt orders k).eq_some_iff
    first := fun _ _ => previous_of_first
    next := fun _ _ _ _ => previous_of_next
    followed := followed_eq orders }

/-- Two local networks and a relay server: one network after the other is lost, then the server, and
a network comes back. -/
def outages : List Order :=
  [.add .cloud 0 .connected, .add .lan 1 .connected, .add .lan 2 .connected,
    .record 1 .disconnected, .record 2 .error, .record 0 .idle, .record 1 .connected]

/-- There are five notices: one of them from a network to the other, and the last one after a
gap. -/
theorem notices_replay_selection_outages :
    (List.range 7).map (noticeAt? outages) =
      [some ⟨none, .cloud, 1500⟩, some ⟨some .cloud, .lan, 5000⟩, none,
        some ⟨some .lan, .lan, 5000⟩, some ⟨some .lan, .cloud, 1500⟩, none,
        some ⟨none, .lan, 5000⟩] ∧
      (List.range 8).map (fun k => (selectionAt outages k).bestTransport) =
        [none, some .cloud, some .lan, some .lan, some .lan, some .cloud, none, some .lan] := by
  obtain ⟨hreplays, -⟩ := notices_replay_selection
  refine ⟨by decide, ?_⟩
  rw [← List.map_congr_left fun k _ => (hreplays outages).followed k]
  decide

end Selection

end PeerCall
