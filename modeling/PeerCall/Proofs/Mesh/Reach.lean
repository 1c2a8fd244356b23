import PeerCall.Proofs.Mesh.Spreading
import PeerCall.Proofs.Text.Utf8

/-!
# How far a flood gets

If frames are fed in the order of their transmission, a flood is a breadth-first search: it gets to
all routers within one hop more than the budget, and to no others, and it ends.

In another order a copy may arrive first that took a longer way and has less of its budget left.
Duplicates are dropped whatever their budget, so the flood may end there. All that can be said of
every order is that a router is reached if some way leads to it on which the budget cannot end:
no router on it ends a trail of just one hop more than the budget.
-/
namespace PeerCall.Mesh.Flood

open Network Router

variable {p : Packet} {r : Router} {m : Message} {id : PacketId} {timestamp : UInt64}
  {f : Flood} {w : Wave} {g : Layout} {times : List Instant} {now : Instant} {i o d : Nat}
  {routers : List Router} {links : Nat → List Nat}

/-- Routers that a packet is new to, and whose windows outlast the readings. -/
structure Listening (times : List Instant) (id : PacketId) (routers : List Router) : Prop where
  attends : ∀ r ∈ routers, r.Attends times
  isNew : ∀ r ∈ routers, r.IsNew id

theorem Listening.informed (h : Listening times id routers) : Informed times id [] routers where
  attends := h.attends
  isNew _ r hr _ := h.isNew r (List.mem_of_getElem? hr)
  remembers _ _ _ hi := absurd hi List.not_mem_nil

/-- Routers that have handled nothing. -/
theorem listening_fresh {nodes : List (String × MeshConfig)} (id : PacketId)
    (hwindow : ∀ node ∈ nodes, node.2.seenWindow ≠ 0 ∧
      times.Pairwise fun t t' => t' < t + node.2.seenWindow) :
    Listening times id (fresh nodes).routers := by
  constructor <;> intro r hr <;> obtain ⟨node, hnode, rfl⟩ := List.mem_map.mp hr
  · exact ⟨RecentIds.sound_empty _ _, (hwindow node hnode).1, (hwindow node hnode).2⟩
  · exact List.not_mem_nil

/-! ## What the routers reached have done -/

theorem Follows.deliveredBy_of_not_mem (h : Follows p m g times f w) (hi : i ∉ w.nodes) :
    f.deliveredBy i = [] := by
  rw [h.delivered, List.flatMap_eq_nil_iff]
  rintro ⟨j, d⟩ hj
  rw [if_neg]
  rintro ⟨rfl, -⟩
  exact hi (Wave.mem_nodes.mpr ⟨d, hj⟩)

/-- A router that is reached delivers once, unless it is the origin. -/
theorem Follows.deliveredBy_of_mem (h : Follows p m g times f w) (hnodup : w.nodes.Nodup)
    (hi : (i, d) ∈ w.reached) : f.deliveredBy i = if d ≠ 0 then heard m else [] := by
  have hothers : ∀ l : List (Nat × Nat), i ∉ l.map Prod.fst →
      (l.flatMap fun x => if x.1 = i ∧ x.2 ≠ 0 then heard m else []) = [] := by
    intro l hl
    rw [List.flatMap_eq_nil_iff]
    intro x hx
    have hne : x.1 ≠ i := fun heq => hl (heq ▸ List.mem_map_of_mem hx)
    rw [if_neg fun hx' => hne hx'.1]
  obtain ⟨front, back, hreached⟩ := List.append_of_mem hi
  rw [Wave.nodes, hreached, List.map_append, List.map_cons, List.nodup_append] at hnodup
  obtain ⟨-, hback, hfront⟩ := hnodup
  have hnot : i ∉ front.map Prod.fst := fun hmem => hfront i hmem i List.mem_cons_self rfl
  rw [h.delivered, hreached, List.flatMap_append, List.flatMap_cons, hothers front hnot,
    hothers back (List.nodup_cons.mp hback).1]
  simp

theorem Follows.length_transmittedBy_le (h : Follows p m g times f w) (hnodup : w.nodes.Nodup)
    (i : Nat) : (f.transmittedBy i).length ≤ 1 := by
  have hcount : (w.reached.map Prod.fst).count i ≤ 1 := List.nodup_iff_count_le_one.mp hnodup i
  rw [List.count_eq_countP, List.countP_map] at hcount
  rw [h.transmitted]
  refine Nat.le_trans (List.countP_mono_left fun x _ hx => ?_) hcount
  simpa using (of_decide_eq_true hx).1

/-! ## A packet without a frame -/

/-- A flood of which nobody can read a frame. -/
structure Unread (f : Flood) : Prop where
  frames : ∀ frame ∈ f.network.frames, ∀ q, Packet.ofDatagram frame ≠ .ok q
  delivered : ∀ i, f.deliveredBy i = []
  transmitted : ∀ i, (f.transmittedBy i).length ≤ 1

theorem unread_start (links : Nat → List Nat) (now : Instant) (hr : routers[o]? = some r)
    (hframed : ¬ (r.packetFor id timestamp m).Framed) :
    Unread (start links routers o now id timestamp m) ∧
      (start links routers o now id timestamp m).pending.length ≤ (links o).length := by
  have hactions : ∀ frames, let acts := (r.perform now
      (Step.task frames (.originate id timestamp m))).1
      acts = [] ∨ ∃ frame, acts = [.transmit frame] ∧ ∀ q, Packet.ofDatagram frame ≠ .ok q := by
    intro frames
    rw [perform_packet (p := r.packetFor id timestamp m) rfl]
    have hresponse : (Step.task frames (.originate id timestamp m)).response r.node
        (r.packetFor id timestamp m) = transmit (r.packetFor id timestamp m) := rfl
    rw [hresponse, transmit]
    split
    · cases hp : (r.packetFor id timestamp m).toDatagram with
      | error fault => exact Or.inl rfl
      | ok frame =>
          exact Or.inr ⟨frame, rfl, fun q hread => hframed (Packet.framed_of_ofDatagram hp hread)⟩
    · exact Or.inl rfl
  rw [start, act_eq hr]
  rcases hactions [] with hnone | ⟨frame, hone, hread⟩
  · rw [hnone]
    exact ⟨⟨by simp [Network.transmitted], by simp [deliveredBy, Router.delivered],
      by simp [transmittedBy, Network.transmitted]⟩, by simp [Network.transmitted]⟩
  · rw [hone]
    refine ⟨⟨by simpa [Network.transmitted] using hread, by simp [deliveredBy, Router.delivered],
      fun i => ?_⟩, by simp [Network.transmitted]⟩
    by_cases hi : o = i <;> simp [transmittedBy, Network.transmitted, hi]

theorem Unread.feed (links : Nat → List Nat) (h : Unread f) (now : Instant) (place : Nat) :
    Unread (feed links now place f) ∧
      (feed links now place f).pending = f.pending.eraseIdx place := by
  cases hplace : f.pending[place]? with
  | none =>
      simp only [Flood.feed, hplace]
      exact ⟨h, (List.eraseIdx_of_length_le (List.getElem?_eq_none_iff.mp hplace)).symm⟩
  | some x =>
      obtain ⟨k, i⟩ := x
      have hnone : ∀ r, (Step.task f.network.frames (.feed k)).packet? r = none := by
        intro r
        dsimp only [Step.task, Task.packet?]
        cases hframe : f.network.frames[k]? with
        | none => rfl
        | some frame =>
            rw [Option.getD_some]
            cases hread : Packet.ofDatagram frame with
            | error fault => rfl
            | ok q => exact absurd hread (h.frames frame (List.mem_of_getElem? hframe) q)
      have hidle : (f.network.step i now (.feed k)).1 = [] := by
        cases hr : f.network.routers[i]? with
        | none => rw [step_of_none hr]
        | some r =>
            rw [step_eq hr]
            exact (perform_none (hnone r) now).1
      obtain ⟨routers, hact⟩ := act_of_idle links
        (f := { f with pending := f.pending.eraseIdx place }) hidle
      simp only [Flood.feed, hplace, hact]
      refine ⟨⟨h.frames, fun j => ?_, fun j => ?_⟩, trivial⟩
      · rw [deliveredBy_idle]
        exact h.delivered j
      · rw [transmittedBy_idle]
        exact h.transmitted j

theorem Unread.run (links : Nat → List Nat) (h : Unread f) (schedule : List (Instant × Nat)) :
    Unread (run links schedule f) := by
  induction schedule generalizing f with
  | nil => exact h
  | cons s schedule ih => exact ih (h.feed links s.1 s.2).1

theorem Unread.pending_run (h : Unread f) (times : List Instant) :
    (Flood.run links (times.map (·, 0)) f).pending = f.pending.drop times.length := by
  induction times generalizing f with
  | nil => rfl
  | cons now times ih =>
      obtain ⟨hnext, hpending⟩ := h.feed links now 0
      rw [List.map_cons, Flood.run, List.foldl_cons]
      refine (ih hnext).trans ?_
      rw [hpending, List.length_cons, List.eraseIdx_zero, List.drop_tail]

/-! ## First in, first out -/

/-- What is still to come of a flood that follows a wave. -/
theorem Follows.pending_eq_nil_iff (h : Follows p m g times f w) : f.pending = [] ↔ w.due = [] := by
  rw [← List.length_eq_zero_iff, h.pending.length_eq, List.length_eq_zero_iff]

/-- The flood of a packet that has a frame follows the wave that starts at its origin. -/
theorem follows_run (links : Nat → List Nat) (hr : routers[o]? = some r)
    (hframed : (r.packetFor id timestamp m).Framed) (schedule : List (Instant × Nat))
    (hlistening : Listening (now :: schedule.map Prod.fst) id routers) :
    Follows (r.packetFor id timestamp m) m ⟨routers.length, links⟩ []
      (run links schedule (start links routers o now id timestamp m))
      ((Wave.start ⟨routers.length, links⟩ r.ttl.toNat o).run ⟨routers.length, links⟩ r.ttl.toNat
        (schedule.map Prod.snd)) :=
  (follows_start hr hlistening.informed hframed).run hframed schedule

theorem Follows.deliveredBy_near (h : Follows p m g times f w)
    (hw : Wave.Ordered g p.ttl.toNat o w) (hpending : f.pending = [])
    (hd : Distance g.Linked o d i) (hpos : 1 ≤ d) (hle : d ≤ p.ttl.toNat + 1) :
    f.deliveredBy i = heard m := by
  have hreached := hw.mem_reached (h.pending_eq_nil_iff.mp hpending) hd hle
  rw [h.deliveredBy_of_mem hw.nodup hreached, if_pos (Nat.ne_of_gt hpos)]

theorem Follows.deliveredBy_far (h : Follows p m g times f w) (hw : Wave.Ordered g p.ttl.toNat o w)
    (hfar : ∀ d, Distance g.Linked o d i → d = 0 ∨ p.ttl.toNat + 1 < d) :
    f.deliveredBy i = [] := by
  by_cases hi : i ∈ w.nodes
  · obtain ⟨d, hd⟩ := Wave.mem_nodes.mp hi
    obtain ⟨hdist, hle⟩ := hw.distance hd
    have hzero : d = 0 := (hfar d hdist).resolve_right (Nat.not_lt.mpr hle)
    rw [h.deliveredBy_of_mem hw.nodup hd, if_neg (not_not.mpr hzero)]
  · exact h.deliveredBy_of_not_mem hi

/-- **A breadth-first flood gets to everything within its budget and one hop, and ends.** If frames
are fed in the order of their transmission, then no feed is to come any more after as many as the
graph has links. By then each router at a distance of at least one and at most one more than the
budget has delivered the message, just once, if the packet has a frame. No other router delivers
anything at any time, and none transmits twice. -/
theorem breadth_first_reach (links : Nat → List Nat) (hr : routers[o]? = some r)
    (timestamp : UInt64) (m : Message) (hlistening : Listening (now :: times) id routers) :
    let linked := Layout.Linked ⟨routers.length, links⟩
    let f := run links (times.map (·, 0)) (start links routers o now id timestamp m)
    (∑ i ∈ Finset.range routers.length, (links i).length ≤ times.length → f.pending = []) ∧
    (f.pending = [] → ∀ i d, Distance linked o d i → 1 ≤ d → d ≤ r.ttl.toNat + 1 →
      f.deliveredBy i = if (r.packetFor id timestamp m).Framed then heard m else []) ∧
    (∀ i, (∀ d, Distance linked o d i → d = 0 ∨ r.ttl.toNat + 1 < d) → f.deliveredBy i = []) ∧
    ∀ i, (f.transmittedBy i).length ≤ 1 := by
  intro linked f
  have ho : o < routers.length := (List.getElem?_eq_some_iff.mp hr).1
  by_cases hframed : (r.packetFor id timestamp m).Framed
  · have htimes : (times.map (·, 0)).map Prod.fst = times := by simp [Function.comp_def]
    have hplaces : (times.map (·, 0)).map Prod.snd = List.replicate times.length 0 := by
      simp [Function.comp_def]
    have hfollows := follows_run links hr hframed (times.map (·, 0))
      (htimes.symm ▸ hlistening)
    rw [hplaces] at hfollows
    have hordered := (Wave.ordered_start ⟨routers.length, links⟩ r.ttl.toNat o).run times.length
    refine ⟨fun henough => ?_, fun hpending i d hd hpos hle => ?_,
      fun i hfar => hfollows.deliveredBy_far hordered hfar,
      fun i => hfollows.length_transmittedBy_le hordered.nodup i⟩
    · rw [hfollows.pending_eq_nil_iff]
      refine Wave.due_run (Nat.le_trans (Nat.le_of_eq ?_) henough)
      exact Wave.load_start ho
    · rw [if_pos hframed]
      exact hfollows.deliveredBy_near hordered hpending hd hpos hle
  · obtain ⟨hunread, hpending⟩ := unread_start links now hr hframed
    have hrun := hunread.run links (times.map (·, 0))
    refine ⟨fun henough => ?_, fun _ i d _ _ _ => ?_, fun i _ => hrun.delivered i,
      hrun.transmitted⟩
    · have hlinks : (links o).length ≤ ∑ i ∈ Finset.range routers.length, (links i).length :=
        Finset.single_le_sum (f := fun i => (links i).length) (fun _ _ => Nat.zero_le _)
          (Finset.mem_range.mpr ho)
      rw [hunread.pending_run, List.drop_eq_nil_iff]
      omega
    · rw [if_neg hframed]
      exact hrun.delivered i

/-- Three routers that hear each other, and a fourth one behind the third. -/
def kite : Nat → List Nat
  | 0 => [1, 2]
  | 1 => [0, 2]
  | 2 => [0, 1, 3]
  | _ => [2]

/-- The routers of the kite, with a budget. -/
def kiteRouters (ttl : UInt8) : List Router :=
  (fresh (["a", "b", "c", "d"].map fun name =>
    (name, { MeshConfig.standard with defaultTtl := ttl }))).routers

/-- The first one sends, and feeds take place in a given order, all at one time. -/
def kiteFlood (ttl : UInt8) (places : List Nat) : Flood :=
  run kite (places.map fun place => (0, place))
    (start kite (kiteRouters ttl) 0 0 (.numbered 0) 0 ⟨"a", .join⟩)

theorem listening_kite (ttl : UInt8) (count : Nat) :
    Listening (0 :: List.replicate count 0) (.numbered 0) (kiteRouters ttl) := by
  refine listening_fresh _ fun node hnode => ?_
  obtain ⟨name, -, rfl⟩ := List.mem_map.mp hnode
  have hwindow : 0 < MeshConfig.standard.seenWindow := by decide
  refine ⟨Nat.ne_of_gt hwindow, ?_⟩
  rw [← List.replicate_succ, List.pairwise_replicate]
  exact Or.inr ((Nat.zero_add _).symm ▸ hwindow)

theorem distance_kite : Distance (Layout.Linked ⟨4, kite⟩) 0 2 3 := by
  have hnear : Layout.Linked ⟨4, kite⟩ 0 2 := ⟨by decide, by decide⟩
  have hfar : Layout.Linked ⟨4, kite⟩ 2 3 := ⟨by decide, by decide⟩
  refine ⟨(Way.here.step hnear).step hfar, fun n hway => ?_⟩
  rcases hway with _ | ⟨hway, hlink⟩
  rcases hway with _ | ⟨-, -⟩
  · exact absurd hlink.1 (by decide)
  · omega

/-- With a budget of one hop the fourth router is just within reach. -/
theorem breadth_first_reach_kite :
    (kiteFlood 1 (List.replicate 8 0)).pending = [] ∧
      (kiteFlood 1 (List.replicate 8 0)).deliveredBy 3 = [⟨"a", .join⟩] := by
  have hr : (kiteRouters 1)[0]? =
      some (.start "a" { MeshConfig.standard with defaultTtl := 1 }) := rfl
  obtain ⟨hover, hnear, -, -⟩ := breadth_first_reach kite hr 0 ⟨"a", .join⟩ (listening_kite 1 8)
  have hpending := hover (by decide)
  exact ⟨hpending, hnear hpending 3 2 distance_kite (by decide) (by decide)⟩

/-- A chat with a text as long as the longest frame. -/
def longMessage : Message := ⟨"a", .chat (String.ofList (List.replicate Frame.maxLength 'a'))⟩

/-- No frame has room for the text and all that is written around it. -/
theorem not_framed_longMessage (r : Router) (id : PacketId) (timestamp : UInt64) :
    ¬ (r.packetFor id timestamp longMessage).Framed := by
  have hplain : ∀ c ∈ (String.ofList (List.replicate Frame.maxLength 'a')).toList,
      Json.escape c = [c] := by
    intro c hc
    rw [String.toList_ofList] at hc
    rw [List.eq_of_mem_replicate hc]
    rfl
  have hsize : Frame.maxLength ≤ Text.Utf8.size longMessage.toJson.toList := by
    have hone : 'a'.utf8Size = 1 := rfl
    have hle := Text.Utf8.size_le_of_sublist (Message.sublist_toJson_chat "a" hplain)
    rwa [String.toList_ofList, Text.Utf8.size_replicate, hone, Nat.mul_one] at hle
  have hpayload : ∀ m, (r.packetFor id timestamp m).payload = Text.Utf8.encode m.toJson :=
    fun _ => rfl
  have hlength := Text.Utf8.length_encode longMessage.toJson
  rw [Packet.Framed, Packet.length_encode, hpayload, hlength]
  omega

/-- A flood of it over the kite. -/
def longFlood : Flood :=
  run kite ((List.replicate 8 0).map (·, 0))
    (start kite (kiteRouters 1) 0 0 (.numbered 0) 0 longMessage)

/-- **A message that no frame has room for gets to nobody**, though it has a sender: a flood of it
ends, and not even the neighbours of its origin have delivered it. -/
theorem unframed_message_gets_nowhere :
    Listening (0 :: List.replicate 8 0) (.numbered 0) (kiteRouters 1) ∧
      longMessage.sender ≠ "" ∧ Distance (Layout.Linked ⟨4, kite⟩) 0 2 3 ∧
      longFlood.pending = [] ∧ ∀ i, longFlood.deliveredBy i = [] := by
  have hr : (kiteRouters 1)[0]? =
      some (.start "a" { MeshConfig.standard with defaultTtl := 1 }) := rfl
  obtain ⟨hunread, hpending⟩ := unread_start kite 0 hr (not_framed_longMessage _ (.numbered 0) 0)
  have hshort : (kite 0).length ≤ (List.replicate 8 (0 : Instant)).length := by decide
  refine ⟨listening_kite 1 8, by decide, distance_kite, ?_, (hunread.run kite _).delivered⟩
  rw [longFlood, hunread.pending_run, List.drop_eq_nil_iff]
  exact Nat.le_trans hpending hshort

/-! ## Any order -/

/-- Whoever delivers is within the budget and one hop, and not the origin. -/
theorem Follows.of_deliveredBy (h : Follows p m g times f w) (hw : Wave.Sound g p.ttl.toNat o w)
    (hi : f.deliveredBy i ≠ []) : i ≠ o ∧ ∃ n ≤ p.ttl.toNat + 1, Way g.Linked o n i := by
  constructor
  · rintro rfl
    rw [h.deliveredBy_of_mem hw.nodup hw.origin] at hi
    exact hi rfl
  · have hmem : i ∈ w.nodes := by
      by_contra hmem
      exact hi (h.deliveredBy_of_not_mem hmem)
    obtain ⟨d, hd⟩ := Wave.mem_nodes.mp hmem
    exact ⟨d, (hw.way hd).2, (hw.way hd).1⟩

theorem Follows.deliveredBy_certain (h : Follows p m g times f w)
    (hw : Wave.Sound g p.ttl.toNat o w) (hpending : f.pending = []) (hne : i ≠ o)
    (hcertain : Wave.Certain g p.ttl.toNat o i) : f.deliveredBy i = heard m := by
  have hmem := hw.reached_of_certain (h.pending_eq_nil_iff.mp hpending) hcertain
  obtain ⟨d, hd⟩ := Wave.mem_nodes.mp hmem
  rw [h.deliveredBy_of_mem hw.nodup hd, if_pos (hw.hops_pos hd hne)]

/-- What a flood gets to in whatever order: something within the budget and one hop, and when
nothing is to come any more, all that is certain. -/
theorem deliveredBy_run (links : Nat → List Nat) (hr : routers[o]? = some r) (timestamp : UInt64)
    (m : Message) {schedule : List (Instant × Nat)}
    (hlistening : Listening (now :: schedule.map Prod.fst) id routers) :
    let g : Layout := ⟨routers.length, links⟩
    let f := run links schedule (start links routers o now id timestamp m)
    (∀ i, f.deliveredBy i ≠ [] → i ≠ o ∧ ∃ n ≤ r.ttl.toNat + 1, Way g.Linked o n i) ∧
    (f.pending = [] → ∀ i, i ≠ o → Wave.Certain g r.ttl.toNat o i →
      f.deliveredBy i = if (r.packetFor id timestamp m).Framed then heard m else []) := by
  intro g f
  by_cases hframed : (r.packetFor id timestamp m).Framed
  · have hfollows := follows_run links hr hframed schedule hlistening
    have hsound := (Wave.sound_start g r.ttl.toNat o).run (schedule.map Prod.snd)
    rw [if_pos hframed]
    exact ⟨fun i hi => hfollows.of_deliveredBy hsound hi,
      fun hpending i hne hi => hfollows.deliveredBy_certain hsound hpending hne hi⟩
  · have hunread := (unread_start links now hr hframed).1.run links schedule
    rw [if_neg hframed]
    exact ⟨fun i hi => absurd (hunread.delivered i) hi, fun _ i _ _ => hunread.delivered i⟩

/-- **What the order of arrivals decides.** In whatever order frames are fed, whoever delivers is
within the budget and one hop and is not the origin. When nothing is to come any more, a router to
which some way leads over routers at which the budget cannot end has delivered the message, just
once, if the packet has a frame. So if the budget can end at no router within its own hops, the same
routers deliver in any two orders, and always so if the budget is as large as the number of the
other routers. -/
theorem reach_in_any_order (links : Nat → List Nat) (hr : routers[o]? = some r)
    (timestamp : UInt64) (m : Message) {now' : Instant} {first second : List (Instant × Nat)}
    (hfirst : Listening (now :: first.map Prod.fst) id routers)
    (hsecond : Listening (now' :: second.map Prod.fst) id routers)
    (hends : (run links first (start links routers o now id timestamp m)).pending = [])
    (hends' : (run links second (start links routers o now' id timestamp m)).pending = []) :
    let g : Layout := ⟨routers.length, links⟩
    let f := run links first (start links routers o now id timestamp m)
    let f' := run links second (start links routers o now' id timestamp m)
    (∀ i, f.deliveredBy i ≠ [] → i ≠ o ∧ ∃ n ≤ r.ttl.toNat + 1, Way g.Linked o n i) ∧
    (∀ i, i ≠ o → Wave.Certain g r.ttl.toNat o i →
      f.deliveredBy i = if (r.packetFor id timestamp m).Framed then heard m else []) ∧
    ((∀ a n, Way g.Linked o n a → n ≤ r.ttl.toNat → ¬ Wave.Ends g r.ttl.toNat o a) →
      ∀ i, f.deliveredBy i = f'.deliveredBy i) ∧
    (routers.length ≤ r.ttl.toNat + 1 → ∀ i, f.deliveredBy i = f'.deliveredBy i) := by
  intro g f f'
  obtain ⟨hwithin, hcertain⟩ := deliveredBy_run links hr timestamp m hfirst
  obtain ⟨hwithin', hcertain'⟩ := deliveredBy_run links hr timestamp m hsecond
  have hsame : (∀ a n, Way g.Linked o n a → n ≤ r.ttl.toNat → ¬ Wave.Ends g r.ttl.toNat o a) →
      ∀ i, f.deliveredBy i = f'.deliveredBy i := by
    intro hnever i
    by_cases hi : i ≠ o ∧ ∃ n ≤ r.ttl.toNat + 1, Way g.Linked o n i
    · obtain ⟨hne, n, hle, hway⟩ := hi
      have hsure := Wave.certain_of_way hnever hway hle
      exact (hcertain hends i hne hsure).trans (hcertain' hends' i hne hsure).symm
    · have hnone : f.deliveredBy i = [] := by
        by_contra h
        exact hi (hwithin i h)
      have hnone' : f'.deliveredBy i = [] := by
        by_contra h
        exact hi (hwithin' i h)
      rw [hnone, hnone']
  refine ⟨hwithin, hcertain hends, hsame, fun hsize => hsame fun a n _ _ => ?_⟩
  exact Wave.not_ends_of_size_le (List.getElem?_eq_some_iff.mp hr).1 hsize

/-- With a budget of three hops the kite is reached in any order, also if each frame is fed last
that was transmitted first. -/
theorem reach_in_any_order_kite :
    (kiteFlood 3 (List.replicate 8 0)).pending = [] ∧
      (kiteFlood 3 [1, 3, 3, 2, 3, 2, 1, 0]).pending = [] ∧
      ∀ i, (kiteFlood 3 (List.replicate 8 0)).deliveredBy i =
        (kiteFlood 3 [1, 3, 3, 2, 3, 2, 1, 0]).deliveredBy i := by
  have hfirst : (kiteFlood 3 (List.replicate 8 0)).pending = [] := by decide +kernel
  have hsecond : (kiteFlood 3 [1, 3, 3, 2, 3, 2, 1, 0]).pending = [] := by decide +kernel
  have hr : (kiteRouters 3)[0]? =
      some (.start "a" { MeshConfig.standard with defaultTtl := 3 }) := rfl
  obtain ⟨-, -, -, hsame⟩ := reach_in_any_order kite hr 0 ⟨"a", .join⟩ (listening_kite 3 8)
    (listening_kite 3 8) hfirst hsecond
  exact ⟨hfirst, hsecond, hsame (by decide)⟩

/-- **A longer way may come first.** With a budget of one hop, the third router may get the second
one's copy before the first one's. It has nothing left of its budget, and the copy that has is
dropped. So the fourth router, which is reached in the order of transmission, is not reached. -/
theorem reach_depends_on_order :
    Listening (0 :: List.replicate 8 0) (.numbered 0) (kiteRouters 1) ∧
    (kiteFlood 1 (List.replicate 8 0)).pending = [] ∧ (kiteFlood 1 [0, 2, 0, 0]).pending = [] ∧
      (kiteFlood 1 (List.replicate 8 0)).deliveredBy 3 = [⟨"a", .join⟩] ∧
      (kiteFlood 1 [0, 2, 0, 0]).deliveredBy 3 = [] :=
  ⟨listening_kite 1 8, by decide +kernel, by decide +kernel, by decide +kernel,
    by decide +kernel⟩

end PeerCall.Mesh.Flood
