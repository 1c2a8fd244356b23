import PeerCall.Proofs.Mesh.Waves

/-!
# A flood through a graph of routers

One application sends a message, and each frame that a router transmits is fed once to each router
that it is heard by. The feeds take place in any order. As long as no router forgets the packet
meanwhile, the flood follows a wave over the graph: a router that the packet is new to is reached,
and hands on and sends on what it holds; to any other router nothing happens.

That is so if the packet has a frame. Otherwise what the origin transmits, if anything, is not read
back by anyone.
-/
namespace PeerCall

namespace Packet

variable {p q : Packet}

/-- Whether a frame has room for a packet. -/
def Framed (p : Packet) : Prop := (Packet.format.encode p).length ≤ Frame.maxLength

instance (p : Packet) : Decidable p.Framed :=
  inferInstanceAs (Decidable ((Packet.format.encode p).length ≤ Frame.maxLength))

theorem Framed.toDatagram (h : p.Framed) :
    ∃ frame, p.toDatagram = .ok frame ∧ ofDatagram frame = .ok p := by
  have hframe := Frame.wrap_of_le h
  refine ⟨_, hframe, ofDatagram_toDatagram hframe ?_⟩
  have hsmall : Frame.lengthSize + Frame.maxLength < Bytes.bound Frame.lengthSize := by decide
  rw [List.length_append, Bytes.length_ofNatLE]
  exact Nat.lt_of_le_of_lt (Nat.add_le_add_left h _) hsmall

/-- Only a packet that a frame has room for is read back. -/
theorem framed_of_ofDatagram {frame : Bytes} (h : p.toDatagram = .ok frame)
    (hread : ofDatagram frame = .ok q) : p.Framed := (eq_of_ofDatagram h hread).2

theorem IsCopyOf.framed (h : q.IsCopyOf p) (hp : p.Framed) : q.Framed := by
  unfold Framed at hp ⊢
  rw [length_encode] at hp ⊢
  rwa [h.sender, h.target, h.payload]

end Packet

namespace Mesh

open Network Router

/-! ## Routers that do not forget -/

namespace Router

/-- A router whose window outlasts a list of readings. -/
structure Attends (times : List Instant) (r : Router) : Prop where
  sound : r.recent.Sound
  window : r.recent.window ≠ 0
  within : times.Pairwise fun t t' => t' < t + r.recent.window

/-- A router that has not handled a packet, or has forgotten it. -/
def IsNew (id : PacketId) (r : Router) : Prop := id ∉ r.recent.order.map Prod.fst

/-- A router that remembers a packet at all of the readings. -/
def Remembers (times : List Instant) (id : PacketId) (r : Router) : Prop :=
  ∃ t later, r.recent.Holds (id, t) later ∧ ∀ now ∈ times, now < t + r.recent.window

variable {r : Router} {now : Instant} {times : List Instant} {task : Task} {q : Packet}
  {id : PacketId}

theorem Attends.later (h : r.Attends (now :: times)) : r.Attends times :=
  ⟨h.sound, h.window, (List.pairwise_cons.mp h.within).2⟩

theorem Remembers.later (h : r.Remembers (now :: times) id) : r.Remembers times id := by
  obtain ⟨t, later, hold, hlt⟩ := h
  exact ⟨t, later, hold, fun now' hnow' => hlt now' (List.mem_cons_of_mem _ hnow')⟩

/-- To handle a packet does not change how long packets are remembered. -/
theorem Attends.insert (h : r.Attends (now :: times)) (id : PacketId) :
    Attends times { r with recent := (r.recent.insert id now).2 } := by
  have hwindow : (r.recent.insert id now).2.window = r.recent.window :=
    RecentIds.window_insert h.sound
  exact ⟨h.sound.insert, by rw [hwindow]; exact h.window, by rw [hwindow]; exact h.later.within⟩

/-- A packet that is new to a router is handled and remembered. -/
theorem perform_of_isNew (h : r.Attends (now :: times)) (hnew : r.IsNew q.id)
    (hq : task.packet? r = some q) :
    (r.perform now task).1 = task.response r.node q ∧ Attends times (r.perform now task).2 ∧
      Remembers times q.id (r.perform now task).2 := by
  have hinsert : (r.recent.insert q.id now).1 = true := by
    rw [RecentIds.insert_of_not_mem h.sound fun hmem => hnew (RecentIds.mem_of_mem_expire hmem)]
  rw [perform_packet hq, if_pos hinsert]
  refine ⟨rfl, h.insert q.id, now, [], RecentIds.holds_new h.sound hinsert, ?_⟩
  rw [RecentIds.window_insert h.sound]
  exact (List.pairwise_cons.mp h.within).1

/-- A packet that a router remembers leads to nothing and stays remembered. -/
theorem perform_of_remembers (h : r.Attends (now :: times))
    (hold : r.Remembers (now :: times) q.id) (hq : task.packet? r = some q) :
    (r.perform now task).1 = [] ∧ Attends times (r.perform now task).2 ∧
      Remembers times q.id (r.perform now task).2 := by
  obtain ⟨t, later, hold, hlt⟩ := hold
  have hfresh : RecentIds.stale r.recent.window now (q.id, t) = false :=
    RecentIds.stale_eq_false h.window (hlt now List.mem_cons_self)
  have hinsert := hold.insert_self h.sound hfresh
  rw [perform_packet hq, if_neg (by rw [hinsert]; exact Bool.false_ne_true)]
  refine ⟨rfl, h.insert q.id, t, later, hold.insert_refused h.sound hfresh hinsert, ?_⟩
  rw [RecentIds.window_insert h.sound]
  exact fun now' hnow' => hlt now' (List.mem_cons_of_mem _ hnow')

end Router

/-! ## Copies of a packet -/

variable {p q : Packet} {r : Router} {id : PacketId} {timestamp : UInt64} {m : Message} {d : Nat}

/-- A frame that holds a copy of a packet after so many hops. -/
def HoldsCopy (p : Packet) (d : Nat) (frame : Bytes) : Prop :=
  ∃ q, Packet.ofDatagram frame = .ok q ∧ q.IsCopyOf p ∧ q.hop.toNat = d

/-- What a router transmits that a packet reached after so many hops: one frame with a copy as long
as the budget lasts. -/
inductive PassesOn (p : Packet) (d : Nat) : List Bytes → Prop
  | sent {frame : Bytes} (hd : d ≤ p.ttl.toNat) (hframe : HoldsCopy p d frame) :
      PassesOn p d [frame]
  | spent (hd : p.ttl.toNat < d) : PassesOn p d []

/-- What a message leads to where it is received: one without a sender is not read back. -/
def heard (m : Message) : List Message := if m.sender.isEmpty then [] else [m]

theorem delivered_copy (node : String) (h : q.IsCopyOf (r.packetFor id timestamp m)) :
    delivered (handle q node) = heard m := by
  have hfor : isFor q node = true := by
    simp [isFor, h.kind, Packet.isBroadcast, h.target, packetFor, Packet.broadcast]
  have hpayload : q.payload = Text.Utf8.encode m.toJson := h.payload
  rw [delivered_handle, if_pos hfor, hpayload, payloadMessage?_encode, heard]
  cases m.sender.isEmpty <;> rfl

/-- The origin sends its packet as it is. -/
theorem passesOn_origin (hhop : p.hop = 0) (hp : p.Framed) :
    PassesOn p 0 (transmitted (transmit p)) := by
  obtain ⟨frame, hframe, hread⟩ := hp.toDatagram
  rw [transmitted_transmit hframe]
  exact .sent (Nat.zero_le _) ⟨p, hread, Packet.isCopyOf_self hhop, by rw [hhop]; rfl⟩

/-- Whoever receives a copy sends on the next one. -/
theorem passesOn_copy (node : String) (hp : p.Framed) (hq : q.IsCopyOf p)
    (hd : q.hop.toNat + 1 = d) : PassesOn p d (transmitted (handle q node)) := by
  have hbudget := hq.budget
  have hmax := p.ttl.toNat_lt
  rw [transmitted_handle]
  by_cases httl : q.ttl = 0
  · rw [Packet.relayed_eq_none httl]
    rw [httl] at hbudget
    have hzero : (0 : UInt8).toNat = 0 := rfl
    exact .spent (by omega)
  · obtain ⟨next, hnext, hunit, hhop, -⟩ := Packet.relayed_of_ttl httl (by omega)
    have hcopy := (hq.relayed hnext).1
    obtain ⟨frame, hframe, hread⟩ := (hcopy.framed hp).toDatagram
    rw [hnext, Option.toList_some, List.flatMap_singleton, transmitted_transmit hframe]
    exact .sent (by omega) ⟨next, hread, hcopy, hhop.trans hd⟩

/-! ## The flood -/

/-- A flood on its way. -/
structure Flood where
  network : Network
  /-- The feeds to come: the number of a frame, and the router that it gets to. -/
  pending : List (Nat × Nat)
  /-- What routers have done, each time one took a step. -/
  log : List (Nat × List RelayAction)

namespace Flood

section
variable (links : Nat → List Nat)

/-- A router takes a step; each frame that it transmits is to be fed to all that it is heard by. -/
def act (i : Nat) (now : Instant) (s : Network.Step) (f : Flood) : Flood :=
  let (actions, network) := f.network.step i now s
  let frames := List.range' f.network.frames.length (transmitted actions).length
  ⟨network, f.pending ++ frames.flatMap fun k => (links i).map fun b => (k, b),
    f.log ++ [(i, actions)]⟩

/-- One of the feeds to come takes place. -/
def feed (now : Instant) (place : Nat) (f : Flood) : Flood :=
  match f.pending[place]? with
  | none => f
  | some (k, i) => act links i now (.feed k) { f with pending := f.pending.eraseIdx place }

/-- The application of one of some routers sends a message. -/
def start (routers : List Router) (o : Nat) (now : Instant) (id : PacketId) (timestamp : UInt64)
    (m : Message) : Flood :=
  act links o now (.originate id timestamp m) ⟨⟨routers, []⟩, [], []⟩

/-- Feeds take place one after another, each at a reading of the clock. -/
def run (schedule : List (Instant × Nat)) (f : Flood) : Flood :=
  schedule.foldl (fun f s => feed links s.1 s.2 f) f

end

/-- What a router has handed to its application. -/
def deliveredBy (i : Nat) (f : Flood) : List Message :=
  f.log.flatMap fun e => if e.1 = i then delivered e.2 else []

/-- The frames that a router has transmitted. -/
def transmittedBy (i : Nat) (f : Flood) : List Bytes :=
  f.log.flatMap fun e => if e.1 = i then transmitted e.2 else []

variable {links : Nat → List Nat} {f : Flood} {w : Wave} {g : Layout} {times : List Instant}
  {now : Instant} {s : Network.Step} {i o k place : Nat}

theorem act_of_none (hr : f.network.routers[i]? = none) :
    act links i now s f = { f with log := f.log ++ [(i, [])] } := by
  simp [act, step_of_none hr, transmitted]

theorem act_eq (hr : f.network.routers[i]? = some r) :
    act links i now s f =
      ⟨⟨f.network.routers.set i (r.perform now (s.task f.network.frames)).2,
          f.network.frames ++ transmitted (r.perform now (s.task f.network.frames)).1⟩,
        f.pending ++ (List.range' f.network.frames.length
            (transmitted (r.perform now (s.task f.network.frames)).1).length).flatMap
          (fun k => (links i).map fun b => (k, b)),
        f.log ++ [(i, (r.perform now (s.task f.network.frames)).1)]⟩ := by
  simp only [act, step_eq hr]

/-- A step about which nothing is done leaves only its place in the log. -/
theorem act_of_idle (links : Nat → List Nat) (h : (f.network.step i now s).1 = []) :
    ∃ routers, act links i now s f =
      ⟨⟨routers, f.network.frames⟩, f.pending, f.log ++ [(i, [])]⟩ := by
  cases hr : f.network.routers[i]? with
  | none => exact ⟨_, act_of_none hr⟩
  | some r =>
      rw [step_eq hr] at h
      refine ⟨f.network.routers.set i (r.perform now (s.task f.network.frames)).2, ?_⟩
      rw [act_eq hr, h]
      simp [Network.transmitted]

section
variable (network : Network) (pending : List (Nat × Nat)) (log : List (Nat × List RelayAction))
  (j : Nat) (actions : List RelayAction)

theorem deliveredBy_append :
    deliveredBy i ⟨network, pending, log ++ [(j, actions)]⟩ =
      deliveredBy i ⟨network, pending, log⟩ ++ if j = i then Router.delivered actions else [] := by
  simp [deliveredBy]

theorem transmittedBy_append :
    transmittedBy i ⟨network, pending, log ++ [(j, actions)]⟩ =
      transmittedBy i ⟨network, pending, log⟩ ++
        if j = i then Network.transmitted actions else [] := by
  simp [transmittedBy]

theorem deliveredBy_idle :
    deliveredBy i ⟨network, pending, f.log ++ [(j, [])]⟩ = f.deliveredBy i := by
  simp [deliveredBy, Router.delivered]

theorem transmittedBy_idle :
    transmittedBy i ⟨network, pending, f.log ++ [(j, [])]⟩ = f.transmittedBy i := by
  simp [transmittedBy, Network.transmitted]

end

/-! ## A flood follows a wave -/

/-- Routers that all outlast the readings to come; those of some numbers remember a packet, and to
the others it is new. -/
structure Informed (times : List Instant) (id : PacketId) (nodes : List Nat)
    (routers : List Router) : Prop where
  attends : ∀ r ∈ routers, Router.Attends times r
  isNew : ∀ i r, routers[i]? = some r → i ∉ nodes → Router.IsNew id r
  remembers : ∀ i r, routers[i]? = some r → i ∈ nodes → Router.Remembers times id r

variable {routers : List Router} {nodes nodes' : List Nat}

theorem Informed.later (h : Informed (now :: times) id nodes routers) :
    Informed times id nodes routers where
  attends r hr := (h.attends r hr).later
  isNew := h.isNew
  remembers i r hr hi := (h.remembers i r hr hi).later

/-- After a router has dealt with the packet it is one of those that remember it. -/
theorem Informed.set (h : Informed (now :: times) id nodes routers) (hattends : r.Attends times)
    (hremembers : r.Remembers times id) (hnodes : ∀ j, j ∈ nodes' ↔ j ∈ nodes ∨ j = i) :
    Informed times id nodes' (routers.set i r) where
  attends r' hr' := by
    rcases List.mem_or_eq_of_mem_set hr' with hr' | rfl
    · exact (h.attends r' hr').later
    · exact hattends
  isNew j r' hr' hj := by
    rw [hnodes, not_or] at hj
    rw [List.getElem?_set_ne (Ne.symm hj.2)] at hr'
    exact h.isNew j r' hr' hj.1
  remembers j r' hr' hj := by
    by_cases hij : i = j
    · subst hij
      obtain ⟨hlt, hset⟩ := List.getElem?_eq_some_iff.mp hr'
      rw [List.getElem_set_self] at hset
      exact hset ▸ hremembers
    · rw [List.getElem?_set_ne hij] at hr'
      exact (h.remembers j r' hr' (((hnodes j).mp hj).resolve_right (Ne.symm hij))).later

/-- A feed to come, and the arrival that it stands for: it brings a copy after as many hops to the
same router. -/
def Brings (p : Packet) (frames : List Bytes) (x y : Nat × Nat) : Prop :=
  x.2 = y.2 ∧ ∃ frame, frames[x.1]? = some frame ∧ HoldsCopy p y.1 frame

theorem Brings.append {frames : List Bytes} {x y : Nat × Nat} (h : Brings p frames x y)
    (more : List Bytes) : Brings p (frames ++ more) x y := by
  obtain ⟨hto, frame, hframe, hcopy⟩ := h
  refine ⟨hto, frame, ?_, hcopy⟩
  rw [List.getElem?_append_left (List.getElem?_eq_some_iff.mp hframe).1, hframe]

/-- A flood of a packet does what a wave does, while it may take so many more readings: each router
that is reached remembers the packet, and has delivered and transmitted what it should. -/
structure Follows (p : Packet) (m : Message) (g : Layout) (times : List Instant) (f : Flood)
    (w : Wave) : Prop where
  size : f.network.routers.length = g.size
  informed : Informed times p.id w.nodes f.network.routers
  pending : List.Forall₂ (Brings p f.network.frames) f.pending w.due
  delivered : ∀ i, f.deliveredBy i =
    w.reached.flatMap fun x => if x.1 = i ∧ x.2 ≠ 0 then heard m else []
  transmitted : ∀ i, (f.transmittedBy i).length =
    w.reached.countP fun x => x.1 = i ∧ x.2 ≤ p.ttl.toNat

theorem Follows.later (h : Follows p m g (now :: times) f w) : Follows p m g times f w where
  size := h.size
  informed := h.informed.later
  pending := h.pending
  delivered := h.delivered
  transmitted := h.transmitted

/-- A feed that takes place is no longer to come, nor is its arrival. -/
theorem Follows.eraseIdx (h : Follows p m g times f w) (place : Nat) :
    Follows p m g times { f with pending := f.pending.eraseIdx place }
      { w with due := w.due.eraseIdx place } where
  size := h.size
  informed := h.informed
  pending := forall₂_eraseIdx h.pending place
  delivered := h.delivered
  transmitted := h.transmitted

/-- A router that does not exist does nothing. -/
theorem Follows.absent (h : Follows p m g (now :: times) f w)
    (hr : f.network.routers[i]? = none) : Follows p m g times (act links i now s f) w := by
  rw [act_of_none hr]
  refine ⟨h.size, h.informed.later, h.pending, fun j => ?_, fun j => ?_⟩
  · rw [deliveredBy_idle, h.delivered]
  · rw [transmittedBy_idle, h.transmitted]

/-- A router that remembers the packet does nothing about it. -/
theorem Follows.ignored (h : Follows p m g (now :: times) f w)
    (hr : f.network.routers[i]? = some r) (hi : i ∈ w.nodes)
    (hq : (s.task f.network.frames).packet? r = some q) (hid : q.id = p.id) :
    Follows p m g times (act links i now s f) w := by
  obtain ⟨hnone, hattends, hremembers⟩ :=
    perform_of_remembers (h.informed.attends r (List.mem_of_getElem? hr))
      (hid ▸ h.informed.remembers i r hr hi) hq
  have hnodes : ∀ j, j ∈ w.nodes ↔ j ∈ w.nodes ∨ j = i :=
    fun j => ⟨Or.inl, fun hj => hj.elim (fun hj => hj) fun hj => hj ▸ hi⟩
  rw [act_eq hr, hnone]
  refine ⟨?_, h.informed.set hattends (hid ▸ hremembers) hnodes, ?_, fun j => ?_, fun j => ?_⟩
  · rw [List.length_set]
    exact h.size
  · simpa [Network.transmitted] using h.pending
  · rw [deliveredBy_idle, h.delivered]
  · rw [transmittedBy_idle, h.transmitted]

/-- A router that the packet is new to is reached. -/
theorem Follows.reached (h : Follows p m g (now :: times) f w)
    (hr : f.network.routers[i]? = some r) (hi : i ∉ w.nodes)
    (hq : (s.task f.network.frames).packet? r = some q) (hid : q.id = p.id)
    (hdelivered : Router.delivered ((s.task f.network.frames).response r.node q) =
      if d ≠ 0 then heard m else [])
    (hpasses : PassesOn p d
      (Network.transmitted ((s.task f.network.frames).response r.node q))) :
    Follows p m g times (act g.links i now s f)
      ⟨w.reached ++ [(i, d)], w.due ++ Wave.onward g p.ttl.toNat i d⟩ := by
  obtain ⟨hactions, hattends, hremembers⟩ :=
    perform_of_isNew (h.informed.attends r (List.mem_of_getElem? hr))
      (hid ▸ h.informed.isNew i r hr hi) hq
  have hnodes : ∀ j, j ∈ Wave.nodes ⟨w.reached ++ [(i, d)],
      w.due ++ Wave.onward g p.ttl.toNat i d⟩ ↔ j ∈ w.nodes ∨ j = i := by
    simp
  rw [act_eq hr, hactions]
  generalize (s.task f.network.frames).response r.node q = actions at hdelivered hpasses
  refine ⟨?_, h.informed.set hattends (hid ▸ hremembers) hnodes, ?_, fun j => ?_, fun j => ?_⟩
  · rw [List.length_set]
    exact h.size
  · refine List.rel_append (h.pending.imp fun _ _ hbrings => hbrings.append _) ?_
    generalize Network.transmitted actions = frames at hpasses
    cases hpasses with
    | spent hd => simp [Wave.onward, Nat.not_le.mpr hd]
    | @sent frame hd hcopy =>
        have hlast : (f.network.frames ++ [frame])[f.network.frames.length]? = some frame := by
          simp
        rw [Wave.onward, if_pos hd, List.length_singleton, List.range'_one, List.flatMap_singleton]
        rw [List.forall₂_map_left_iff, List.forall₂_map_right_iff, List.forall₂_same]
        exact fun b _ => ⟨rfl, frame, hlast, hcopy⟩
  · have hlog := h.delivered j
    rw [deliveredBy_append, List.flatMap_append, ← hlog, hdelivered]
    by_cases hj : i = j <;> simp [hj, deliveredBy]
  · have hlog := h.transmitted j
    rw [transmittedBy_append, List.countP_append, ← hlog, List.length_append]
    generalize Network.transmitted actions = frames at hpasses
    cases hpasses with
    | sent hd hcopy => by_cases hj : i = j <;> simp [hj, hd, transmittedBy]
    | spent hd => by_cases hj : i = j <;> simp [hj, Nat.not_le.mpr hd, transmittedBy]

/-- **A feed is an arrival.** -/
theorem Follows.feed (h : Follows (r.packetFor id timestamp m) m g (now :: times) f w)
    (hframed : (r.packetFor id timestamp m).Framed) (place : Nat) :
    Follows (r.packetFor id timestamp m) m g times (feed g.links now place f)
      (w.step g r.ttl.toNat place) := by
  rcases forall₂_getElem? h.pending place with
    ⟨hnone, hdue⟩ | ⟨⟨k, i⟩, ⟨d, _⟩, hsome, hdue, rfl, frame, hframe, q, hread, hcopy, hhop⟩
  · simp only [Flood.feed, hnone, Wave.step, hdue]
    exact h.later
  · have hq : ∀ r', (Step.task f.network.frames (.feed k)).packet? r' = some q := by
      simp [Step.task, Task.packet?, hframe, hread, Except.toOption]
    have hrest := h.eraseIdx place
    simp only [Flood.feed, hsome, Wave.step, hdue]
    cases hr : f.network.routers[i]? with
    | none =>
        have hsize : g.size ≤ i := h.size ▸ List.getElem?_eq_none_iff.mp hr
        rw [if_pos (Or.inr hsize)]
        exact hrest.absent hr
    | some r' =>
        have hlt : i < g.size := h.size ▸ (List.getElem?_eq_some_iff.mp hr).1
        by_cases hi : i ∈ w.nodes
        · rw [if_pos (Or.inl hi)]
          exact hrest.ignored hr hi (hq r') hcopy.id
        · rw [if_neg (by simp [hi, hlt])]
          exact hrest.reached hr hi (hq r') hcopy.id (delivered_copy r'.node hcopy)
            (passesOn_copy r'.node hframed hcopy (congrArg (· + 1) hhop))

/-- A flood does what a wave does, all along. -/
theorem Follows.run (hframed : (r.packetFor id timestamp m).Framed)
    (schedule : List (Instant × Nat))
    (h : Follows (r.packetFor id timestamp m) m g (schedule.map Prod.fst) f w) :
    Follows (r.packetFor id timestamp m) m g [] (run g.links schedule f)
      (w.run g r.ttl.toNat (schedule.map Prod.snd)) := by
  induction schedule generalizing f w with
  | nil => exact h
  | cons s schedule ih => exact ih (h.feed hframed s.2)

/-- **A flood starts as a wave does.** -/
theorem follows_start (hr : routers[o]? = some r)
    (hinformed : Informed (now :: times) id [] routers)
    (hframed : (r.packetFor id timestamp m).Framed) :
    Follows (r.packetFor id timestamp m) m ⟨routers.length, links⟩ times
      (start links routers o now id timestamp m)
      (.start ⟨routers.length, links⟩ r.ttl.toNat o) := by
  have hempty : Follows (r.packetFor id timestamp m) m ⟨routers.length, links⟩ (now :: times)
      ⟨⟨routers, []⟩, [], []⟩ ⟨[], []⟩ :=
    ⟨rfl, hinformed, .nil, fun _ => rfl, fun _ => rfl⟩
  have hpasses := passesOn_origin (p := r.packetFor id timestamp m) rfl hframed
  exact hempty.reached hr List.not_mem_nil rfl rfl (delivered_transmit _) hpasses

end Flood

end Mesh

end PeerCall
