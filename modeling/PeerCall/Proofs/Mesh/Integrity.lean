import PeerCall.Proofs.Binary.Packets
import PeerCall.Proofs.Json.Messages
import PeerCall.Proofs.Mesh.Runs

/-!
# What a flood carries, and how far

Applications send messages and frames are fed to routers, any frame to any router, as often as
wanted and in any order. Every frame is a copy of a packet that an application sent: all that has
changed is that units of the budget have become hops. So what is delivered is what was sent, and
each hop of a copy is one feed on the way from the origin.

A frame whose content needs 4 GiB or more announces a wrong length. Nothing is said here of what
such a frame decodes to.
-/
namespace PeerCall

namespace Packet

variable {p q next : Packet}

/-- A copy of a packet as its originator made it: units of the budget may have become hops. -/
structure IsCopyOf (q p : Packet) : Prop where
  id : q.id = p.id
  sender : q.sender = p.sender
  target : q.target = p.target
  kind : q.kind = p.kind
  payload : q.payload = p.payload
  timestamp : q.timestamp = p.timestamp
  budget : q.hop.toNat + q.ttl.toNat = p.ttl.toNat

theorem isCopyOf_self (hp : p.hop = 0) : p.IsCopyOf p :=
  ⟨rfl, rfl, rfl, rfl, rfl, rfl, by simp [hp]⟩

theorem relayed_eq_none (h : p.ttl = 0) : p.relayed = none := by
  rw [relayed, if_pos h]

/-- One unit of the budget becomes a hop. It never stops at 255, since the budget is not larger. -/
theorem relayed_of_ttl (h : q.ttl ≠ 0) (hbudget : q.hop.toNat + q.ttl.toNat ≤ 255) :
    ∃ next, q.relayed = some next ∧ next.ttl.toNat + 1 = q.ttl.toNat ∧
      next.hop.toNat = q.hop.toNat + 1 ∧ next = { q with ttl := next.ttl, hop := next.hop } := by
  have hpos : q.ttl.toNat ≠ 0 := fun h0 => h (UInt8.toNat_inj.1 (by simpa using h0))
  have hhop : q.hop ≠ 255 := by
    intro h255
    rw [h255] at hbudget
    have hmax : (255 : UInt8).toNat = 255 := rfl
    omega
  have hsome : q.relayed = some { q with ttl := q.ttl - 1, hop := q.hop + 1 } := by
    rw [relayed, if_neg h, if_neg hhop]
  refine ⟨_, hsome, ttl_of_relayed hsome, ?_, rfl⟩
  simp only [UInt8.toNat_add, UInt8.toNat_one]
  omega

theorem IsCopyOf.relayed (h : q.IsCopyOf p) (hnext : q.relayed = some next) :
    next.IsCopyOf p ∧ next.hop.toNat = q.hop.toNat + 1 := by
  have httl : q.ttl ≠ 0 := by
    intro h0
    rw [relayed_eq_none h0] at hnext
    cases hnext
  have hle : q.hop.toNat + q.ttl.toNat ≤ 255 := by
    rw [h.budget]
    exact Nat.le_of_lt_succ p.ttl.toNat_lt
  obtain ⟨next', hsome, hunit, hhop, heq⟩ := relayed_of_ttl httl hle
  rw [hnext, Option.some.injEq] at hsome
  subst hsome
  have hbudget := h.budget
  rw [heq]
  exact ⟨⟨h.id, h.sender, h.target, h.kind, h.payload, h.timestamp, by dsimp only; omega⟩, hhop⟩

end Packet

namespace Mesh

open Network Router

/-! ## What a router hands on and sends on -/

variable {p q : Packet} {frame : Bytes} {m : Message}

theorem transmitted_transmit (h : p.toDatagram = .ok frame) :
    transmitted (transmit p) = [frame] := by
  simp only [transmit, h]
  rfl

theorem toDatagram_of_mem (h : frame ∈ transmitted (transmit p)) : p.toDatagram = .ok frame := by
  cases hp : p.toDatagram with
  | error e => simp [transmit, hp, transmitted] at h
  | ok frame' =>
      rw [transmitted_transmit hp, List.mem_singleton] at h
      rw [h]

theorem transmitted_handle (q : Packet) (node : String) :
    transmitted (handle q node) =
      q.relayed.toList.flatMap fun next => transmitted (transmit next) := by
  have hmessage : transmitted
      (if isFor q node then (payloadMessage? q.payload).toList.map .deliver else []) = [] := by
    cases payloadMessage? q.payload <;> split <;> rfl
  rw [handle, transmitted_append, hmessage, List.nil_append]
  cases q.relayed <;> simp [transmitted]

theorem delivered_handle (q : Packet) (node : String) :
    delivered (handle q node) =
      if isFor q node then (payloadMessage? q.payload).toList else [] := by
  have hmessage : delivered
      (if isFor q node then (payloadMessage? q.payload).toList.map .deliver else []) =
        if isFor q node then (payloadMessage? q.payload).toList else [] := by
    cases payloadMessage? q.payload <;> split <;> rfl
  rw [handle, delivered_append, hmessage]
  cases q.relayed with
  | none => exact List.append_nil _
  | some next => rw [delivered_transmit, List.append_nil]

/-- The payload around a message gives the message back, unless it has no sender. -/
theorem payloadMessage?_encode (m : Message) :
    payloadMessage? (Text.Utf8.encode m.toJson) = if m.sender.isEmpty then none else some m := by
  have htext : (Text.Utf8.decode (Text.Utf8.encode m.toJson)).toOption = some m.toJson := by
    rw [Text.Utf8.decode_encode]
    rfl
  rw [payloadMessage?, htext, Option.bind_eq_bind, Option.bind_some, Message.ofJson_toJson]
  cases m.sender.isEmpty <;> rfl

namespace Network

/-- Whether a step is part of a flood: an application sends, or a transmitted frame is fed. -/
def Step.isFlood : Step → Bool
  | .originate .. | .feed _ => true
  | .broadcast _ | .bytes _ | .sweep => false

/-- The id of the message that a step sends. -/
def Step.sentId? : Step → Option PacketId
  | .originate id .. => some id
  | _ => none

/-- Routers that have handled nothing, by their names and settings, and no frame yet. -/
def fresh (nodes : List (String × MeshConfig)) : Network :=
  ⟨nodes.map fun (node, config) => .start node config, []⟩

section
variable (start : Network) (run : List Event)

/-- Nothing happens but that applications send messages and transmitted frames are fed. -/
def IsFlood : Prop := ∀ e ∈ run, e.step.isFlood = true

/-- No id is used by two steps that send. -/
def FreshIds : Prop :=
  run.Pairwise fun e e' => e.step.sentId? = none ∨ e.step.sentId? ≠ e'.step.sentId?

instance : Decidable (IsFlood run) :=
  inferInstanceAs (Decidable (∀ e ∈ run, e.step.isFlood = true))

instance : Decidable (FreshIds run) :=
  inferInstanceAs (Decidable (run.Pairwise fun e e' =>
    e.step.sentId? = none ∨ e.step.sentId? ≠ e'.step.sentId?))

/-- A step sends a message of a router's application, and this is the packet around it. -/
def OriginatesAt (i o : Nat) (m : Message) (p : Packet) : Prop :=
  ∃ now r, run[i]? = some ⟨o, now, .originate p.id p.timestamp m⟩ ∧ start.routers[o]? = some r ∧
    p = r.packetFor p.id p.timestamp m

/-- A step feeds a frame to a router, and this is the packet in it. -/
def FeedsAt (j k i : Nat) (q : Packet) : Prop :=
  ∃ now frame, run[j]? = some ⟨i, now, .feed k⟩ ∧ (stateAt start run j).frames[k]? = some frame ∧
    Packet.ofDatagram frame = .ok q

/-- The router of a step does not remember an id when the step takes place. -/
def AcceptsAt (j : Nat) (id : PacketId) : Prop :=
  ∃ e r, run[j]? = some e ∧ (stateAt start run j).routers[e.router]? = some r ∧
    (r.recent.insert id e.now).1 = true

/-- One router transmitted a frame with a packet of an id, and it was fed to another router. -/
def Feeds (id : PacketId) (a b : Nat) : Prop :=
  ∃ i e j k q, run[i]? = some e ∧ e.router = a ∧ TransmitsAt start run i k ∧
    FeedsAt start run j k b q ∧ q.id = id

end

/-- There is a way of so many steps from one place to another. -/
inductive Way (edge : Nat → Nat → Prop) (a : Nat) : Nat → Nat → Prop
  | here : Way edge a 0 a
  | step {n b c : Nat} : Way edge a n b → edge b c → Way edge a (n + 1) c

section
variable (start : Network) (run : List Event)

/-- What is known of a frame: it holds a copy of a packet that was sent, and there is a way along
the feeds, one for each hop of the copy, from the origin to the router that transmitted it. -/
def Sound (k : Nat) (frame : Bytes) : Prop :=
  ∃ (i o : Nat) (m : Message) (p : Packet) (j : Nat) (e : Event) (q : Packet),
    OriginatesAt start run i o m p ∧ run[j]? = some e ∧ TransmitsAt start run j k ∧ q.IsCopyOf p ∧
    q.toDatagram = .ok frame ∧ Way (Feeds start run p.id) o q.hop.toNat e.router

end

variable {start : Network} {run : List Event} {e : Event} {r : Router} {i j k o : Nat}
  {now : Instant} {id : PacketId}

/-! ## What a step does -/

theorem hop_of_originatesAt (h : OriginatesAt start run i o m p) : p.hop = 0 := by
  obtain ⟨now, r, -, -, hp⟩ := h
  rw [hp]
  rfl

theorem payload_of_originatesAt (h : OriginatesAt start run i o m p) :
    p.payload = Text.Utf8.encode m.toJson := by
  obtain ⟨now, r, -, -, hp⟩ := h
  rw [hp]
  rfl

theorem step_of_isFlood {s : Step} (h : s.isFlood = true) :
    (∃ id t m, s = .originate id t m) ∨ ∃ k, s = .feed k := by
  cases s with
  | originate id t m => exact Or.inl ⟨id, t, m, rfl⟩
  | feed k => exact Or.inr ⟨k, rfl⟩
  | broadcast p => cases h
  | bytes datagram => cases h
  | sweep => cases h

/-- With fresh ids, a step is known by the id that it sends. -/
theorem FreshIds.eq {e' : Event} (hfresh : FreshIds run) (hi : run[i]? = some e)
    (hj : run[j]? = some e') (hid : e.step.sentId? = some id) (hid' : e'.step.sentId? = some id) :
    i = j := by
  obtain ⟨hilt, rfl⟩ := List.getElem?_eq_some_iff.mp hi
  obtain ⟨hjlt, rfl⟩ := List.getElem?_eq_some_iff.mp hj
  have hpairs := List.pairwise_iff_getElem.mp hfresh
  rcases Nat.lt_trichotomy i j with hlt | heq | hlt
  · have h := hpairs i j hilt hjlt hlt
    simp [hid, hid'] at h
  · exact heq
  · have h := hpairs j i hjlt hilt hlt
    simp [hid, hid'] at h

/-- With fresh ids, an id tells the step, the origin, the message and the packet. -/
theorem OriginatesAt.unique {i' o' : Nat} {m' : Message} {p' : Packet} (hfresh : FreshIds run)
    (h : OriginatesAt start run i o m p) (h' : OriginatesAt start run i' o' m' p')
    (hid : p.id = p'.id) : o = o' ∧ m = m' ∧ p = p' := by
  obtain ⟨now, r, hi, hr, hp⟩ := h
  obtain ⟨now', r', hi', hr', hp'⟩ := h'
  have hsame : i = i' := hfresh.eq hi hi' rfl (by rw [hid]; rfl)
  subst hsame
  rw [hi, Option.some.injEq, Event.mk.injEq] at hi'
  obtain ⟨rfl, -, hstep⟩ := hi'
  injection hstep with _ htime hmessage
  rw [hr, Option.some.injEq] at hr'
  refine ⟨rfl, hmessage, ?_⟩
  rw [hp, hp', hid, htime, hmessage, hr']

/-- A step that sends transmits the packet, if anything. -/
theorem of_mem_originate {t : UInt64} (hj : run[j]? = some ⟨i, now, .originate id t m⟩)
    (hr : (stateAt start run j).routers[i]? = some r)
    (hframe : frame ∈ transmitted (actionsAt start run j)) :
    ∃ p, OriginatesAt start run j i m p ∧ p.toDatagram = .ok frame := by
  obtain ⟨s, hs, hnode, httl⟩ := router_frame hr
  have hsame : r.packetFor id t m = s.packetFor id t m := by
    rw [packetFor, packetFor, hnode, httl]
  refine ⟨s.packetFor id t m, ⟨now, s, hj, hs, rfl⟩, ?_⟩
  have hacts := actionsAt_eq hj hr
  rw [Step.task, perform_packet rfl] at hacts
  rw [hacts] at hframe
  dsimp only at hframe
  split at hframe
  · rw [← hsame]
    exact toDatagram_of_mem hframe
  · cases hframe

/-- The packet of a frame that is fed is what its router is about. -/
theorem packet?_of_feedsAt (h : FeedsAt start run j k i q) :
    ∃ e, run[j]? = some e ∧ e.router = i ∧
      ∀ r, (e.step.task (stateAt start run j).frames).packet? r = some q := by
  obtain ⟨now, frame, hj, hframe, hq⟩ := h
  refine ⟨_, hj, rfl, ?_⟩
  intro r
  simp [Step.task, Task.packet?, hframe, hq, Except.toOption]

/-- A packet that is accepted is handled. -/
theorem actionsAt_of_accepts (h : FeedsAt start run j k i q)
    (haccepts : AcceptsAt start run j q.id) :
    ∃ node, actionsAt start run j = handle q node := by
  obtain ⟨e, hj, -, hpacket⟩ := packet?_of_feedsAt h
  obtain ⟨now, frame, hj', -, -⟩ := h
  obtain ⟨e', r, hj'', hr, hnew⟩ := haccepts
  rw [hj', Option.some.injEq] at hj hj''
  subst hj hj''
  refine ⟨r.node, ?_⟩
  rw [actionsAt_eq hj' hr, perform_packet (hpacket r), if_pos hnew]
  rfl

/-- A packet that is remembered leads to nothing, and so does one for no router. -/
theorem actionsAt_of_not_accepts (h : FeedsAt start run j k i q)
    (hrefuses : ¬ AcceptsAt start run j q.id) : actionsAt start run j = [] := by
  obtain ⟨e, hj, -, hpacket⟩ := packet?_of_feedsAt h
  cases hr : (stateAt start run j).routers[e.router]? with
  | none => exact actionsAt_of_none hj hr
  | some r =>
      have hold : ¬ (r.recent.insert q.id e.now).1 = true :=
        fun hnew => hrefuses ⟨e, r, hj, hr, hnew⟩
      rw [actionsAt_eq hj hr, perform_packet (hpacket r), if_neg hold]

/-- A step that feeds and does something feeds a packet that is accepted. -/
theorem feedsAt_of_actionsAt (hj : run[j]? = some ⟨i, now, .feed k⟩)
    (hacts : actionsAt start run j ≠ []) :
    ∃ q, FeedsAt start run j k i q ∧ AcceptsAt start run j q.id := by
  cases hframe : (stateAt start run j).frames[k]? with
  | none =>
      exfalso
      apply hacts
      cases hr : (stateAt start run j).routers[i]? with
      | none => exact actionsAt_of_none hj hr
      | some r =>
          have hnone : (Step.task (stateAt start run j).frames (.feed k)).packet? r = none := by
            simp only [Step.task, hframe]
            rfl
          rw [actionsAt_eq hj hr]
          exact (perform_none hnone now).1
  | some frame =>
      cases hq : Packet.ofDatagram frame with
      | error fault =>
          exfalso
          apply hacts
          cases hr : (stateAt start run j).routers[i]? with
          | none => exact actionsAt_of_none hj hr
          | some r =>
              have hnone : (Step.task (stateAt start run j).frames (.feed k)).packet? r = none := by
                simp [Step.task, Task.packet?, hframe, hq, Except.toOption]
              rw [actionsAt_eq hj hr]
              exact (perform_none hnone now).1
      | ok q =>
          have hfeeds : FeedsAt start run j k i q := ⟨now, frame, hj, hframe, hq⟩
          refine ⟨q, hfeeds, ?_⟩
          by_contra hrefuses
          exact hacts (actionsAt_of_not_accepts hfeeds hrefuses)

/-! ## Every frame is sound -/

/-- The packet in a sound frame is the copy that the frame was made of. -/
theorem Sound.read (h : Sound start run k frame) (hq : Packet.ofDatagram frame = .ok q) :
    ∃ (i o : Nat) (m : Message) (p : Packet) (j : Nat) (e : Event),
      OriginatesAt start run i o m p ∧ run[j]? = some e ∧ TransmitsAt start run j k ∧
      q.IsCopyOf p ∧ (Packet.format.encode q).length ≤ Frame.maxLength ∧
      Way (Feeds start run p.id) o q.hop.toNat e.router := by
  obtain ⟨i, o, m, p, j, e, q', hp, hj, hk, hcopy, hframe, hway⟩ := h
  obtain ⟨rfl, hle⟩ := Packet.eq_of_ofDatagram hframe hq
  exact ⟨i, o, m, p, j, e, hp, hj, hk, hcopy, hle, hway⟩

/-- What is fed goes one step further than it had come. -/
theorem way_of_feedsAt (hj : FeedsAt start run j k i q) {n : Nat} {e : Event} {j' : Nat}
    (hj' : run[j']? = some e) (hk : TransmitsAt start run j' k)
    (hway : Way (Feeds start run q.id) o n e.router) : Way (Feeds start run q.id) o (n + 1) i :=
  hway.step ⟨j', e, j, k, q, hj', rfl, hk, hj, rfl⟩

theorem sound_of_transmitted (hflood : IsFlood run)
    (ih : ∀ k frame, (stateAt start run j).frames[k]? = some frame → Sound start run k frame)
    (hk : TransmitsAt start run j k) (hframe : frame ∈ transmitted (actionsAt start run j)) :
    Sound start run k frame := by
  cases hj : run[j]? with
  | none => simp [actionsAt, hj, transmitted] at hframe
  | some e =>
      obtain ⟨i, now, s⟩ := e
      have hs : s.isFlood = true := hflood _ (List.mem_of_getElem? hj)
      rcases step_of_isFlood hs with ⟨id, t, m, rfl⟩ | ⟨k', rfl⟩
      · cases hr : (stateAt start run j).routers[i]? with
        | none => simp [actionsAt_of_none hj hr, transmitted] at hframe
        | some r =>
            obtain ⟨p, hp, hdatagram⟩ := of_mem_originate hj hr hframe
            have hhop := hop_of_originatesAt hp
            refine ⟨j, i, m, p, j, _, p, hp, hj, hk, Packet.isCopyOf_self hhop, hdatagram, ?_⟩
            rw [hhop]
            exact Way.here
      · have hacts : actionsAt start run j ≠ [] := by
          intro hnil
          rw [hnil] at hframe
          cases hframe
        obtain ⟨q, hfeeds, haccepts⟩ := feedsAt_of_actionsAt hj hacts
        obtain ⟨node, hhandle⟩ := actionsAt_of_accepts hfeeds haccepts
        have hfeeds' := hfeeds
        obtain ⟨now', fed, -, hfed, hq⟩ := hfeeds'
        obtain ⟨i', o, m, p, j', e', hp, hj', hk', hcopy, -, hway⟩ := (ih k' fed hfed).read hq
        rw [hhandle, transmitted_handle, List.mem_flatMap] at hframe
        obtain ⟨next, hnext, hmem⟩ := hframe
        rw [Option.mem_toList] at hnext
        obtain ⟨hcopy', hhop⟩ := hcopy.relayed hnext
        refine ⟨i', o, m, p, j, _, next, hp, hj, hk, hcopy', toDatagram_of_mem hmem, ?_⟩
        rw [hhop]
        rw [← hcopy.id] at hway ⊢
        exact way_of_feedsAt hfeeds hj' hk' hway

/-- Every frame that a flood transmits is sound. -/
theorem sound_frames (hempty : start.frames = []) (hflood : IsFlood run) (j : Nat) :
    ∀ k frame, (stateAt start run j).frames[k]? = some frame → Sound start run k frame := by
  induction j with
  | zero =>
      intro k frame hframe
      have hnil : (stateAt start run 0).frames = [] := hempty
      rw [hnil] at hframe
      cases hframe
  | succ j ih =>
      intro k frame hframe
      have hlt := (List.getElem?_eq_some_iff.mp hframe).1
      rw [frames_succ] at hframe
      by_cases hold : k < (stateAt start run j).frames.length
      · rw [List.getElem?_append_left hold] at hframe
        exact ih k frame hframe
      · rw [List.getElem?_append_right (Nat.le_of_not_lt hold)] at hframe
        exact sound_of_transmitted hflood ih ⟨Nat.le_of_not_lt hold, hlt⟩
          (List.mem_of_getElem? hframe)

/-! ## What comes of a frame that is fed -/

/-- Whatever is fed and accepted is sent on while its budget lasts: its copy is no longer than it
was itself. -/
theorem transmitted_of_accepts (hempty : start.frames = []) (hflood : IsFlood run)
    (h : FeedsAt start run j k i q) (haccepts : AcceptsAt start run j q.id) (httl : q.ttl ≠ 0) :
    ∃ next frame, q.relayed = some next ∧ next.toDatagram = .ok frame ∧
      transmitted (actionsAt start run j) = [frame] := by
  obtain ⟨node, hhandle⟩ := actionsAt_of_accepts h haccepts
  obtain ⟨now, fed, -, hfed, hq⟩ := h
  obtain ⟨i', o, m, p, j', e', -, -, -, hcopy, hle, -⟩ :=
    (sound_frames hempty hflood j k fed hfed).read hq
  have hbudget : q.hop.toNat + q.ttl.toNat ≤ 255 := by
    rw [hcopy.budget]
    exact Nat.le_of_lt_succ p.ttl.toNat_lt
  obtain ⟨next, hnext, -, -, -⟩ := Packet.relayed_of_ttl httl hbudget
  have hlength := Nat.le_of_eq (Packet.length_encode_relayed hnext)
  have hframe := Frame.wrap_of_le (Nat.le_trans hlength hle)
  refine ⟨next, _, hnext, hframe, ?_⟩
  rw [hhandle, transmitted_handle, hnext, Option.toList_some, List.flatMap_singleton]
  exact transmitted_transmit hframe

/-- What is delivered is what was sent, and the origin is near enough. -/
theorem delivered_of_feedsAt (hempty : start.frames = []) (hflood : IsFlood run)
    (hfresh : FreshIds run) (hp : OriginatesAt start run i o m p)
    {b : Nat} (h : FeedsAt start run j k b q) (hid : q.id = p.id) {m' : Message}
    (hm' : m' ∈ delivered (actionsAt start run j)) :
    m' = m ∧ m.sender ≠ "" ∧ ∃ n, n ≤ p.ttl.toNat + 1 ∧ Way (Feeds start run p.id) o n b := by
  have haccepts : AcceptsAt start run j q.id := by
    by_contra hrefuses
    rw [actionsAt_of_not_accepts h hrefuses] at hm'
    cases hm'
  obtain ⟨node, hhandle⟩ := actionsAt_of_accepts h haccepts
  have h' := h
  obtain ⟨now, fed, -, hfed, hq⟩ := h'
  obtain ⟨i', o', m₀, p₀, j', e', hp₀, hj', hk', hcopy, -, hway⟩ :=
    (sound_frames hempty hflood j k fed hfed).read hq
  obtain ⟨rfl, rfl, rfl⟩ := hp₀.unique hfresh hp (hcopy.id.symm.trans hid)
  rw [hhandle, delivered_handle, hcopy.payload, payload_of_originatesAt hp,
    payloadMessage?_encode] at hm'
  have hmessage : m' = m₀ ∧ m₀.sender.isEmpty = false := by
    split at hm'
    · cases hempty' : m₀.sender.isEmpty <;> simp [hempty'] at hm'
      exact ⟨hm', rfl⟩
    · cases hm'
  have hbudget := hcopy.budget
  refine ⟨hmessage.1, ?_, q.hop.toNat + 1, by omega, ?_⟩
  · intro hsender
    simp [hsender] at hmessage
  · rw [← hcopy.id] at hway ⊢
    exact way_of_feedsAt h hj' hk' hway

/-! ## Accepting again -/

/-- In its own run, too, the router accepts the packet that it accepts in the network's. -/
theorem acceptedAt_tasksOf (hi : start.routers[i]? = some r) (h : FeedsAt start run j k i q)
    (haccepts : AcceptsAt start run j q.id) {l : Nat} (hl : j < l) :
    Router.acceptedAt r (tasksOf start run i l) (tasksOf start run i j).length = some q.id := by
  obtain ⟨e, hj, rfl, hpacket⟩ := packet?_of_feedsAt h
  obtain ⟨e', r', hj', hr', hnew⟩ := haccepts
  rw [hj, Option.some.injEq] at hj'
  subst hj'
  have hbehind : tasksOf start run e.router (j + 1) <+: tasksOf start run e.router l :=
    prefix_tasksOf hl
  rw [tasksOf_succ_own hj] at hbehind
  obtain ⟨later, hlater⟩ := hbehind
  have htask : (tasksOf start run e.router l)[(tasksOf start run e.router j).length]? =
      some (e.now, e.step.task (stateAt start run j).frames) := by
    rw [← hlater]
    simp
  have hstate : Router.stateAt r (tasksOf start run e.router l)
      (tasksOf start run e.router j).length = r' := by
    have hrouter := router_stateAt run hi j
    rw [hr', Option.some.injEq] at hrouter
    rw [hrouter, Router.stateAt, Router.stateAt, ← hlater, List.append_assoc, List.take_left,
      List.take_length]
  simp only [Router.acceptedAt, htask, Router.subjectAt_eq htask, hpacket r, Option.map_some,
    hstate, hnew, if_true]

/-- A router accepts the same packet again only if it may have forgotten it. -/
theorem mayForget_of_accepts_twice (hi : start.routers[i]? = some r) (hs : r.recent.Sound)
    {j' k' : Nat} {q' : Packet} (hjj' : j < j') (h : FeedsAt start run j k i q)
    (haccepts : AcceptsAt start run j q.id) (h' : FeedsAt start run j' k' i q')
    (hid : q'.id = q.id) (haccepts' : AcceptsAt start run j' q'.id) :
    Router.MayForget r (tasksOf start run i (j' + 1)) q.id (tasksOf start run i j).length
      (tasksOf start run i j').length := by
  by_contra hkept
  have hfirst := acceptedAt_tasksOf hi h haccepts (Nat.lt_succ_of_lt hjj')
  have hsecond := acceptedAt_tasksOf hi h' haccepts' (Nat.lt_succ_self j')
  rw [hid] at hsecond
  refine Router.not_accepted_again hs ?_ hfirst hkept hsecond
  obtain ⟨e, hj, rfl, -⟩ := packet?_of_feedsAt h
  have hbehind : tasksOf start run e.router (j + 1) <+: tasksOf start run e.router j' :=
    prefix_tasksOf hjj'
  have hle := hbehind.length_le
  rw [tasksOf_succ_own hj, List.length_append, List.length_singleton] at hle
  exact hle

/-! ## The flood -/

/-- **A flood keeps what it carries, and its budget.** Every transmitted frame of less than 4 GiB
holds a copy of a packet that was sent. A frame that is fed and accepted with budget left is sent
on, once, and one that is refused leads to nothing; the same packet is accepted again only if the
router may have forgotten it. A delivered message is the one that was sent, which has a sender, and
there are no more feeds on the way to it from its origin than the budget and one. -/
theorem flood_integrity (nodes : List (String × MeshConfig)) (run : List Event)
    (hflood : IsFlood run) (hfresh : FreshIds run) :
    (∀ j, ∀ frame ∈ (stateAt (fresh nodes) run j).frames,
      frame.length < Bytes.bound Frame.lengthSize →
      ∃ i o m p q, OriginatesAt (fresh nodes) run i o m p ∧ Packet.ofDatagram frame = .ok q ∧
        q.IsCopyOf p) ∧
    (∀ j k i q, FeedsAt (fresh nodes) run j k i q →
      (AcceptsAt (fresh nodes) run j q.id →
        (q.ttl ≠ 0 → ∃ next frame, q.relayed = some next ∧ next.toDatagram = .ok frame ∧
          transmitted (actionsAt (fresh nodes) run j) = [frame]) ∧
        (q.ttl = 0 → transmitted (actionsAt (fresh nodes) run j) = [])) ∧
      (¬ AcceptsAt (fresh nodes) run j q.id → actionsAt (fresh nodes) run j = [])) ∧
    (∀ i r j k q j' k' q', (fresh nodes).routers[i]? = some r → j < j' →
      FeedsAt (fresh nodes) run j k i q → AcceptsAt (fresh nodes) run j q.id →
      FeedsAt (fresh nodes) run j' k' i q' → q'.id = q.id → AcceptsAt (fresh nodes) run j' q'.id →
      Router.MayForget r (tasksOf (fresh nodes) run i (j' + 1)) q.id
        (tasksOf (fresh nodes) run i j).length (tasksOf (fresh nodes) run i j').length) ∧
    (∀ i o m p, OriginatesAt (fresh nodes) run i o m p →
      ∀ j k b q, FeedsAt (fresh nodes) run j k b q → q.id = p.id →
      ∀ m' ∈ delivered (actionsAt (fresh nodes) run j),
        m' = m ∧ m.sender ≠ "" ∧
          ∃ n ≤ p.ttl.toNat + 1, Way (Feeds (fresh nodes) run p.id) o n b) := by
  refine ⟨?_, ?_, ?_, ?_⟩
  · intro j frame hframe hfits
    obtain ⟨k, hk⟩ := List.getElem?_of_mem hframe
    obtain ⟨i, o, m, p, -, -, q, hp, -, -, hcopy, hq, -⟩ := sound_frames rfl hflood j k frame hk
    exact ⟨i, o, m, p, q, hp, Packet.ofDatagram_toDatagram hq hfits, hcopy⟩
  · intro j k i q hfeeds
    refine ⟨fun haccepts => ⟨?_, ?_⟩, actionsAt_of_not_accepts hfeeds⟩
    · exact transmitted_of_accepts rfl hflood hfeeds haccepts
    · intro httl
      obtain ⟨node, hhandle⟩ := actionsAt_of_accepts hfeeds haccepts
      rw [hhandle, transmitted_handle, Packet.relayed_eq_none httl]
      rfl
  · intro i r j k q j' k' q' hr hjj' hfeeds haccepts hfeeds' hid haccepts'
    have hs : r.recent.Sound := by
      obtain ⟨node, -, hnode⟩ := List.mem_map.mp (List.mem_of_getElem? hr)
      rw [← hnode]
      exact RecentIds.sound_empty _ _
    exact mayForget_of_accepts_twice hr hs hjj' hfeeds haccepts hfeeds' hid haccepts'
  · intro i o m p hp j k b q hfeeds hid m' hm'
    exact delivered_of_feedsAt rfl hflood hfresh hp hfeeds hid hm'

/-- Two routers with room for one id each. -/
def narrowPair : List (String × MeshConfig) :=
  ["n0", "n1"].map fun name => (name, { MeshConfig.standard with seenCapacity := 1 })

/-- The packet around the first message of `crossedFloods`. -/
def firstPacket : Packet :=
  Router.packetFor (.numbered 0) 0 ⟨"p", .join⟩ (.start "n0" .standard)

/-- One router sends twice; the other one hears of the first packet, the second and the first. -/
def crossedFloods : List Event :=
  [⟨0, 0, .originate (.numbered 0) 0 ⟨"p", .join⟩⟩, ⟨0, 0, .originate (.numbered 1) 0 ⟨"p", .bye⟩⟩,
    ⟨1, 0, .feed 0⟩, ⟨1, 0, .feed 1⟩, ⟨1, 0, .feed 0⟩]

theorem originatesAt_crossedFloods :
    OriginatesAt (fresh narrowPair) crossedFloods 0 0 ⟨"p", .join⟩ firstPacket :=
  ⟨0, _, rfl, rfl, rfl⟩

theorem feedsAt_crossedFloods (j : Nat) (hj : j = 2 ∨ j = 4) :
    FeedsAt (fresh narrowPair) crossedFloods j 0 1 firstPacket := by
  refine ⟨0, (stateAt (fresh narrowPair) crossedFloods j).frames[0]?.getD [], ?_, ?_, ?_⟩
  · rcases hj with rfl | rfl <;> rfl
  · rcases hj with rfl | rfl <;> decide +kernel
  · rcases hj with rfl | rfl <;> decide +kernel

theorem acceptsAt_crossedFloods (j : Nat) (hj : j = 2 ∨ j = 4) :
    AcceptsAt (fresh narrowPair) crossedFloods j firstPacket.id := by
  rcases hj with rfl | rfl
  · exact ⟨_, _, rfl, rfl, by decide +kernel⟩
  · exact ⟨_, _, rfl, rfl, by decide +kernel⟩

/-- The second router delivers the message, one feed away from its origin. -/
theorem flood_integrity_crossedFloods :
    IsFlood crossedFloods ∧ FreshIds crossedFloods ∧
      ∃ m' ∈ delivered (actionsAt (fresh narrowPair) crossedFloods 2), m' = ⟨"p", .join⟩ ∧
        ∃ n ≤ 6, Way (Feeds (fresh narrowPair) crossedFloods firstPacket.id) 0 n 1 := by
  have hflood : IsFlood crossedFloods := by decide
  have hfresh : FreshIds crossedFloods := by decide +kernel
  obtain ⟨-, -, -, hdelivered⟩ := flood_integrity narrowPair crossedFloods hflood hfresh
  have hmem : ⟨"p", .join⟩ ∈ delivered (actionsAt (fresh narrowPair) crossedFloods 2) := by
    decide +kernel
  obtain ⟨hm, -, n, hn, hway⟩ := hdelivered 0 0 _ firstPacket originatesAt_crossedFloods 2 0 1
    firstPacket (feedsAt_crossedFloods 2 (Or.inl rfl)) rfl _ hmem
  exact ⟨hflood, hfresh, _, hmem, hm, n, hn, hway⟩

/-- **A forgotten packet is sent on again.** With room for one id, the second packet makes the
router forget the first one, which it then accepts and transmits as if it were new. -/
theorem forgotten_packet_sent_twice :
    IsFlood crossedFloods ∧ FreshIds crossedFloods ∧ firstPacket.ttl ≠ 0 ∧ ∃ frame,
      FeedsAt (fresh narrowPair) crossedFloods 2 0 1 firstPacket ∧
      AcceptsAt (fresh narrowPair) crossedFloods 2 firstPacket.id ∧
      transmitted (actionsAt (fresh narrowPair) crossedFloods 2) = [frame] ∧
      FeedsAt (fresh narrowPair) crossedFloods 4 0 1 firstPacket ∧
      transmitted (actionsAt (fresh narrowPair) crossedFloods 4) = [frame] := by
  refine ⟨by decide, by decide +kernel, by decide,
    (transmitted (actionsAt (fresh narrowPair) crossedFloods 2)).headD [],
    feedsAt_crossedFloods 2 (Or.inl rfl), acceptsAt_crossedFloods 2 (Or.inl rfl), ?_,
    feedsAt_crossedFloods 4 (Or.inr rfl), ?_⟩
  · decide +kernel
  · decide +kernel

end Network

end Mesh

end PeerCall
