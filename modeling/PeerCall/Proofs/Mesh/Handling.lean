import PeerCall.Mesh.Network
import PeerCall.Proofs.Mesh.Memory

/-!
# Handling a packet once

A router's run is a list of tasks, each with a reading of the clock; the readings need not
increase. Every task that has a packet remembers it before it does anything else, so a second one
with the same id does nothing until the id was forgotten. That takes the window's time or, without
a late reading, as many other packets as there is room for.
-/
namespace PeerCall.Mesh.Router

/-- What a router can be asked to do. -/
inductive Task
  | originate (id : PacketId) (timestamp : UInt64) (message : Message)
  | broadcast (packet : Packet)
  | datagram (bytes : Bytes)
  | sweep

/-- What a router does about a task. -/
def perform (now : Instant) (r : Router) : Task → List RelayAction × Router
  | .originate id timestamp m => r.originate id timestamp m now
  | .broadcast p => r.broadcastPacket p now
  | .datagram bytes => r.onBytes bytes now
  | .sweep => ([], r.sweep now)

namespace Task

/-- The packet that a task is about. -/
def packet? (r : Router) : Task → Option Packet
  | .originate id timestamp m => some (r.packetFor id timestamp m)
  | .broadcast p => some p
  | .datagram bytes => (Packet.ofDatagram bytes).toOption
  | .sweep => none

/-- Whether the packet comes from this node's own application. -/
def isOwn : Task → Bool
  | .originate .. | .broadcast _ => true
  | .datagram _ | .sweep => false

/-- What is done about a packet that was not remembered. -/
def response (node : String) (p : Packet) (t : Task) : List RelayAction :=
  if t.isOwn then transmit p else handle p node

end Task

variable {r start : Router} {now : Instant} {task : Task} {p : Packet}

/-! ## One task -/

/-- A task with a packet remembers it and acts only if it was not remembered. -/
theorem perform_packet (hp : task.packet? r = some p) :
    r.perform now task =
      (if (r.recent.insert p.id now).1 then task.response r.node p else [],
        { r with recent := (r.recent.insert p.id now).2 }) := by
  cases task with
  | originate id timestamp m =>
      cases hp
      simp only [perform, originate, broadcastPacket, Task.response, Task.isOwn, if_true]
      split <;> simp_all
  | broadcast q =>
      cases hp
      simp only [perform, broadcastPacket, Task.response, Task.isOwn, if_true]
      split <;> simp_all
  | datagram bytes =>
      cases hd : Packet.ofDatagram bytes with
      | error e => simp [Task.packet?, hd, Except.toOption] at hp
      | ok q =>
          simp only [Task.packet?, hd, Except.toOption, Option.some.injEq] at hp
          subst hp
          simp only [perform, onBytes, hd, Task.response, Task.isOwn, Bool.false_eq_true, if_false]
          split <;> simp_all
  | sweep => cases hp

/-- A task without a packet acts on nothing; it may forget by age. -/
theorem perform_none (hp : task.packet? r = none) (now : Instant) :
    (r.perform now task).1 = [] ∧
      ((r.perform now task).2 = r ∨ (r.perform now task).2 = r.sweep now) := by
  cases task with
  | originate id timestamp m => cases hp
  | broadcast q => cases hp
  | datagram bytes =>
      cases hd : Packet.ofDatagram bytes with
      | ok q => simp [Task.packet?, hd, Except.toOption] at hp
      | error e => simp [perform, onBytes, hd]
  | sweep => exact ⟨rfl, Or.inr rfl⟩

/-- No task changes who the router is. -/
theorem perform_frame (r : Router) (now : Instant) (task : Task) :
    (r.perform now task).2.node = r.node ∧ (r.perform now task).2.ttl = r.ttl := by
  cases hp : task.packet? r with
  | some p => rw [perform_packet hp]; exact ⟨rfl, rfl⟩
  | none =>
      rcases (perform_none hp now).2 with h | h <;> rw [h] <;> exact ⟨rfl, rfl⟩

/-- The packet of a task depends on the router's name and budget alone. -/
theorem packet?_congr {s : Router} (hnode : r.node = s.node) (httl : r.ttl = s.ttl) (task : Task) :
    task.packet? r = task.packet? s := by
  cases task <;> simp [Task.packet?, packetFor, hnode, httl]

/-- The messages handed to the application. -/
def delivered (actions : List RelayAction) : List Message :=
  actions.filterMap fun
    | .deliver m => some m
    | .transmit _ => none

@[simp] theorem delivered_append (as bs : List RelayAction) :
    delivered (as ++ bs) = delivered as ++ delivered bs := List.filterMap_append

@[simp] theorem delivered_transmit (p : Packet) : delivered (transmit p) = [] := by
  unfold transmit
  split <;> rfl

theorem length_transmitted_transmit (p : Packet) :
    (Network.transmitted (transmit p)).length ≤ 1 := by
  unfold transmit
  split <;> simp [Network.transmitted]

/-- What a packet on its way leads to: its message, and its copy for the next hop. -/
theorem handle_eq (p : Packet) (node : String) :
    ∃ message : Option Message, ∃ relay : Option Packet,
      handle p node = message.toList.map .deliver ++ relay.toList.flatMap transmit := by
  refine ⟨if isFor p node then payloadMessage? p.payload else none, p.relayed, ?_⟩
  unfold handle
  cases p.relayed <;> split <;> simp

/-- A packet is handed on once at most, and sent on once at most. -/
theorem length_response_le (node : String) (p : Packet) (task : Task) :
    (delivered (task.response node p)).length ≤ 1 ∧
      (Network.transmitted (task.response node p)).length ≤ 1 := by
  by_cases hown : task.isOwn = true
  · simp [Task.response, hown, length_transmitted_transmit]
  · obtain ⟨message, relay, h⟩ := handle_eq p node
    simp only [Task.response, hown, Bool.false_eq_true, if_false, h]
    have hmessage : (delivered (message.toList.map .deliver)).length ≤ 1 ∧
        Network.transmitted (message.toList.map .deliver) = [] := by
      cases message <;> exact ⟨by simp [delivered], rfl⟩
    have hrelay : delivered (relay.toList.flatMap transmit) = [] ∧
        (Network.transmitted (relay.toList.flatMap transmit)).length ≤ 1 := by
      cases relay with
      | none => exact ⟨rfl, Nat.zero_le 1⟩
      | some q => simp [length_transmitted_transmit]
    rw [delivered_append, hrelay.1, Network.transmitted, List.filterMap_append]
    rw [Network.transmitted] at hmessage hrelay
    rw [hmessage.2]
    exact ⟨by simpa using hmessage.1, by simpa using hrelay.2⟩

/-! ## Runs -/

section
variable (start : Router) (run : List (Instant × Task))

/-- The router after the first steps of a run. -/
def stateAt (k : Nat) : Router :=
  (run.take k).foldl (fun r s => (r.perform s.1 s.2).2) start

/-- The reading of the clock in a step. -/
def readingAt (k : Nat) : Option Instant := run[k]?.map (·.1)

/-- What a step does. -/
def actionsAt (k : Nat) : List RelayAction :=
  match run[k]? with
  | some (now, task) => ((stateAt start run k).perform now task).1
  | none => []

/-- The id of the packet that a step is about. -/
def subjectAt (k : Nat) : Option PacketId :=
  (run[k]?.bind fun s => s.2.packet? start).map (·.id)

/-- The id that a step remembers anew. -/
def acceptedAt (k : Nat) : Option PacketId :=
  match run[k]?, subjectAt start run k with
  | some (now, _), some id => if ((stateAt start run k).recent.insert id now).1 then some id else none
  | _, _ => none

/-- The ids remembered anew strictly between two steps, in order. -/
def acceptedBetween (i j : Nat) : List PacketId :=
  (List.range' (i + 1) (j - (i + 1))).filterMap (acceptedAt start run)

/-- A step acts for a packet: it delivers or transmits. -/
def ActsFor (id : PacketId) (k : Nat) : Prop :=
  subjectAt start run k = some id ∧ actionsAt start run k ≠ []

/-- What `part` shows of the actions for a packet, from one step to another, both counted. -/
def collectedFor {α : Type} (part : List RelayAction → List α) (id : PacketId) (i j : Nat) :
    List α :=
  (List.range' i (j + 1 - i)).flatMap fun k =>
    if subjectAt start run k = some id then part (actionsAt start run k) else []

/-- Whether a step's packet comes from this node's own application. -/
def IsOwnAt (k : Nat) : Prop := ∃ now task, run[k]? = some (now, task) ∧ task.isOwn = true

/-- Between two steps an id may be forgotten: the window has no length, or a reading was late
enough, or as many other ids came as there is room for. -/
def MayForget (id : PacketId) (i j : Nat) : Prop :=
  start.recent.window = 0 ∨
    (∃ k t now, i < k ∧ k ≤ j ∧ readingAt run i = some t ∧ readingAt run k = some now ∧
      t + start.recent.window ≤ now) ∨
    start.recent.capacity ≤ ((acceptedBetween start run i j).toFinset.erase id).card

end

variable {run : List (Instant × Task)} {id : PacketId} {i j k : Nat}

/-! ## What a run keeps -/

theorem stateAt_succ (hk : run[k]? = some (now, task)) :
    stateAt start run (k + 1) = ((stateAt start run k).perform now task).2 := by
  simp [stateAt, List.take_add_one, hk]

theorem stateAt_succ_of_none (hk : run[k]? = none) :
    stateAt start run (k + 1) = stateAt start run k := by
  simp [stateAt, List.take_add_one, hk]

/-- A run changes neither the router's name nor its budget. -/
theorem stateAt_frame (start : Router) (run : List (Instant × Task)) (k : Nat) :
    (stateAt start run k).node = start.node ∧ (stateAt start run k).ttl = start.ttl := by
  induction k with
  | zero => exact ⟨rfl, rfl⟩
  | succ k ih =>
      cases hk : run[k]? with
      | none => rw [stateAt_succ_of_none hk]; exact ih
      | some s =>
          obtain ⟨now, task⟩ := s
          have hframe := perform_frame (stateAt start run k) now task
          rw [stateAt_succ hk, hframe.1, hframe.2]
          exact ih

theorem packet?_stateAt (k : Nat) (task : Task) :
    task.packet? (stateAt start run k) = task.packet? start :=
  packet?_congr (stateAt_frame start run k).1 (stateAt_frame start run k).2 task

/-- What a step does to the memory: an id is remembered, or at most age takes some away. -/
theorem recent_succ (start : Router) (hk : run[k]? = some (now, task)) :
    (∃ p, task.packet? start = some p ∧
      (stateAt start run (k + 1)).recent = ((stateAt start run k).recent.insert p.id now).2) ∨
    (task.packet? start = none ∧
      ((stateAt start run (k + 1)).recent = (stateAt start run k).recent ∨
        (stateAt start run (k + 1)).recent = (stateAt start run k).recent.expire now)) := by
  rw [stateAt_succ hk]
  cases hp : task.packet? start with
  | some p =>
      left
      refine ⟨p, rfl, ?_⟩
      rw [perform_packet ((packet?_stateAt k task).trans hp)]
  | none =>
      right
      refine ⟨rfl, ?_⟩
      rcases (perform_none ((packet?_stateAt k task).trans hp) now).2 with h | h
      · exact Or.inl (by rw [h])
      · exact Or.inr (by rw [h]; rfl)

/-- The memory stays sound, and its limits stay what they are. -/
theorem recent_sound (hs : start.recent.Sound) (run : List (Instant × Task)) (k : Nat) :
    (stateAt start run k).recent.Sound ∧
      (stateAt start run k).recent.window = start.recent.window ∧
      (stateAt start run k).recent.capacity = start.recent.capacity := by
  induction k with
  | zero => exact ⟨hs, rfl, rfl⟩
  | succ k ih =>
      obtain ⟨hsound, hwindow, hcapacity⟩ := ih
      cases hk : run[k]? with
      | none => rw [stateAt_succ_of_none hk]; exact ⟨hsound, hwindow, hcapacity⟩
      | some s =>
          obtain ⟨now, task⟩ := s
          rcases recent_succ start hk with ⟨p, -, h⟩ | ⟨-, h | h⟩ <;> rw [h]
          · rw [RecentIds.window_insert hsound, RecentIds.capacity_insert hsound]
            exact ⟨hsound.insert, hwindow, hcapacity⟩
          · exact ⟨hsound, hwindow, hcapacity⟩
          · exact ⟨hsound.expire, hwindow, hcapacity⟩

/-! ## What a step does for its packet -/

theorem subjectAt_eq (hk : run[k]? = some (now, task)) :
    subjectAt start run k = (task.packet? start).map (·.id) := by
  simp [subjectAt, hk]

/-- A step acts only for an id that it remembers anew. -/
theorem acceptedAt_of_actsFor (h : ActsFor start run id k) :
    acceptedAt start run k = some id := by
  obtain ⟨hsubject, hacts⟩ := h
  cases hk : run[k]? with
  | none => simp [actionsAt, hk] at hacts
  | some s =>
      obtain ⟨now, task⟩ := s
      rw [subjectAt_eq hk, Option.map_eq_some_iff] at hsubject
      obtain ⟨p, hp, rfl⟩ := hsubject
      simp only [actionsAt, hk, perform_packet ((packet?_stateAt k task).trans hp)] at hacts
      have hnew : ((stateAt start run k).recent.insert p.id now).1 = true := by
        by_contra hold
        simp [hold] at hacts
      simp [acceptedAt, hk, subjectAt_eq hk, hp, hnew]

/-- A step that remembers an id has a reading and a packet with that id. -/
theorem of_acceptedAt (h : acceptedAt start run k = some id) :
    ∃ now task p, run[k]? = some (now, task) ∧ task.packet? start = some p ∧ p.id = id ∧
      ((stateAt start run k).recent.insert id now).1 = true := by
  cases hk : run[k]? with
  | none => simp [acceptedAt, hk] at h
  | some s =>
      obtain ⟨now, task⟩ := s
      cases hp : task.packet? start with
      | none => simp [acceptedAt, hk, subjectAt_eq hk, hp] at h
      | some p =>
          simp only [acceptedAt, hk, subjectAt_eq hk, hp, Option.map_some] at h
          split at h
          · rename_i hnew
            cases h
            exact ⟨now, task, p, rfl, hp, rfl, hnew⟩
          · cases h

theorem acceptedBetween_succ (hij : i < j) :
    acceptedBetween start run i (j + 1) =
      acceptedBetween start run i j ++ (acceptedAt start run j).toList := by
  have hlength : j + 1 - (i + 1) = (j - (i + 1)) + 1 := by omega
  have hlast : i + 1 + (j - (i + 1)) = j := by omega
  rw [acceptedBetween, hlength, List.range'_concat, List.filterMap_append]
  simp only [Nat.one_mul, hlast]
  cases h : acceptedAt start run j <;> simp [acceptedBetween, h]

theorem acceptedBetween_subset (hjk : j ≤ k) :
    acceptedBetween start run i j ⊆ acceptedBetween start run i k := by
  apply List.filterMap_subset
  intro a ha
  rw [List.mem_range'_1] at ha ⊢
  omega

/-! ## Remembering through a run -/

theorem reading_lt (hkept : ¬ MayForget start run id i j) {t : Instant}
    (ht : readingAt run i = some t) (hik : i < k) (hkj : k ≤ j)
    (hk : readingAt run k = some now) : now < t + start.recent.window := by
  by_contra hlate
  exact hkept (Or.inr (Or.inl ⟨k, t, now, hik, hkj, ht, hk, Nat.le_of_not_lt hlate⟩))

/-- An id accepted behind a remembered one has its place there too, since only different ids are
accepted meanwhile and there are fewer of them than places. -/
theorem room_behind (hkept : ¬ MayForget start run id i j) (hkj : k < j) (hik : i < k)
    {t : Instant} {r : RecentIds} (hs : r.Sound)
    (hold : r.Holds (id, t) (acceptedBetween start run i k)) {new : PacketId}
    (hnew : new ∉ r.order.map Prod.fst) (haccepted : acceptedAt start run k = some new) :
    (acceptedBetween start run i k).length + 1 < start.recent.capacity := by
  have hall : acceptedBetween start run i k ++ [new] ⊆ acceptedBetween start run i j := by
    have hsucc : acceptedBetween start run i (k + 1) = acceptedBetween start run i k ++ [new] := by
      rw [acceptedBetween_succ hik, haccepted, Option.toList_some]
    exact hsucc ▸ acceptedBetween_subset hkj
  have hfew : ((acceptedBetween start run i j).toFinset.erase id).card < start.recent.capacity :=
    Nat.lt_of_not_le fun h => hkept (Or.inr (Or.inr h))
  exact Nat.lt_of_le_of_lt (hold.length_lt hs hnew hall) hfew

/-- A step keeps a remembered id that may not be forgotten yet, and puts behind it what it accepts:
the entry is fresh at the step's reading, and has room behind it. -/
theorem holds_step (hs : start.recent.Sound) {t : Instant} (ht : readingAt run i = some t)
    (hkept : ¬ MayForget start run id i j) (hik : i < k) (hkj : k < j)
    (hold : (stateAt start run k).recent.Holds (id, t) (acceptedBetween start run i k)) :
    (stateAt start run (k + 1)).recent.Holds (id, t) (acceptedBetween start run i (k + 1)) := by
  have hwindow : start.recent.window ≠ 0 := fun h => hkept (Or.inl h)
  obtain ⟨hsound, hw, hc⟩ := recent_sound hs run k
  rw [acceptedBetween_succ hik]
  cases hrun : run[k]? with
  | none =>
      rw [stateAt_succ_of_none hrun]
      simpa [acceptedAt, hrun] using hold
  | some s =>
      obtain ⟨now, task⟩ := s
      have hfresh : RecentIds.stale (stateAt start run k).recent.window now (id, t) = false := by
        have hnow : readingAt run k = some now := by simp [readingAt, hrun]
        rw [hw]
        exact RecentIds.stale_eq_false hwindow
          (reading_lt hkept ht hik (Nat.le_of_lt hkj) hnow)
      rcases recent_succ start hrun with ⟨p, hp, h⟩ | ⟨hp, h⟩
      · rw [h]
        cases hnew : ((stateAt start run k).recent.insert p.id now).1 with
        | false =>
            have hrefused : acceptedAt start run k = none := by
              simp [acceptedAt, hrun, subjectAt_eq hrun, hp, hnew]
            simpa [hrefused] using hold.insert_refused hsound hfresh hnew
        | true =>
            have haccepted : acceptedAt start run k = some p.id := by
              simp [acceptedAt, hrun, subjectAt_eq hrun, hp, hnew]
            rw [haccepted]
            apply hold.insert_accepted hsound hfresh hnew
            rw [hc]
            exact room_behind hkept hkj hik hsound.expire (hold.expire hfresh)
              (RecentIds.not_mem_of_insert hsound hnew) haccepted
      · have hidle : acceptedAt start run k = none := by
          simp [acceptedAt, hrun, subjectAt_eq hrun, hp]
        rw [hidle]
        rcases h with h | h <;> rw [h]
        · simpa using hold
        · simpa using hold.expire hfresh

/-- Until it may be forgotten, an id is remembered with all ids accepted since behind it. -/
theorem holds_until (hs : start.recent.Sound) (hi : acceptedAt start run i = some id)
    {t : Instant} (ht : readingAt run i = some t) (hkept : ¬ MayForget start run id i j) :
    ∀ k, i + 1 ≤ k → k ≤ j →
      (stateAt start run k).recent.Holds (id, t) (acceptedBetween start run i k) := by
  intro k hik
  induction k, hik using Nat.le_induction with
  | base =>
      intro _
      obtain ⟨now, task, p, hrun, hp, rfl, hnew⟩ := of_acceptedAt hi
      have hnow : now = t := by simpa [readingAt, hrun] using ht
      subst hnow
      have hsound := (recent_sound hs run i).1
      rw [stateAt_succ hrun, perform_packet ((packet?_stateAt i task).trans hp)]
      simpa [acceptedBetween] using RecentIds.holds_new hsound hnew
  | succ k hik ih =>
      intro hkj
      exact holds_step hs ht hkept hik hkj (ih (Nat.le_of_lt hkj))

/-- Until it may be forgotten, an id is not accepted again. -/
theorem not_accepted_again (hs : start.recent.Sound) (hij : i < j)
    (hi : acceptedAt start run i = some id) (hkept : ¬ MayForget start run id i j) :
    acceptedAt start run j ≠ some id := by
  intro hj
  obtain ⟨t, task, p, hrun, -, -, -⟩ := of_acceptedAt hi
  obtain ⟨now, task', p', hrun', -, -, hnew⟩ := of_acceptedAt hj
  have ht : readingAt run i = some t := by simp [readingAt, hrun]
  have hold := holds_until hs hi ht hkept j hij (Nat.le_refl j)
  obtain ⟨hsound, hw, -⟩ := recent_sound hs run j
  have hfresh : RecentIds.stale (stateAt start run j).recent.window now (id, t) = false := by
    have hnow : readingAt run j = some now := by simp [readingAt, hrun']
    rw [hw]
    exact RecentIds.stale_eq_false (fun h => hkept (Or.inl h))
      (reading_lt hkept ht hij (Nat.le_refl j) hnow)
  have hold' := hold.insert_self hsound hfresh
  simp [hnew] at hold'

/-! ## The first handling is the only one -/

theorem not_mayForget_of_le (hkept : ¬ MayForget start run id i j) (hkj : k ≤ j) :
    ¬ MayForget start run id i k := by
  rintro (h | ⟨l, t, now, hil, hlk, ht, hl, hlate⟩ | h)
  · exact hkept (Or.inl h)
  · exact hkept (Or.inr (Or.inl ⟨l, t, now, hil, Nat.le_trans hlk hkj, ht, hl, hlate⟩))
  · refine hkept (Or.inr (Or.inr (Nat.le_trans h (Finset.card_le_card ?_))))
    apply Finset.erase_subset_erase
    intro a ha
    rw [List.mem_toFinset] at ha ⊢
    exact acceptedBetween_subset hkj ha

theorem idle_until (hs : start.recent.Sound) (hi : acceptedAt start run i = some id)
    (hkept : ¬ MayForget start run id i j) (hik : i < k) (hkj : k ≤ j)
    (hsubject : subjectAt start run k = some id) : actionsAt start run k = [] := by
  by_contra hacts
  exact not_accepted_again hs hik hi (not_mayForget_of_le hkept hkj)
    (acceptedAt_of_actsFor ⟨hsubject, hacts⟩)

/-- Whatever is collected behind the first handling is nothing. -/
theorem collectedFor_later {α : Type} {part : List RelayAction → List α} (hpart : part [] = [])
    (hs : start.recent.Sound) (hi : acceptedAt start run i = some id)
    (hkept : ¬ MayForget start run id i j) :
    collectedFor start run part id (i + 1) j = [] := by
  rw [collectedFor, List.flatMap_eq_nil_iff]
  intro k hk
  rw [List.mem_range'_1] at hk
  by_cases hsubject : subjectAt start run k = some id
  · rw [if_pos hsubject, idle_until hs hi hkept (by omega) (by omega) hsubject, hpart]
  · rw [if_neg hsubject]

theorem collectedFor_eq {α : Type} {part : List RelayAction → List α} (hpart : part [] = [])
    (hs : start.recent.Sound) (hij : i < j) (hi : acceptedAt start run i = some id)
    (hkept : ¬ MayForget start run id i j) :
    collectedFor start run part id i j = part (actionsAt start run i) := by
  have hsubject : subjectAt start run i = some id := by
    obtain ⟨now, task, p, hrun, hp, rfl, -⟩ := of_acceptedAt hi
    rw [subjectAt_eq hrun, hp, Option.map_some]
  have hsplit : collectedFor start run part id i j =
      part (actionsAt start run i) ++ collectedFor start run part id (i + 1) j := by
    have hlength : j + 1 - i = (j + 1 - (i + 1)) + 1 := by omega
    rw [collectedFor, hlength, List.range'_succ, List.flatMap_cons, if_pos hsubject]
    rfl
  rw [hsplit, collectedFor_later hpart hs hi hkept, List.append_nil]

/-- The first handling delivers one message and one frame at most, and a packet of this node's own
is only sent. -/
theorem actionsAt_le (hi : acceptedAt start run i = some id) :
    (delivered (actionsAt start run i)).length ≤ 1 ∧
      (Network.transmitted (actionsAt start run i)).length ≤ 1 ∧
      (IsOwnAt run i → delivered (actionsAt start run i) = []) := by
  obtain ⟨now, task, p, hrun, hp, rfl, hnew⟩ := of_acceptedAt hi
  have hacts : actionsAt start run i = task.response (stateAt start run i).node p := by
    simp only [actionsAt, hrun, perform_packet ((packet?_stateAt i task).trans hp), hnew, if_true]
  have hle := length_response_le (stateAt start run i).node p task
  rw [hacts]
  refine ⟨hle.1, hle.2, ?_⟩
  rintro ⟨now', task', hrun', hown⟩
  obtain ⟨-, rfl⟩ : now = now' ∧ task = task' := by simpa [hrun] using hrun'
  simp [Task.response, hown]

/-- **A packet is handled once.** If a router acts twice for the same id, then its window has no
length, or a reading at least the window later came with one of the steps behind the first, or at
least as many other ids were accepted in between as it has room for. Otherwise, from the step that
accepts a packet on, it is delivered once at most and transmitted once at most, and one of the
node's own application is neither delivered to it nor relayed. -/
theorem handled_once (node : String) (config : MeshConfig) (run : List (Instant × Task))
    (id : PacketId) {i j : Nat} (hij : i < j) :
    (ActsFor (.start node config) run id i → ActsFor (.start node config) run id j →
      config.seenWindow = 0 ∨
      (∃ k t now, i < k ∧ k ≤ j ∧ readingAt run i = some t ∧ readingAt run k = some now ∧
        t + config.seenWindow ≤ now) ∨
      max config.seenCapacity 1 ≤
        ((acceptedBetween (.start node config) run i j).toFinset.erase id).card) ∧
    (acceptedAt (.start node config) run i = some id →
      ¬ MayForget (.start node config) run id i j →
      (collectedFor (.start node config) run delivered id i j).length ≤ 1 ∧
      (collectedFor (.start node config) run Network.transmitted id i j).length ≤ 1 ∧
      (IsOwnAt run i →
        collectedFor (.start node config) run delivered id i j = [] ∧
        collectedFor (.start node config) run Network.transmitted id (i + 1) j = [])) := by
  have hs : (Router.start node config).recent.Sound := RecentIds.sound_empty _ _
  constructor
  · intro hi hj
    by_contra hkept
    exact not_accepted_again hs hij (acceptedAt_of_actsFor hi) hkept (acceptedAt_of_actsFor hj)
  · intro hi hkept
    obtain ⟨hmessages, hframes, hown⟩ := actionsAt_le hi
    rw [collectedFor_eq rfl hs hij hi hkept, collectedFor_eq rfl hs hij hi hkept]
    refine ⟨hmessages, hframes, fun h => ⟨hown h, ?_⟩⟩
    exact collectedFor_later rfl hs hi hkept

/-- A packet of one byte. -/
def smallPacket : Packet := .broadcast (.numbered 0) 0 "a" .hello [1] 5

/-- Two floods of it. -/
def floodedTwice (first second : Duration) : List (Instant × Task) :=
  [(first, .broadcast smallPacket), (second, .broadcast smallPacket)]

/-- At the end of the window the second flood acts again, a second earlier it does not. -/
theorem handled_once_around_window :
    (0 < 1 ∧ ActsFor (.start "a" .standard) (floodedTwice 0 (.ofSecs 600)) smallPacket.id 0 ∧
      ActsFor (.start "a" .standard) (floodedTwice 0 (.ofSecs 600)) smallPacket.id 1 ∧
      ∃ k t now, 0 < k ∧ k ≤ 1 ∧ readingAt (floodedTwice 0 (.ofSecs 600)) 0 = some t ∧
        readingAt (floodedTwice 0 (.ofSecs 600)) k = some now ∧
        t + MeshConfig.standard.seenWindow ≤ now) ∧
    (collectedFor (.start "a" .standard) (floodedTwice 0 (.ofSecs 599)) Network.transmitted
      smallPacket.id 0 1).length ≤ 1 := by
  have hfirst : ActsFor (.start "a" .standard) (floodedTwice 0 (.ofSecs 600)) smallPacket.id 0 :=
    ⟨rfl, by decide +kernel⟩
  have hsecond : ActsFor (.start "a" .standard) (floodedTwice 0 (.ofSecs 600)) smallPacket.id 1 :=
    ⟨rfl, by decide +kernel⟩
  refine ⟨⟨by decide, hfirst, hsecond, ?_⟩, ?_⟩
  · rcases (handled_once "a" .standard _ _ (by decide)).1 hfirst hsecond with h | h | h
    · exact absurd h (by decide)
    · exact h
    · exact absurd h (by decide +kernel)
  · refine ((handled_once "a" .standard _ _ (by decide)).2 (by decide +kernel) ?_).2.1
    rintro (h | ⟨k, t, now, h0, h1, ht, hk, h⟩ | h)
    · exact absurd h (by decide)
    · obtain rfl : k = 1 := by omega
      cases ht
      cases hk
      exact absurd h (by decide)
    · exact absurd h (by decide +kernel)

/-- A window of no length forgets at every reading, also at one before the first: then the same
packet is flooded twice though no later reading came and no other packet. -/
theorem windowless_handles_twice :
    let config : MeshConfig := { MeshConfig.standard with seenWindowSecs := 0 }
    let run := floodedTwice (.ofMillis 10) (.ofMillis 5)
    ActsFor (.start "a" config) run smallPacket.id 0 ∧
      ActsFor (.start "a" config) run smallPacket.id 1 ∧
      ¬ ((∃ k t now, 0 < k ∧ k ≤ 1 ∧ readingAt run 0 = some t ∧ readingAt run k = some now ∧
          t + config.seenWindow ≤ now) ∨
        max config.seenCapacity 1 ≤
          ((acceptedBetween (.start "a" config) run 0 1).toFinset.erase smallPacket.id).card) := by
  refine ⟨⟨rfl, by decide +kernel⟩, ⟨rfl, by decide +kernel⟩, ?_⟩
  rintro (⟨k, t, now, h0, h1, ht, hk, h⟩ | h)
  · obtain rfl : k = 1 := by omega
    cases ht
    cases hk
    exact absurd h (by decide)
  · exact absurd h (by decide +kernel)

end PeerCall.Mesh.Router
