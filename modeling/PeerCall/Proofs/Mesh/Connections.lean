import PeerCall.Mesh.Relay
import PeerCall.Proofs.Mesh.Handling

/-!
# What a relay remembers of its connections

A relay delivers what its router delivers, and its router handles a packet once until it may be
forgotten. But each time the relay is connected it gets a router that has handled nothing. So a
packet is handled once in a connection, and a new connection handles it anew however short ago that
was: it is delivered again, and so is a message of the relay's own application that comes back.
-/
namespace PeerCall.Mesh

open Router (Task)

/-- An event as a task of the router. What does not concern the router is as good as no bytes. -/
def RelayEvent.task : RelayEvent → Task
  | .outbound id timestamp m => .originate id timestamp m
  | .inbound _ bytes => .datagram bytes
  | .sweep => .sweep
  | .discovered _ | .linked _ | .linkFailed _ | .linkClosed _ | .scanEnded | .rescan _ =>
    .datagram []

/-- A step of a relay as a task of its router. -/
def RelayStep.task : RelayStep → Task
  | .event e => e.task
  | .connect | .disconnect => .datagram []

namespace Relay

variable {r r' : Relay} {now : Instant} {s : RelayStep} {node : String} {config : MeshConfig}

/-- The messages handed to the application. -/
def messages (requests : List RelayRequest) : List Message :=
  requests.filterMap fun
    | .deliver m => some m
    | .advertise | .scan | .link _ => none

/-! ## A relay does what its router does -/

/-- To carry out actions concerns the router no more, and hands on what they deliver. -/
theorem applyAll_spec (actions : List RelayAction) (r : Relay) :
    (applyAll actions r).2.router = r.router ∧
      messages (applyAll actions r).1 = Router.delivered actions := by
  induction actions generalizing r with
  | nil => exact ⟨rfl, rfl⟩
  | cons a actions ih =>
      obtain ⟨hrouter, hmessages⟩ := ih (r.apply a).2
      cases a with
      | deliver m => exact ⟨hrouter, congrArg (m :: ·) hmessages⟩
      | transmit frame => exact ⟨hrouter, hmessages⟩

/-- To sweep concerns the router, the neighbours that have written and the state, and nothing else. -/
theorem exists_sweep_eq (now : Instant) (r : Relay) : ∃ accepted state,
    r.sweep now = { r with router := r.router.sweep now, accepted, state } := by
  dsimp only [sweep]
  split
  · exact ⟨_, _, rfl⟩
  · exact ⟨_, _, rfl⟩

/-- A relay reacts as its router performs. -/
theorem handle_spec (now : Instant) (r : Relay) (e : RelayEvent) :
    (r.handle now e).2.router = (r.router.perform now e.task).2 ∧
      messages (r.handle now e).1 = Router.delivered (r.router.perform now e.task).1 := by
  cases e with
  | outbound id timestamp m => exact applyAll_spec _ _
  | inbound neighbor bytes =>
      have hrouter : (if r.isLinked neighbor then r else r.accept neighbor now).router =
          r.router := by
        split <;> rfl
      simp only [handle, hrouter]
      exact applyAll_spec _ _
  | discovered neighbor =>
      dsimp only [handle]
      split <;> exact ⟨rfl, rfl⟩
  | linked neighbor => exact ⟨rfl, rfl⟩
  | linkFailed neighbor => exact ⟨rfl, rfl⟩
  | linkClosed neighbor => exact ⟨rfl, rfl⟩
  | scanEnded => exact ⟨rfl, rfl⟩
  | rescan scans =>
      dsimp only [handle]
      split
      · exact ⟨rfl, rfl⟩
      · split <;> exact ⟨rfl, rfl⟩
  | sweep =>
      obtain ⟨accepted, state, hswept⟩ := exists_sweep_eq now r
      rw [handle, hswept]
      exact ⟨rfl, rfl⟩

/-- A step of a relay that runs delivers what its router does. -/
theorem messages_step (node : String) (config : MeshConfig) (now : Instant) (r : Relay)
    (s : RelayStep) : messages (step node config now (some r) s).1 =
      Router.delivered (r.router.perform now s.task).1 := by
  cases s with
  | connect => rfl
  | disconnect => rfl
  | event e => exact (handle_spec now r e).2

/-- If it runs on, its router has performed the task. -/
theorem router_step (h : (step node config now (some r) s).2 = some r') :
    r'.router = (r.router.perform now s.task).2 := by
  cases s with
  | connect =>
      cases h
      rfl
  | disconnect => cases h
  | event e =>
      rw [step] at h
      obtain ⟨-, hafter⟩ := Option.ite_none_left_eq_some.mp h
      cases hafter
      exact (handle_spec now r e).1

/-- A relay that does not run delivers nothing, and one that starts has handled nothing. -/
theorem step_of_stopped (node : String) (config : MeshConfig) (now : Instant) (s : RelayStep) :
    messages (step node config now none s).1 = [] ∧
      ((step node config now none s).2 = none ∨
        (step node config now none s).2 = some (start node config)) := by
  cases s with
  | connect => exact ⟨rfl, Or.inr rfl⟩
  | disconnect => exact ⟨rfl, Or.inl rfl⟩
  | event e => exact ⟨rfl, Or.inl rfl⟩

/-! ## Runs over several connections -/

section
variable (node : String) (config : MeshConfig) (run : List (Instant × RelayStep))

/-- The relay after the first steps of a run, if it runs then; at first it does not. -/
def stateAt (j : Nat) : Option Relay :=
  (run.take j).foldl (fun r s => (step node config s.1 r s.2).2) none

/-- What a step hands to the application. -/
def messagesAt (j : Nat) : List Message :=
  match run[j]? with
  | some (now, s) => messages (step node config now (stateAt node config run j) s).1
  | none => []

/-- The packet that a step is about, if the relay runs. -/
def packetAt (j : Nat) : Option Packet :=
  match stateAt node config run j, run[j]? with
  | some r, some (_, s) => s.task.packet? r.router
  | _, _ => none

/-- The id that a step handles as that of a new packet. -/
def acceptedAt (j : Nat) : Option PacketId :=
  match stateAt node config run j, run[j]?, packetAt node config run j with
  | some r, some (now, _), some p =>
    if (r.router.recent.insert p.id now).1 then some p.id else none
  | _, _, _ => none

/-- The ids handled as new strictly between two steps, in order. -/
def acceptedBetween (i j : Nat) : List PacketId :=
  (List.range' (i + 1) (j - (i + 1))).filterMap (acceptedAt node config run)

/-- The relay starts to run in a step. -/
def StartsAt (j : Nat) : Prop :=
  stateAt node config run j = none ∧ (stateAt node config run (j + 1)).isSome

/-- The message of the step's packet comes from the relay's own application. -/
def IsOwnAt (j : Nat) : Prop := ∃ now s, run[j]? = some (now, s) ∧ s.task.isOwn = true

/-- Between two steps a packet may be forgotten: the window has no length, or a reading was late
enough, or as many other packets were new as there is room for. -/
def MayForget (id : PacketId) (i j : Nat) : Prop :=
  config.seenWindow = 0 ∨
    (∃ k t now, i < k ∧ k ≤ j ∧ run[i]?.map (·.1) = some t ∧ run[k]?.map (·.1) = some now ∧
      t + config.seenWindow ≤ now) ∨
    max config.seenCapacity 1 ≤ ((acceptedBetween node config run i j).toFinset.erase id).card

end

variable {run : List (Instant × RelayStep)} {i j k n : Nat} {id : PacketId} {p : Packet}

theorem stateAt_succ (hj : run[j]? = some (now, s)) :
    stateAt node config run (j + 1) =
      (step node config now (stateAt node config run j) s).2 := by
  simp [stateAt, List.take_add_one, hj]

theorem stateAt_succ_of_none (hj : run[j]? = none) :
    stateAt node config run (j + 1) = stateAt node config run j := by
  simp [stateAt, List.take_add_one, hj]

/-- What holds of a router that starts and stays through every task holds of each router that a
relay ever has. -/
theorem router_induction {P : Router → Prop} (hstart : P (.start node config))
    (hperform : ∀ r now task, P r → P (Router.perform now r task).2)
    (h : stateAt node config run j = some r) : P r.router := by
  induction j generalizing r with
  | zero => cases h
  | succ j ih =>
      cases hj : run[j]? with
      | none =>
          rw [stateAt_succ_of_none hj] at h
          exact ih h
      | some x =>
          obtain ⟨now, s⟩ := x
          rw [stateAt_succ hj] at h
          cases hstate : stateAt node config run j with
          | none =>
              rw [hstate] at h
              rcases (step_of_stopped node config now s).2 with hstop | hnew
              · rw [hstop] at h
                cases h
              · rw [hnew] at h
                cases h
                exact hstart
          | some before =>
              rw [hstate] at h
              rw [router_step h]
              exact hperform _ _ _ (ih hstate)

/-- The memory is sound and has the limits that the settings give. -/
theorem recent_sound (h : stateAt node config run j = some r) :
    r.router.recent.Sound ∧ r.router.recent.window = config.seenWindow ∧
      r.router.recent.capacity = max config.seenCapacity 1 := by
  apply router_induction (P := fun r => r.recent.Sound ∧ r.recent.window = config.seenWindow ∧
    r.recent.capacity = max config.seenCapacity 1) ?_ ?_ h
  · exact ⟨RecentIds.sound_empty _ _, rfl, rfl⟩
  · rintro r now task ⟨hsound, hwindow, hcapacity⟩
    rw [← hwindow, ← hcapacity]
    exact Router.recent_sound hsound [(now, task)] 1

theorem router_node (h : stateAt node config run j = some r) : r.router.node = node := by
  apply router_induction (P := fun r => r.node = node) rfl ?_ h
  intro r now task hnode
  rw [(Router.perform_frame r now task).1, hnode]

/-- A step about a packet of a relay that runs. -/
theorem of_packetAt (h : packetAt node config run j = some p) :
    ∃ r now s, stateAt node config run j = some r ∧ run[j]? = some (now, s) ∧
      s.task.packet? r.router = some p := by
  unfold packetAt at h
  split at h
  · rename_i r now s hstate hj
    exact ⟨r, now, s, hstate, hj, h⟩
  · cases h

/-- A step that handles a packet as new. -/
theorem of_acceptedAt (h : acceptedAt node config run j = some id) :
    ∃ r now s p, stateAt node config run j = some r ∧ run[j]? = some (now, s) ∧
      s.task.packet? r.router = some p ∧ p.id = id ∧
      (r.router.recent.insert id now).1 = true := by
  cases hp : packetAt node config run j with
  | none => simp [acceptedAt, hp] at h
  | some p =>
      obtain ⟨r, now, s, hstate, hj, hpacket⟩ := of_packetAt hp
      simp only [acceptedAt, hstate, hj, hp] at h
      split at h
      · rename_i hnew
        cases h
        exact ⟨r, now, s, p, hstate, hj, hpacket, rfl, hnew⟩
      · cases h

/-! ## Within a connection -/

/-- The tasks that the router gets from some step on. -/
def tasksFrom (run : List (Instant × RelayStep)) (i : Nat) : List (Instant × Task) :=
  (run.drop i).map fun s => (s.1, s.2.task)

theorem getElem?_tasksFrom (run : List (Instant × RelayStep)) (i n : Nat) :
    (tasksFrom run i)[n]? = run[i + n]?.map fun s => (s.1, s.2.task) := by
  rw [tasksFrom, List.getElem?_map, List.getElem?_drop]

/-- While a relay runs, its router performs one task after the other. -/
theorem router_stateAt (hi : stateAt node config run i = some r)
    (hruns : ∀ k ≤ n, (stateAt node config run (i + k)).isSome) :
    ∃ r', stateAt node config run (i + n) = some r' ∧
      r'.router = Router.stateAt r.router (tasksFrom run i) n := by
  induction n with
  | zero => exact ⟨r, hi, rfl⟩
  | succ n ih =>
      obtain ⟨before, hbefore, hrouter⟩ := ih fun k hk => hruns k (Nat.le_succ_of_le hk)
      obtain ⟨after, hafter⟩ := Option.isSome_iff_exists.mp (hruns (n + 1) (Nat.le_refl _))
      refine ⟨after, hafter, ?_⟩
      rw [← Nat.add_assoc] at hafter
      have htask := getElem?_tasksFrom run i n
      cases hj : run[i + n]? with
      | none =>
          rw [hj] at htask
          rw [stateAt_succ_of_none hj, hbefore, Option.some.injEq] at hafter
          rw [Router.stateAt_succ_of_none htask, ← hafter, hrouter]
      | some x =>
          obtain ⟨now, s⟩ := x
          rw [hj] at htask
          rw [stateAt_succ hj, hbefore] at hafter
          rw [Router.stateAt_succ htask, router_step hafter, hrouter]

/-- So what it handles as new is what the router handles as new. -/
theorem acceptedAt_eq (hi : stateAt node config run i = some r)
    (hruns : ∀ k ≤ n, (stateAt node config run (i + k)).isSome) :
    acceptedAt node config run (i + n) = Router.acceptedAt r.router (tasksFrom run i) n := by
  obtain ⟨r', hr', hrouter⟩ := router_stateAt hi hruns
  have htask := getElem?_tasksFrom run i n
  cases hj : run[i + n]? with
  | none =>
      rw [hj] at htask
      simp [acceptedAt, Router.acceptedAt, hj, htask]
  | some x =>
      obtain ⟨now, s⟩ := x
      have hpacket : s.task.packet? r'.router = s.task.packet? r.router := by
        rw [hrouter]
        exact Router.packet?_stateAt n s.task
      rw [hj, Option.map_some] at htask
      simp only [acceptedAt, packetAt, hr', hj, hpacket, Router.acceptedAt, htask,
        Router.subjectAt_eq htask]
      cases s.task.packet? r.router with
      | none => rfl
      | some p => simp only [Option.map_some, hrouter]

/-- A relay that runs again has started. -/
theorem exists_startsAt (hk : stateAt node config run k = none) (hkj : k ≤ j)
    (hj : (stateAt node config run j).isSome) :
    ∃ l, k ≤ l ∧ l < j ∧ StartsAt node config run l := by
  induction j, hkj using Nat.le_induction with
  | base => simp [hk] at hj
  | succ j hkj ih =>
      cases hstate : stateAt node config run j with
      | none => exact ⟨j, hkj, Nat.lt_succ_self j, hstate, hj⟩
      | some r =>
          obtain ⟨l, hkl, hlj, hstart⟩ := ih (by rw [hstate]; rfl)
          exact ⟨l, hkl, Nat.lt_succ_of_lt hlj, hstart⟩

theorem readingAt_tasksFrom (run : List (Instant × RelayStep)) (i n : Nat) :
    Router.readingAt (tasksFrom run i) n = run[i + n]?.map (·.1) := by
  rw [Router.readingAt, getElem?_tasksFrom, Option.map_map]
  rfl

/-- What the router may forget the relay may forget. -/
theorem mayForget_of_router (hr : stateAt node config run i = some r) (hij : i ≤ j)
    (hruns : ∀ k ≤ j - i, (stateAt node config run (i + k)).isSome)
    (h : Router.MayForget r.router (tasksFrom run i) id 0 (j - i)) :
    MayForget node config run id i j := by
  obtain ⟨-, hwindow, hcapacity⟩ := recent_sound hr
  rw [Router.MayForget, hwindow, hcapacity] at h
  rcases h with h | ⟨k, t, now, hpos, hle, ht, hnow, hlate⟩ | h
  · exact Or.inl h
  · rw [readingAt_tasksFrom] at ht hnow
    exact Or.inr (Or.inl ⟨i + k, t, now, by omega, by omega, ht, hnow, hlate⟩)
  · refine Or.inr (Or.inr (Nat.le_trans h (Finset.card_le_card ?_)))
    apply Finset.erase_subset_erase
    intro a ha
    rw [List.mem_toFinset, Router.acceptedBetween, List.mem_filterMap] at ha
    rw [List.mem_toFinset, acceptedBetween, List.mem_filterMap]
    obtain ⟨k, hk, haccepted⟩ := ha
    rw [List.mem_range'_1] at hk
    refine ⟨i + k, List.mem_range'_1.mpr (by omega), ?_⟩
    rw [acceptedAt_eq hr fun l hl => hruns l (by omega), haccepted]

/-- Within a connection, a packet is not new again until it may be forgotten. -/
theorem startsAt_or_mayForget (hij : i < j) (hi : acceptedAt node config run i = some id)
    (hj : acceptedAt node config run j = some id) :
    (∃ k, i < k ∧ k < j ∧ StartsAt node config run k) ∨ MayForget node config run id i j := by
  obtain ⟨r, -, -, -, hr, -⟩ := of_acceptedAt hi
  obtain ⟨r', -, -, -, hr', -⟩ := of_acceptedAt hj
  by_cases hruns : ∀ k ≤ j - i, (stateAt node config run (i + k)).isSome
  · right
    by_contra hkept
    have hfirst := acceptedAt_eq hr fun k hk => hruns k (Nat.le_trans hk (Nat.zero_le _))
    have hagain := acceptedAt_eq hr hruns
    rw [Nat.add_zero, hi] at hfirst
    rw [Nat.add_sub_cancel' (Nat.le_of_lt hij), hj] at hagain
    exact Router.not_accepted_again (recent_sound hr).1 (Nat.sub_pos_of_lt hij) hfirst.symm
      (fun h => hkept (mayForget_of_router hr (Nat.le_of_lt hij) hruns h)) hagain.symm
  · -- It did not run at some step between, so it has started since.
    left
    rw [not_forall] at hruns
    obtain ⟨k, hk⟩ := hruns
    rw [Classical.not_imp, Bool.not_eq_true, Option.isSome_eq_false_iff, Option.isNone_iff_eq_none]
      at hk
    obtain ⟨hle, hstopped⟩ := hk
    have hkj : i + k ≤ j := by omega
    obtain ⟨l, hkl, hlj, hstart⟩ := exists_startsAt hstopped hkj (by rw [hr']; rfl)
    have hne : k ≠ 0 := by
      rintro rfl
      rw [Nat.add_zero, hr] at hstopped
      cases hstopped
    exact ⟨l, by omega, hlj, hstart⟩

/-! ## In a new connection -/

theorem not_startsAt (h : stateAt node config run j = some r) : ¬ StartsAt node config run j := by
  rintro ⟨hstopped, -⟩
  rw [h] at hstopped
  cases hstopped

/-- What the router of a step remembers was remembered before the step, or the step is about it. -/
theorem mem_before (hbefore : stateAt node config run j = some r)
    (hafter : stateAt node config run (j + 1) = some r')
    (hid : id ∈ r'.router.recent.order.map Prod.fst) :
    id ∈ r.router.recent.order.map Prod.fst ∨ acceptedAt node config run j = some id := by
  cases hj : run[j]? with
  | none =>
      rw [stateAt_succ_of_none hj, hbefore, Option.some.injEq] at hafter
      exact Or.inl (hafter ▸ hid)
  | some x =>
      obtain ⟨now, s⟩ := x
      rw [stateAt_succ hj, hbefore] at hafter
      rw [router_step hafter] at hid
      cases hp : s.task.packet? r.router with
      | none =>
          rcases (Router.perform_none hp now).2 with h | h <;> rw [h] at hid
          · exact Or.inl hid
          · exact Or.inl (RecentIds.mem_of_mem_expire hid)
      | some p =>
          rw [Router.perform_packet hp] at hid
          refine (RecentIds.mem_of_mem_insert (recent_sound hbefore).1 hid).imp_right ?_
          rintro ⟨rfl, hnew⟩
          simp only [acceptedAt, packetAt, hbefore, hj, hp, hnew, if_true]

/-- What a router remembers it has handled since the relay started. -/
theorem exists_acceptedAt (h : stateAt node config run j = some r)
    (hid : id ∈ r.router.recent.order.map Prod.fst) :
    ∃ l < j, acceptedAt node config run l = some id ∧
      ∀ k, l < k → k < j → ¬ StartsAt node config run k := by
  induction j generalizing r with
  | zero => cases h
  | succ j ih =>
      cases hstate : stateAt node config run j with
      | none =>
          exfalso
          cases hj : run[j]? with
          | none =>
              rw [stateAt_succ_of_none hj, hstate] at h
              cases h
          | some x =>
              rw [stateAt_succ hj, hstate] at h
              rcases (step_of_stopped node config x.1 x.2).2 with hstop | hstart
              · rw [hstop] at h
                cases h
              · rw [hstart] at h
                cases h
                cases hid
      | some before =>
          rcases mem_before hstate h hid with hid | hid
          · obtain ⟨l, hlj, haccepted, hnone⟩ := ih hstate hid
            refine ⟨l, Nat.lt_succ_of_lt hlj, haccepted, fun k hlk hkj => ?_⟩
            rcases Nat.lt_succ_iff_lt_or_eq.mp hkj with hkj | rfl
            · exact hnone k hlk hkj
            · exact not_startsAt hstate
          · exact ⟨j, Nat.lt_succ_self j, hid, fun k hjk hkj => absurd hjk (by omega)⟩

/-- A packet that a connection has not handled yet is new to it, whatever was handled before. -/
theorem acceptedAt_of_startsAt (hstart : StartsAt node config run k) (hkj : k < j)
    (hp : packetAt node config run j = some p)
    (hfirst : ∀ l, k < l → l < j → acceptedAt node config run l ≠ some p.id) :
    acceptedAt node config run j = some p.id := by
  obtain ⟨r, now, s, hstate, hj, -⟩ := of_packetAt hp
  have hnew : p.id ∉ r.router.recent.order.map Prod.fst := by
    intro hmem
    obtain ⟨l, hlj, haccepted, hnone⟩ := exists_acceptedAt hstate hmem
    obtain ⟨before, -, -, -, hbefore, -⟩ := of_acceptedAt haccepted
    rcases Nat.lt_trichotomy l k with hlk | rfl | hkl
    · exact hnone k hlk hkj hstart
    · exact not_startsAt hbefore hstart
    · exact hfirst l hkl hlj haccepted
  have hinsert : (r.router.recent.insert p.id now).1 = true := by
    rw [RecentIds.insert_of_not_mem (recent_sound hstate).1
      fun hmem => hnew (RecentIds.mem_of_mem_expire hmem)]
  simp only [acceptedAt, hstate, hj, hp, hinsert, if_true]

/-! ## What is delivered -/

/-- A step about a packet that is new delivers it, unless it comes from the relay's own
application. -/
theorem messagesAt_of_accepted (hp : packetAt node config run j = some p)
    (hnew : acceptedAt node config run j = some p.id) :
    (IsOwnAt run j ∧ messagesAt node config run j = []) ∨
      (¬ IsOwnAt run j ∧
        messagesAt node config run j = Router.delivered (Router.handle p node)) := by
  obtain ⟨r, now, s, q, hstate, hj, hq, hid, hinsert⟩ := of_acceptedAt hnew
  simp only [packetAt, hstate, hj, hq, Option.some.injEq] at hp
  subst hp
  have hown : IsOwnAt run j ↔ s.task.isOwn = true := by simp [IsOwnAt, hj]
  rw [hown]
  simp only [messagesAt, hj, hstate, messages_step, Router.perform_packet hq, hinsert, if_true,
    Task.response, router_node hstate]
  cases s.task.isOwn with
  | true => exact Or.inl ⟨rfl, Router.delivered_transmit q⟩
  | false => exact Or.inr ⟨Bool.false_ne_true, rfl⟩

/-- A step that delivers is about a packet that is new. -/
theorem accepted_of_messagesAt (h : messagesAt node config run j ≠ []) :
    ∃ p, packetAt node config run j = some p ∧ acceptedAt node config run j = some p.id := by
  cases hj : run[j]? with
  | none => simp [messagesAt, hj] at h
  | some x =>
      obtain ⟨now, s⟩ := x
      simp only [messagesAt, hj] at h
      cases hstate : stateAt node config run j with
      | none => exact absurd (hstate ▸ (step_of_stopped node config now s).1) h
      | some r =>
          rw [hstate, messages_step] at h
          cases hp : s.task.packet? r.router with
          | none => exact absurd (congrArg Router.delivered (Router.perform_none hp now).1) h
          | some p =>
              refine ⟨p, by simp only [packetAt, hstate, hj, hp], ?_⟩
              cases hinsert : (r.router.recent.insert p.id now).1 with
              | true => simp only [acceptedAt, packetAt, hstate, hj, hp, hinsert, if_true]
              | false =>
                  rw [Router.perform_packet hp, hinsert] at h
                  exact absurd rfl h

/-- **A relay delivers a packet once in each connection.** What it delivers is a packet that is new
to it and not of its own application. Within one connection a packet, also one of its own, is not
new again until it may be forgotten. But to a connection each packet is new that it has not handled
itself: if it is not of the own application it is handled, whatever was handled before. -/
theorem delivered_once_per_connection (node : String) (config : MeshConfig)
    (run : List (Instant × RelayStep)) :
    (∀ j, messagesAt node config run j ≠ [] → ∃ p, packetAt node config run j = some p ∧
      acceptedAt node config run j = some p.id ∧ ¬ IsOwnAt run j) ∧
    (∀ i j id, i < j → acceptedAt node config run i = some id →
      acceptedAt node config run j = some id →
      (∃ k, i < k ∧ k < j ∧ StartsAt node config run k) ∨ MayForget node config run id i j) ∧
    ∀ k j p, StartsAt node config run k → k < j → packetAt node config run j = some p →
      (∀ l, k < l → l < j → acceptedAt node config run l ≠ some p.id) → ¬ IsOwnAt run j →
      messagesAt node config run j = Router.delivered (Router.handle p node) := by
  refine ⟨?_, fun i j id hij hi hj => startsAt_or_mayForget hij hi hj, ?_⟩
  · intro j h
    obtain ⟨p, hp, hnew⟩ := accepted_of_messagesAt h
    refine ⟨p, hp, hnew, fun hown => ?_⟩
    rcases messagesAt_of_accepted hp hnew with ⟨-, hnone⟩ | ⟨hnot, -⟩
    · exact h hnone
    · exact hnot hown
  · intro k j p hstart hkj hp hfirst hown
    have hnew := acceptedAt_of_startsAt hstart hkj hp hfirst
    rcases messagesAt_of_accepted hp hnew with ⟨hyes, -⟩ | ⟨-, hdelivered⟩
    · exact absurd hyes hown
    · exact hdelivered

/-- A packet of another node. -/
def joinPacket : Packet :=
  Router.packetFor (.numbered 7) 0 ⟨"b", .join⟩ (.start "b" .standard)

/-- Bytes of a packet that arrive. -/
def arrival (p : Packet) : RelayStep := .event (.inbound "b" (p.toDatagram.toOption.getD []))

/-- A packet arrives twice and the relay sends a message that comes back, with a new connection
between or without one, all at one time. -/
def arrivals (between : List RelayStep) : List (Instant × RelayStep) :=
  ([.connect, arrival joinPacket, .event (.outbound (.numbered 8) 0 ⟨"a", .bye⟩)] ++ between ++
    [arrival joinPacket, arrival
      (Router.packetFor (.numbered 8) 0 ⟨"a", .bye⟩ (.start "a" .standard))]).map ((0, ·))

/-- With no time passing, only other packets make the relay forget. -/
theorem room_of_mayForget {between : List RelayStep}
    (h : MayForget "a" .standard (arrivals between) id i j) :
    max MeshConfig.standard.seenCapacity 1 ≤
      ((acceptedBetween "a" .standard (arrivals between) i j).toFinset.erase id).card := by
  have hreading : ∀ (k : Nat) (t : Instant),
      (arrivals between)[k]?.map (·.1) = some t → t = 0 := by
    intro k t ht
    rw [arrivals, List.getElem?_map, Option.map_map, Option.map_eq_some_iff] at ht
    obtain ⟨s, -, rfl⟩ := ht
    rfl
  rcases h with h | ⟨k, t, now, -, -, ht, hnow, hlate⟩ | h
  · exact absurd h (by decide)
  · rw [hreading i t ht, hreading k now hnow] at hlate
    exact absurd hlate (by decide)
  · exact h

/-- In one connection the packet is delivered only once. -/
theorem delivered_once_without_reconnect :
    messagesAt "a" .standard (arrivals []) 1 = [⟨"b", .join⟩] ∧
      acceptedAt "a" .standard (arrivals []) 3 ≠ some joinPacket.id := by
  refine ⟨by decide +kernel, fun hagain => ?_⟩
  obtain ⟨-, honce, -⟩ := delivered_once_per_connection "a" .standard (arrivals [])
  have hfirst : acceptedAt "a" .standard (arrivals []) 1 = some joinPacket.id := by decide +kernel
  rcases honce 1 3 _ (by decide) hfirst hagain with ⟨k, h1, h3, hstart⟩ | h
  · obtain rfl : k = 2 := by omega
    exact absurd hstart.1 (by decide +kernel)
  · exact absurd (room_of_mayForget h) (by decide +kernel)

/-- **A new connection delivers again.** The same packet is delivered twice, and a message of the
relay's own application is delivered back to it, though no time has passed and there is room for all
the packets. -/
theorem reconnected_relay_delivers_again :
    let run := arrivals [.disconnect, .connect]
    messagesAt "a" .standard run 1 = [⟨"b", .join⟩] ∧
      messagesAt "a" .standard run 5 = [⟨"b", .join⟩] ∧
      messagesAt "a" .standard run 6 = [⟨"a", .bye⟩] ∧
      ¬ MayForget "a" .standard run joinPacket.id 1 5 ∧
      ¬ MayForget "a" .standard run (.numbered 8) 2 6 :=
  ⟨by decide +kernel, by decide +kernel, by decide +kernel,
    fun h => absurd (room_of_mayForget h) (by decide +kernel),
    fun h => absurd (room_of_mayForget h) (by decide +kernel)⟩

end Relay

end PeerCall.Mesh
