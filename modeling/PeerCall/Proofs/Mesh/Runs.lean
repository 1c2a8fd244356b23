import PeerCall.Proofs.Mesh.Handling

/-!
# Runs of a network

A run is a list of events, each a step of one router at a reading of the clock. A frame is known by
its place among all frames ever transmitted; frames are only added, so the step that transmitted a
frame is known for good. Seen from one router, a run of the network is a run of that router.
-/
namespace PeerCall.Mesh.Network

open Router (Task)

/-- A step of one router. -/
structure Event where
  router : Nat
  now : Instant
  step : Step

/-- A step of a network as the task that its router gets. A frame that does not exist is as good as
no bytes. -/
def Step.task (frames : List Bytes) : Step → Task
  | .originate id timestamp m => .originate id timestamp m
  | .broadcast p => .broadcast p
  | .bytes datagram => .datagram datagram
  | .feed k => .datagram (frames[k]?.getD [])
  | .sweep => .sweep

theorem act_eq_perform (frames : List Bytes) (now : Instant) (r : Router) (s : Step) :
    act frames now r s = r.perform now (s.task frames) := by
  cases s with
  | feed k =>
      cases hk : frames[k]? with
      | some frame => simp [act, Step.task, Router.perform, hk]
      | none =>
          have hempty : Packet.ofDatagram [] = .error .needMore := rfl
          simp [act, Step.task, Router.perform, Router.onBytes, hk, hempty]
  | _ => rfl

@[simp] theorem transmitted_append (as bs : List RelayAction) :
    transmitted (as ++ bs) = transmitted as ++ transmitted bs := List.filterMap_append

section
variable (start : Network) (run : List Event)

/-- The network after the first steps of a run. -/
def stateAt (j : Nat) : Network :=
  (run.take j).foldl (fun n e => (n.step e.router e.now e.step).2) start

/-- What a step does. -/
def actionsAt (j : Nat) : List RelayAction :=
  match run[j]? with
  | some e => ((stateAt start run j).step e.router e.now e.step).1
  | none => []

/-- A frame is among those that a step transmits. -/
def TransmitsAt (j k : Nat) : Prop :=
  (stateAt start run j).frames.length ≤ k ∧ k < (stateAt start run (j + 1)).frames.length

end

variable {start : Network} {run : List Event} {e : Event} {r : Router} {i j k : Nat}

theorem stateAt_succ (hj : run[j]? = some e) :
    stateAt start run (j + 1) = ((stateAt start run j).step e.router e.now e.step).2 := by
  simp [stateAt, List.take_add_one, hj]

theorem stateAt_succ_of_none (hj : run[j]? = none) :
    stateAt start run (j + 1) = stateAt start run j := by
  simp [stateAt, List.take_add_one, hj]

/-- A step of a router that exists. -/
theorem step_eq {n : Network} {now : Instant} {s : Step} (hr : n.routers[i]? = some r) :
    n.step i now s =
      ((r.perform now (s.task n.frames)).1,
        ⟨n.routers.set i (r.perform now (s.task n.frames)).2,
          n.frames ++ transmitted (r.perform now (s.task n.frames)).1⟩) := by
  simp only [step, hr, act_eq_perform]

theorem step_of_none {n : Network} {now : Instant} {s : Step} (hr : n.routers[i]? = none) :
    n.step i now s = ([], n) := by
  simp only [step, hr]

/-- The frames of a step are added behind those before. -/
theorem frames_succ (start : Network) (run : List Event) (j : Nat) :
    (stateAt start run (j + 1)).frames =
      (stateAt start run j).frames ++ transmitted (actionsAt start run j) := by
  cases hj : run[j]? with
  | none => simp [stateAt_succ_of_none hj, actionsAt, hj, transmitted]
  | some e =>
      rw [stateAt_succ hj]
      simp only [actionsAt, hj]
      cases hr : (stateAt start run j).routers[e.router]? with
      | none => simp [step_of_none hr, transmitted]
      | some r => rw [step_eq hr]

/-- What a step does is what its router does about the task. -/
theorem actionsAt_eq (hj : run[j]? = some e)
    (hr : (stateAt start run j).routers[e.router]? = some r) :
    actionsAt start run j =
      (r.perform e.now (e.step.task (stateAt start run j).frames)).1 := by
  simp only [actionsAt, hj, step_eq hr]

theorem actionsAt_of_none (hj : run[j]? = some e)
    (hr : (stateAt start run j).routers[e.router]? = none) : actionsAt start run j = [] := by
  simp only [actionsAt, hj, step_of_none hr]

/-! ## One router's part -/

section
variable (start : Network) (run : List Event)

/-- The tasks that a router got in the first steps of a run, with their readings of the clock. -/
def tasksOf (i : Nat) : Nat → List (Instant × Task)
  | 0 => []
  | j + 1 => tasksOf i j ++ match run[j]? with
    | some e =>
      if e.router = i then [(e.now, e.step.task (stateAt start run j).frames)] else []
    | none => []

end

theorem tasksOf_succ_own (hj : run[j]? = some e) :
    tasksOf start run e.router (j + 1) =
      tasksOf start run e.router j ++ [(e.now, e.step.task (stateAt start run j).frames)] := by
  simp [tasksOf, hj]

theorem tasksOf_succ_other (h : ∀ e, run[j]? = some e → e.router ≠ i) :
    tasksOf start run i (j + 1) = tasksOf start run i j := by
  cases hj : run[j]? with
  | none => simp [tasksOf, hj]
  | some e => simp [tasksOf, hj, h e hj]

/-- Later tasks stand behind earlier ones. -/
theorem prefix_tasksOf (hjk : j ≤ k) : tasksOf start run i j <+: tasksOf start run i k := by
  induction k, hjk using Nat.le_induction with
  | base => exact List.prefix_refl _
  | succ k _ ih => exact ih.trans (List.prefix_append _ _)

/-- **Seen from one router, a run of the network is a run of that router.** -/
theorem router_stateAt (run : List Event) (hi : start.routers[i]? = some r) (j : Nat) :
    (stateAt start run j).routers[i]? =
      some (Router.stateAt r (tasksOf start run i j) (tasksOf start run i j).length) := by
  have hall : ∀ tasks, Router.stateAt r tasks tasks.length =
      tasks.foldl (fun r s => (r.perform s.1 s.2).2) r := by
    intro tasks
    rw [Router.stateAt, List.take_length]
  simp only [hall]
  induction j with
  | zero => simpa [stateAt, tasksOf] using hi
  | succ j ih =>
      cases hj : run[j]? with
      | none =>
          have hother : ∀ e, run[j]? = some e → e.router ≠ i := by
            intro e he
            rw [hj] at he
            cases he
          rw [stateAt_succ_of_none hj, tasksOf_succ_other hother, ih]
      | some e =>
          rw [stateAt_succ hj]
          by_cases hown : e.router = i
          · subst hown
            have hlt : e.router < (stateAt start run j).routers.length :=
              (List.getElem?_eq_some_iff.mp ih).1
            rw [step_eq ih, List.getElem?_set_self hlt, tasksOf_succ_own hj, List.foldl_append]
            rfl
          · have hother : ∀ e, run[j]? = some e → e.router ≠ i := by
              intro e' he'
              rw [hj] at he'
              cases he'
              exact hown
            rw [tasksOf_succ_other hother, ← ih]
            cases hr : (stateAt start run j).routers[e.router]? with
            | none => rw [step_of_none hr]
            | some r' => rw [step_eq hr, List.getElem?_set_ne hown]

theorem length_routers (start : Network) (run : List Event) (j : Nat) :
    (stateAt start run j).routers.length = start.routers.length := by
  induction j with
  | zero => rfl
  | succ j ih =>
      cases hj : run[j]? with
      | none => rw [stateAt_succ_of_none hj, ih]
      | some e =>
          rw [stateAt_succ hj]
          cases hr : (stateAt start run j).routers[e.router]? with
          | none => rw [step_of_none hr, ih]
          | some r => rw [step_eq hr, List.length_set, ih]

/-- A run changes neither a router's name nor its budget. -/
theorem router_frame (hr : (stateAt start run j).routers[i]? = some r) :
    ∃ s, start.routers[i]? = some s ∧ r.node = s.node ∧ r.ttl = s.ttl := by
  have hlt : i < start.routers.length := by
    rw [← length_routers start run j]
    exact (List.getElem?_eq_some_iff.mp hr).1
  refine ⟨start.routers[i], List.getElem?_eq_getElem hlt, ?_⟩
  have hstate := router_stateAt run (List.getElem?_eq_getElem hlt) j
  rw [hr, Option.some.injEq] at hstate
  rw [hstate]
  exact Router.stateAt_frame _ _ _

end PeerCall.Mesh.Network
