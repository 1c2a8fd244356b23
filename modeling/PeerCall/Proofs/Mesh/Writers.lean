import PeerCall.Proofs.Entries
import PeerCall.Proofs.Mesh.Connections

/-!
# What an event does to the writers

An event may make the relay transmit a frame, which each active writer queues if it has room, and a
new link adds a writer. Which writers are active, and all else that the relay does, does not depend
on what is in the queues.

A link's writer is the latest that its neighbour got. So of a neighbour's writers the last one
alone is ever active.
-/
namespace PeerCall.Mesh

deriving instance DecidableEq for RelayEvent

/-- The writers that an event adds. -/
def RelayEvent.newWriters : RelayEvent → List Writer
  | .linked neighbor => [⟨some neighbor, [], none⟩]
  | _ => []

/-- Frames are queued, each to every active writer. -/
def queueAll (active : List Nat) (frames : List Bytes) (ws : List Writer) : List Writer :=
  frames.foldl (fun ws frame => active.foldl (fun ws i => ws.modify i (.enqueue frame)) ws) ws

namespace Relay

variable {r r' : Relay} {now : Instant} {e : RelayEvent} {n : String} {i j : Nat}

/-- The links after an event. -/
def linksAfter (r : Relay) : RelayEvent → List (String × Nat)
  | .linked neighbor => r.links.filter (·.1 ≠ neighbor) ++ [(neighbor, r.writers.length)]
  | .linkClosed neighbor => r.links.filter (·.1 ≠ neighbor)
  | _ => r.links

/-- The frames that an event makes the relay transmit. -/
def framesOf (now : Instant) (r : Relay) (e : RelayEvent) : List Bytes :=
  Network.transmitted (r.router.perform now e.task).1

/-- A relay apart from its writers. -/
def bare (r : Relay) : Relay := { r with writers := [] }

/-- What is transmitted, and to which writers, does not depend on the writers. -/
theorem framesOf_bare (now : Instant) (r : Relay) (e : RelayEvent) :
    r.bare.framesOf now e = r.framesOf now e := rfl

theorem activeWriters_bare (r : Relay) : r.bare.activeWriters = r.activeWriters := rfl

/-! ## What an event does to links and writers -/

/-- Of all actions of the router only those that transmit concern the writers. -/
theorem applyAll_eq (actions : List RelayAction) (r : Relay) :
    (applyAll actions r).2 =
      { r with writers := queueAll r.activeWriters (Network.transmitted actions) r.writers } := by
  induction actions generalizing r with
  | nil => rfl
  | cons a actions ih =>
      cases a with
      | deliver m => exact ih r
      | transmit frame => exact ih (r.transmit frame)

theorem links_handle (now : Instant) (r : Relay) (e : RelayEvent) :
    (r.handle now e).2.links = r.linksAfter e := by
  cases e with
  | outbound id timestamp m => simp [handle, applyAll_eq, linksAfter]
  | inbound neighbor bytes =>
      simp only [handle, applyAll_eq, linksAfter]
      split <;> rfl
  | discovered neighbor =>
      simp only [handle, linksAfter]
      split <;> rfl
  | rescan scans =>
      simp only [handle, linksAfter]
      split
      · rfl
      · split <;> rfl
  | sweep =>
      obtain ⟨accepted, state, hswept⟩ := exists_sweep_eq now r
      rw [handle, hswept]
      rfl
  | linked _ | linkFailed _ | linkClosed _ | scanEnded => rfl

theorem framesOf_of_idle (h : e.task = .datagram []) (now : Instant) (r : Relay) :
    r.framesOf now e = [] := by
  rw [framesOf, h]
  rfl

/-- What does not concern the router queues nothing. -/
theorem writers_handle_of_idle (h : e.task = .datagram [])
    (hwriters : (r.handle now e).2.writers = r.writers ++ e.newWriters) :
    (r.handle now e).2.writers =
      queueAll r.activeWriters (r.framesOf now e) r.writers ++ e.newWriters := by
  rw [framesOf_of_idle h, hwriters]
  rfl

theorem writers_handle (now : Instant) (r : Relay) (e : RelayEvent) :
    (r.handle now e).2.writers =
      queueAll r.activeWriters (r.framesOf now e) r.writers ++ e.newWriters := by
  cases e with
  | outbound id timestamp m =>
      simp [handle, applyAll_eq, framesOf, RelayEvent.newWriters, RelayEvent.task, activeWriters,
        Router.perform]
  | inbound neighbor bytes =>
      have hkept : ∀ r' : Relay, r' = (if r.isLinked neighbor then r else r.accept neighbor now) →
          r'.router = r.router ∧ r'.activeWriters = r.activeWriters ∧ r'.writers = r.writers := by
        rintro r' rfl
        split <;> exact ⟨rfl, rfl, rfl⟩
      obtain ⟨hrouter, hactive, hwriters⟩ := hkept _ rfl
      simp only [handle, applyAll_eq, framesOf, RelayEvent.newWriters, RelayEvent.task,
        Router.perform, List.append_nil, hrouter]
      rw [← hactive, ← hwriters]
      rfl
  | discovered neighbor =>
      apply writers_handle_of_idle rfl
      simp only [handle, RelayEvent.newWriters, List.append_nil]
      split <;> rfl
  | rescan scans =>
      apply writers_handle_of_idle rfl
      simp only [handle, RelayEvent.newWriters, List.append_nil]
      split
      · rfl
      · split <;> rfl
  | sweep =>
      have hframes : r.framesOf now .sweep = [] := rfl
      obtain ⟨accepted, state, hswept⟩ := exists_sweep_eq now r
      rw [hframes, handle, hswept]
      exact (List.append_nil _).symm
  | linked neighbor => exact writers_handle_of_idle rfl rfl
  | linkFailed neighbor | linkClosed neighbor | scanEnded =>
      exact writers_handle_of_idle rfl (List.append_nil _).symm

/-- A relay's reaction depends on how many writers it has, but not on what they do. -/
theorem bare_handle (hbare : r.bare = r'.bare) (hlength : r.writers.length = r'.writers.length)
    (now : Instant) (e : RelayEvent) :
    (r.handle now e).2.bare = (r'.handle now e).2.bare := by
  obtain ⟨ws', rfl⟩ : ∃ ws', r' = { r with writers := ws' } := by
    refine ⟨r'.writers, ?_⟩
    have h : { r'.bare with writers := r'.writers } = { r.bare with writers := r'.writers } := by
      rw [hbare]
    exact h
  have hlinked : ∀ neighbor, isLinked neighbor { r with writers := ws' } = r.isLinked neighbor :=
    fun _ => rfl
  cases e with
  | outbound id timestamp m => simp [handle, applyAll_eq, bare]
  | inbound neighbor bytes =>
      cases h : r.isLinked neighbor <;>
        simp [handle, applyAll_eq, bare, hlinked, h, accept, updateState]
  | discovered neighbor =>
      simp only [handle, hlinked]
      by_cases h : (r.isLinked neighbor || r.pending.contains neighbor) = true
      · rw [if_pos h, if_pos h]
        rfl
      · rw [if_neg h, if_neg h]
        rfl
  | rescan scans =>
      simp only [handle]
      by_cases h : r.scanning = true
      · rw [if_pos h, if_pos h]
        rfl
      · rw [if_neg h, if_neg h]
        cases scans <;> rfl
  | sweep =>
      simp only [handle, sweep]
      by_cases h : (writtenWithin now (acceptedFor? r.config) r.accepted).length =
          r.accepted.length
      · rw [if_pos h, if_pos h]
        rfl
      · rw [if_neg h, if_neg h]
        rfl
  | linked neighbor =>
      simp only [handle, addLink, updateState, bare]
      rw [hlength]
  | linkFailed _ | linkClosed _ | scanEnded => rfl

end Relay

/-! ## Queues -/

namespace Writer

variable {w : Writer}

@[simp] theorem target_enqueue (frame : Bytes) (w : Writer) :
    (w.enqueue frame).target = w.target := by
  rw [enqueue]
  split <;> rfl

theorem waiting_enqueue (frame : Bytes) (w : Writer) : (w.enqueue frame).waiting =
    if w.waiting.length < queueCapacity then w.waiting ++ [frame] else w.waiting := by
  rw [enqueue]
  split <;> rfl

/-- A queue never holds more than it has room for. -/
theorem length_waiting_enqueue (h : w.waiting.length ≤ queueCapacity) (frame : Bytes) :
    (w.enqueue frame).waiting.length ≤ queueCapacity := by
  rw [waiting_enqueue]
  split
  · simp only [List.length_append, List.length_singleton]
    omega
  · exact h

end Writer

section
variable {active : List Nat} {frames : List Bytes} {ws ws' : List Writer} {f : Writer → Writer}
  {i : Nat}

/-- What is kept where one writer queues one frame is kept by all. -/
theorem queueAll_induction {P : List Writer → Prop} (hws : P ws)
    (hmodify : ∀ ws i frame, i ∈ active → P ws → P (ws.modify i (.enqueue frame))) :
    P (queueAll active frames ws) := by
  have hfold : ∀ (is : List Nat) (frame : Bytes) (ws : List Writer), (∀ i ∈ is, i ∈ active) →
      P ws → P (is.foldl (fun ws i => ws.modify i (.enqueue frame)) ws) := by
    intro is frame
    induction is with
    | nil => exact fun ws _ hws => hws
    | cons i is ih =>
        intro ws his hws
        exact ih _ (fun j hj => his j (List.mem_cons_of_mem i hj))
          (hmodify ws i frame (his i List.mem_cons_self) hws)
  rw [queueAll]
  induction frames generalizing ws with
  | nil => exact hws
  | cons frame frames ih => exact ih (hfold active frame ws (fun _ hi => hi) hws)

theorem getElem?_foldl_modify (hnodup : active.Nodup) (ws : List Writer) (i : Nat) :
    (active.foldl (fun ws i => ws.modify i f) ws)[i]? =
      if i ∈ active then ws[i]?.map f else ws[i]? := by
  induction active generalizing ws with
  | nil => rfl
  | cons j active ih =>
      obtain ⟨hj, hnodup⟩ := List.nodup_cons.mp hnodup
      rw [List.foldl_cons, ih hnodup, List.getElem?_modify]
      by_cases hij : i = j
      · subst hij
        simp [hj]
      · have hji : j ≠ i := Ne.symm hij
        simp [hij, hji]

/-- A frame is queued by each active writer once. -/
theorem getElem?_queueAll (hnodup : active.Nodup) (frame : Bytes) (ws : List Writer) (i : Nat) :
    (queueAll active [frame] ws)[i]? =
      if i ∈ active then ws[i]?.map (.enqueue frame) else ws[i]? :=
  getElem?_foldl_modify hnodup ws i

theorem targets_queueAll : (queueAll active frames ws).map (·.target) = ws.map (·.target) := by
  apply queueAll_induction (P := fun ws' => ws'.map (·.target) = ws.map (·.target)) rfl
  intro ws' i frame _ h
  rw [← h]
  apply List.ext_getElem?
  intro j
  simp only [List.getElem?_map, List.getElem?_modify]
  cases ws'[j]? with
  | none => rfl
  | some w => by_cases hij : i = j <;> simp [hij]

theorem length_queueAll : (queueAll active frames ws).length = ws.length := by
  have htargets : (queueAll active frames ws).map (·.target) = ws.map (·.target) := targets_queueAll
  simpa using congrArg List.length htargets

/-- Whoever is not active queues nothing. -/
theorem getElem?_queueAll_of_not_mem (hi : i ∉ active) :
    (queueAll active frames ws)[i]? = ws[i]? := by
  apply queueAll_induction (P := fun ws' => ws'[i]? = ws[i]?) rfl
  intro ws' j frame hj h
  have hne : j ≠ i := by
    rintro rfl
    exact hi hj
  rw [← h, List.getElem?_modify]
  simp [hne]

/-- What one writer queues does not depend on the others. -/
theorem getElem?_queueAll_congr (h : ws[i]? = ws'[i]?) :
    (queueAll active frames ws)[i]? = (queueAll active frames ws')[i]? := by
  have hfold : ∀ (is : List Nat) (frame : Bytes) (ws ws' : List Writer), ws[i]? = ws'[i]? →
      (is.foldl (fun ws i => ws.modify i (.enqueue frame)) ws)[i]? =
        (is.foldl (fun ws i => ws.modify i (.enqueue frame)) ws')[i]? := by
    intro is frame
    induction is with
    | nil => exact fun ws ws' h => h
    | cons j is ih =>
        intro ws ws' h
        apply ih
        rw [List.getElem?_modify, List.getElem?_modify, h]
  rw [queueAll]
  induction frames generalizing ws ws' with
  | nil => exact h
  | cons frame frames ih => exact ih (hfold active frame ws ws' h)

end

namespace Relay

variable {r r' : Relay} {now : Instant} {e : RelayEvent} {n : String} {i j : Nat}

/-! ## Links and their writers -/

/-- Whom the writers write to. -/
def targets (r : Relay) : List (Option String) := r.writers.map (·.target)

/-- Whether a writer writes to a neighbour. -/
def serves (n : String) (i : Nat) (r : Relay) : Bool := r.targets[i]? = some (some n)

/-- What waits for a writer. -/
def waitingAt (i : Nat) (r : Relay) : List Bytes := (r.writers[i]?.map (·.waiting)).getD []

theorem waitingAt_of_some {w : Writer} (h : r.writers[i]? = some w) :
    r.waitingAt i = w.waiting := by
  simp [waitingAt, h]

/-- An event makes the relay transmit one frame at most. -/
theorem length_framesOf (now : Instant) (r : Relay) (e : RelayEvent) :
    (r.framesOf now e).length ≤ 1 := by
  cases hp : e.task.packet? r.router with
  | none => simp [framesOf, (Router.perform_none hp now).1, Network.transmitted]
  | some p =>
      rw [framesOf, Router.perform_packet hp]
      split
      · exact (Router.length_response_le r.router.node p e.task).2
      · exact Nat.zero_le 1

theorem framesOf_cases (now : Instant) (r : Relay) (e : RelayEvent) :
    r.framesOf now e = [] ∨ ∃ frame, r.framesOf now e = [frame] := by
  have hlength := length_framesOf now r e
  cases h : r.framesOf now e with
  | nil => exact Or.inl rfl
  | cons frame frames =>
      rw [h] at hlength
      cases frames with
      | nil => exact Or.inr ⟨frame, rfl⟩
      | cons frame' frames => simp at hlength

theorem targets_handle (now : Instant) (r : Relay) (e : RelayEvent) :
    (r.handle now e).2.targets = r.targets ++ e.newWriters.map (·.target) := by
  rw [targets, writers_handle, List.map_append, targets_queueAll]
  rfl

/-- No writer ever goes. -/
theorem length_le_handle (now : Instant) (r : Relay) (e : RelayEvent) :
    r.writers.length ≤ (r.handle now e).2.writers.length := by
  rw [writers_handle, List.length_append, length_queueAll]
  exact Nat.le_add_right _ _

theorem lt_of_serves (h : r.serves n i = true) : i < r.writers.length := by
  simp only [serves, decide_eq_true_eq] at h
  have hlt := (List.getElem?_eq_some_iff.mp h).1
  simpa [targets] using hlt

theorem targets_set {w w' : Writer} (hi : r.writers[i]? = some w)
    (htarget : w'.target = w.target) :
    targets { r with writers := r.writers.set i w' } = r.targets := by
  apply List.ext_getElem?
  intro j
  simp only [targets, List.getElem?_map, List.getElem?_set]
  by_cases hij : i = j
  · obtain ⟨hlt, rfl⟩ := List.getElem?_eq_some_iff.mp hi
    simp [← hij, hlt, htarget]
  · simp [hij]

/-- Each link has a writer for its neighbour, the latest that the neighbour got, and notifications
have the first one. A neighbour has one link at most, and no queue is overfull. -/
structure Wired (r : Relay) : Prop where
  notifier : r.targets[0]? = some none
  served : ∀ n i, (n, i) ∈ r.links → r.serves n i = true
  latest : ∀ n i j, (n, i) ∈ r.links → r.serves n j = true → j ≤ i
  names : (r.links.map (·.1)).Nodup
  room : ∀ w ∈ r.writers, w.waiting.length ≤ queueCapacity

theorem wired_start (node : String) (config : MeshConfig) : Wired (start node config) where
  notifier := rfl
  served _ _ h := absurd h List.not_mem_nil
  latest _ _ _ h := absurd h List.not_mem_nil
  names := List.nodup_nil
  room w hw := by
    rw [List.mem_singleton.mp hw]
    exact Nat.zero_le _

namespace Wired

/-- A writer writes for one neighbour at most. -/
theorem eq_of_serves {m : String} (h : r.serves n i = true) (h' : r.serves m i = true) : n = m := by
  simp only [serves, decide_eq_true_eq] at h h'
  simpa [h] using h'

theorem lookup_eq_some_iff (h : Wired r) : r.links.lookup n = some i ↔ (n, i) ∈ r.links :=
  lookup_eq_some_iff_mem h.names

theorem not_serves_zero (h : Wired r) : r.serves n 0 = false := by simp [serves, h.notifier]

/-- A writer that serves a neighbour gets frames exactly if it is that of the neighbour's link. -/
theorem mem_activeWriters_iff (h : Wired r) (hserves : r.serves n i = true) :
    i ∈ r.activeWriters ↔ r.links.lookup n = some i := by
  rw [h.lookup_eq_some_iff, activeWriters, List.mem_cons]
  constructor
  · rintro (rfl | hmem)
    · simp [h.not_serves_zero] at hserves
    · obtain ⟨⟨m, j⟩, hlink, rfl⟩ := List.mem_map.mp hmem
      rwa [eq_of_serves hserves (h.served m j hlink)]
  · intro hlink
    exact Or.inr (List.mem_map_of_mem hlink)

/-- No writer is active twice. -/
theorem nodup_activeWriters (h : Wired r) : r.activeWriters.Nodup := by
  refine List.nodup_cons.mpr ⟨?_, ?_⟩
  · intro hmem
    obtain ⟨⟨m, j⟩, hlink, hj⟩ := List.mem_map.mp hmem
    obtain rfl : j = 0 := hj
    have hserves := h.served m 0 hlink
    simp [h.not_serves_zero] at hserves
  · refine List.Nodup.map_on ?_ h.names.of_map
    rintro ⟨m, j⟩ hm ⟨m', j'⟩ hm' hj
    cases hj
    rw [eq_of_serves (h.served m j hm) (h.served m' j hm')]

theorem room_queueAll {active : List Nat} {frames : List Bytes} {ws : List Writer}
    (h : ∀ w ∈ ws, w.waiting.length ≤ queueCapacity) :
    ∀ w ∈ queueAll active frames ws, w.waiting.length ≤ queueCapacity := by
  apply queueAll_induction (P := fun ws => ∀ w ∈ ws, w.waiting.length ≤ queueCapacity) h
  intro ws i frame _ hws w hw
  obtain ⟨j, hj⟩ := List.getElem?_of_mem hw
  rw [List.getElem?_modify] at hj
  obtain ⟨v, hv, rfl⟩ := Option.map_eq_some_iff.mp hj
  have hroom := hws v (List.mem_of_getElem? hv)
  by_cases hij : i = j
  · simpa [hij] using Writer.length_waiting_enqueue hroom frame
  · simpa [hij] using hroom

/-- What serves a neighbour goes on to do so, and an event adds nobody who does but its own new
writers. -/
theorem serves_handle (hi : i < r.writers.length) (now : Instant) (e : RelayEvent) :
    (r.handle now e).2.serves n i = r.serves n i := by
  have hlt : i < r.targets.length := by simpa [targets] using hi
  simp only [Relay.serves, targets_handle, List.getElem?_append_left hlt]

/-- Most events add no writer and no link. -/
theorem handle_of_sublist (h : Wired r) (now : Instant) (hlinks : (r.linksAfter e).Sublist r.links)
    (hnew : e.newWriters = []) : Wired (r.handle now e).2 := by
  have htargets : (r.handle now e).2.targets = r.targets := by simp [targets_handle, hnew]
  have hserves : ∀ n i, (r.handle now e).2.serves n i = r.serves n i := by
    intro n i
    simp only [serves, htargets]
  refine ⟨htargets ▸ h.notifier, ?_, ?_, ?_, ?_⟩
  · intro n i hlink
    rw [links_handle] at hlink
    rw [hserves]
    exact h.served n i (hlinks.subset hlink)
  · intro n i j hlink hj
    rw [links_handle] at hlink
    rw [hserves] at hj
    exact h.latest n i j (hlinks.subset hlink) hj
  · rw [links_handle]
    exact h.names.sublist (hlinks.map _)
  · rw [writers_handle, hnew, List.append_nil]
    exact room_queueAll h.room

/-- A new link gets a new writer. -/
theorem handle_linked (h : Wired r) (now : Instant) (m : String) :
    Wired (r.handle now (.linked m)).2 := by
  have htargets : (r.handle now (.linked m)).2.targets = r.targets ++ [some m] :=
    targets_handle now r (.linked m)
  have hlinks : (r.handle now (.linked m)).2.links =
      r.links.filter (·.1 ≠ m) ++ [(m, r.writers.length)] := rfl
  have hserves : ∀ n i, (r.handle now (.linked m)).2.serves n i = true ↔
      r.serves n i = true ∨ (n = m ∧ i = r.writers.length) := by
    intro n i
    have hlength : r.targets.length = r.writers.length := List.length_map _
    rcases Nat.lt_trichotomy i r.writers.length with hlt | heq | hgt
    · have hne : i ≠ r.writers.length := Nat.ne_of_lt hlt
      simp [serves_handle hlt, hne]
    · simp [heq, serves, htargets, ← hlength, eq_comm]
    · have hold : r.targets[i]? = none := List.getElem?_eq_none (by omega)
      have hall : (r.targets ++ [some m])[i]? = none := by
        apply List.getElem?_eq_none
        rw [List.length_append, List.length_singleton]
        omega
      have hne : i ≠ r.writers.length := Nat.ne_of_gt hgt
      simp [serves, htargets, hold, hall, hne]
  refine ⟨?_, ?_, ?_, ?_, ?_⟩
  · rw [htargets, List.getElem?_append_left (List.getElem?_eq_some_iff.mp h.notifier).1]
    exact h.notifier
  · intro n i hlink
    rw [hserves]
    rw [hlinks, List.mem_append, List.mem_filter, List.mem_singleton, Prod.mk.injEq] at hlink
    exact hlink.imp_left fun hold => h.served n i hold.1
  · intro n i j hlink hj
    rw [hlinks, List.mem_append, List.mem_filter, List.mem_singleton, Prod.mk.injEq] at hlink
    rw [hserves] at hj
    rcases hlink with ⟨hold, hne⟩ | ⟨-, rfl⟩
    · rcases hj with hj | ⟨rfl, -⟩
      · exact h.latest n i j hold hj
      · simp at hne
    · rcases hj with hj | ⟨-, rfl⟩
      · exact Nat.le_of_lt (lt_of_serves hj)
      · exact Nat.le_refl _
  · rw [hlinks]
    exact nodup_replaced h.names m r.writers.length
  · intro w hw
    rcases List.mem_append.mp hw with hw | hw
    · exact h.room w hw
    · rw [List.mem_singleton.mp hw]
      exact Nat.zero_le _

/-- Links and writers stay so through events. -/
theorem handle (h : Wired r) (now : Instant) (e : RelayEvent) : Wired (r.handle now e).2 := by
  cases e with
  | linked m => exact h.handle_linked now m
  | linkClosed m => exact h.handle_of_sublist now List.filter_sublist rfl
  | outbound _ _ _ | inbound _ _ | discovered _ | linkFailed _ | scanEnded | rescan _ | sweep =>
      exact h.handle_of_sublist now (List.Sublist.refl _) rfl

/-- A writer may change what it has left, but not whom it writes to. -/
theorem set {w w' : Writer} (h : Wired r) (hi : r.writers[i]? = some w)
    (htarget : w'.target = w.target) (hroom : w'.waiting.length ≤ w.waiting.length) :
    Wired { r with writers := r.writers.set i w' } := by
  have htargets : targets { r with writers := r.writers.set i w' } = r.targets :=
    targets_set hi htarget
  have hserves : ∀ n j, serves n j { r with writers := r.writers.set i w' } = r.serves n j := by
    intro n j
    simp only [serves, htargets]
  refine ⟨htargets ▸ h.notifier, ?_, ?_, h.names, ?_⟩
  · intro n j hlink
    rw [hserves]
    exact h.served n j hlink
  · intro n j k hlink hk
    rw [hserves] at hk
    exact h.latest n j k hlink hk
  · intro v hv
    rcases List.mem_or_eq_of_mem_set hv with hold | rfl
    · exact h.room v hold
    · exact Nat.le_trans hroom (h.room w (List.mem_of_getElem? hi))

end Wired

/-- What an event leaves a writer to write. -/
theorem waitingAt_handle (h : Wired r) (hi : i < r.writers.length) (now : Instant)
    (e : RelayEvent) : (r.handle now e).2.waitingAt i = r.waitingAt i ++
      if i ∈ r.activeWriters ∧ (r.waitingAt i).length < queueCapacity then r.framesOf now e
      else [] := by
  have hw : r.writers[i]? = some r.writers[i] := List.getElem?_eq_getElem hi
  have hqueued : (r.handle now e).2.writers[i]? =
      (queueAll r.activeWriters (r.framesOf now e) r.writers)[i]? := by
    rw [writers_handle]
    apply List.getElem?_append_left
    rwa [length_queueAll]
  rw [waitingAt_of_some hw]
  by_cases hactive : i ∈ r.activeWriters
  · rcases framesOf_cases now r e with hnone | ⟨frame, hframe⟩
    · rw [hnone] at hqueued ⊢
      rw [waitingAt_of_some (hqueued.trans hw)]
      simp
    · rw [hframe, getElem?_queueAll h.nodup_activeWriters, if_pos hactive, hw] at hqueued
      rw [hframe, waitingAt_of_some hqueued, Writer.waiting_enqueue]
      by_cases hroom : r.writers[i].waiting.length < queueCapacity <;> simp [hactive, hroom]
  · rw [getElem?_queueAll_of_not_mem hactive] at hqueued
    rw [waitingAt_of_some (hqueued.trans hw)]
    simp [hactive]

end Relay

end PeerCall.Mesh
