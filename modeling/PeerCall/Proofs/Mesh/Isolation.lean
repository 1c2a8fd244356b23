import PeerCall.Proofs.Mesh.Writers

/-!
# A slow neighbour delays nobody else

A neighbour is written all that was transmitted while it was linked, but for what its own full queue
lost. How the writes to others go makes no difference to it: a run may leave out all that their
writers do, and what is queued and written to the neighbour stays the same.

A link that is renewed gets a new writer, while the old one writes what it has left. What was queued
to a neighbour is told by its writers in the order of their links.
-/
namespace PeerCall.Mesh

/-! ## Runs with their writes -/

/-- What a writer does. -/
inductive WriterAct
  /-- It asks for its next frame. -/
  | next
  /-- Its write has ended, well or not. -/
  | ended (well : Bool)
deriving DecidableEq

/-- What happens to a relay and its writers. -/
inductive Happening
  | event (e : RelayEvent)
  | writer (i : Nat) (a : WriterAct)
deriving DecidableEq

/-- A frame that is written. -/
structure Write where
  moment : Instant
  writer : Nat
  target : Option String
  frame : Bytes
deriving DecidableEq

/-- A relay and all that its writers have written. -/
structure Journal where
  relay : Relay
  writes : List Write

/-- What a writer's act makes of it, and the frames that it starts to write. -/
def Writer.act (now : Instant) (w : Writer) : WriterAct → Writer × List Bytes
  | .next =>
    if w.busyUntil.any (now < ·) then (w, [])
    else match w.waiting with
      | [] => (w, [])
      | frame :: waiting => ({ w with waiting, busyUntil := some (now + writeTimeout) }, [frame])
  | .ended _ => ({ w with busyUntil := none }, [])

theorem Writer.target_act (now : Instant) (w : Writer) (a : WriterAct) :
    (w.act now a).1.target = w.target := by
  cases a with
  | next =>
      simp only [act]
      split
      · rfl
      · split <;> rfl
  | ended well => rfl

/-- What a writer has to write it writes or keeps. -/
theorem Writer.waiting_act (now : Instant) (w : Writer) (a : WriterAct) :
    (w.act now a).2 ++ (w.act now a).1.waiting = w.waiting := by
  cases a with
  | next =>
      simp only [act]
      split
      · rfl
      · split
        · rfl
        · rename_i hwaiting
          exact hwaiting.symm
  | ended well => rfl

namespace Journal

variable {d d' : Journal} {now : Instant} {h : Happening} {n : String} {i j : Nat}

/-- A relay that has met nobody and written nothing. -/
def start (node : String) (config : MeshConfig) : Journal := ⟨.start node config, []⟩

/-- The journal after something has happened. -/
def perform (now : Instant) (d : Journal) : Happening → Journal
  | .event e => { d with relay := (d.relay.handle now e).2 }
  | .writer i .next => match d.relay.nextWrite? now i with
    | none => d
    | some (w, frame, relay) => ⟨relay, d.writes ++ [⟨now, i, w.target, frame⟩]⟩
  | .writer i (.ended _) => { d with relay := d.relay.writeEnded i }

/-- The journal after a run. If the relay ends with an event of the run, what it did is what the run
tells up to there. -/
def after (d : Journal) (run : List (Instant × Happening)) : Journal :=
  run.foldl (fun d h => d.perform h.1 h.2) d

/-- What has been queued by a writer: what it has written, and what it has left. -/
def queuedBy (i : Nat) (d : Journal) : List Bytes :=
  (d.writes.filter (·.writer = i)).map (·.frame) ++ d.relay.waitingAt i

/-- The same if the writer is one of a neighbour's. -/
def queuedFor (n : String) (d : Journal) (i : Nat) : List Bytes :=
  if d.relay.serves n i then d.queuedBy i else []

/-- What has been queued to a neighbour, by one of its writers after the other. -/
def queuedTo (n : String) (d : Journal) : List Bytes :=
  (List.range d.relay.writers.length).flatMap (d.queuedFor n)

/-- What is written to a neighbour. -/
def writesTo (n : String) (d : Journal) : List Write := d.writes.filter (·.target = some n)

/-- What is transmitted while a neighbour is linked and its queue has room. -/
def passedNow (n : String) (now : Instant) (d : Journal) : Happening → List Bytes
  | .event e => match d.relay.links.lookup n with
    | some i =>
      if (d.relay.waitingAt i).length < queueCapacity then d.relay.framesOf now e else []
    | none => []
  | .writer _ _ => []

/-- All that is transmitted in a run while a neighbour is linked and its queue has room. -/
def passedTo (n : String) : Journal → List (Instant × Happening) → List Bytes
  | _, [] => []
  | d, (now, h) :: run => d.passedNow n now h ++ passedTo n (d.perform now h) run

theorem perform_event (now : Instant) (d : Journal) (e : RelayEvent) :
    d.perform now (.event e) = ⟨(d.relay.handle now e).2, d.writes⟩ := rfl

/-- An act of a writer is about this writer only. -/
theorem perform_writer (now : Instant) (d : Journal) (i : Nat) (a : WriterAct) :
    d.perform now (.writer i a) = match d.relay.writers[i]? with
      | none => d
      | some w => ⟨{ d.relay with writers := d.relay.writers.set i (w.act now a).1 },
          d.writes ++ (w.act now a).2.map (⟨now, i, w.target, ·⟩)⟩ := by
  cases hw : d.relay.writers[i]? with
  | none =>
      cases a with
      | next => simp [perform, Relay.nextWrite?, hw]
      | ended well =>
          have hlength := List.getElem?_eq_none_iff.mp hw
          simp [perform, Relay.writeEnded, List.modify_eq_self hlength]
  | some w =>
      obtain ⟨hi, rfl⟩ := List.getElem?_eq_some_iff.mp hw
      cases a with
      | next =>
          simp only [perform, Relay.nextWrite?, hw, Writer.act, Option.bind_eq_bind,
            Option.bind_some]
          by_cases hbusy : d.relay.writers[i].busyUntil.any (now < ·) = true
          · simp [hbusy]
          · cases hwaiting : d.relay.writers[i].waiting with
            | nil => simp [hbusy]
            | cons frame waiting => simp [hbusy]
      | ended well =>
          have hset : ∀ f : Writer → Writer, d.relay.writers.modify i f =
              d.relay.writers.set i (f d.relay.writers[i]) := by
            intro f
            rw [List.modify_eq_set_getElem?, hw]
            rfl
          simp [perform, Relay.writeEnded, Writer.act, hset]

/-- Whom the writers write to is a matter of events. -/
theorem targets_writer (now : Instant) (d : Journal) (i : Nat) (a : WriterAct) :
    (d.perform now (.writer i a)).relay.targets = d.relay.targets := by
  rw [perform_writer]
  cases hi : d.relay.writers[i]? with
  | none => rfl
  | some w => exact Relay.targets_set hi (w.target_act now a)

theorem serves_writer (now : Instant) (d : Journal) (i : Nat) (a : WriterAct) (n : String)
    (j : Nat) : (d.perform now (.writer i a)).relay.serves n j = d.relay.serves n j := by
  rw [Relay.serves, targets_writer, Relay.serves]

/-- All else that the relay knows stays the same. -/
theorem bare_writer (now : Instant) (d : Journal) (i : Nat) (a : WriterAct) :
    (d.perform now (.writer i a)).relay.bare = d.relay.bare := by
  rw [perform_writer]
  cases d.relay.writers[i]? <;> rfl

/-- The relay is wired, and each write is that of a writer, to whom this one writes. -/
structure Sound (d : Journal) : Prop where
  wired : d.relay.Wired
  targets : ∀ w ∈ d.writes, d.relay.targets[w.writer]? = some w.target

theorem sound_start (node : String) (config : MeshConfig) : (start node config).Sound :=
  ⟨Relay.wired_start node config, fun _ hw => absurd hw List.not_mem_nil⟩

theorem Sound.perform (hd : d.Sound) (now : Instant) (h : Happening) :
    (d.perform now h).Sound := by
  cases h with
  | event e =>
      refine ⟨hd.wired.handle now e, fun w hw => ?_⟩
      have htarget := hd.targets w hw
      have hlt := (List.getElem?_eq_some_iff.mp htarget).1
      rwa [perform_event, Relay.targets_handle, List.getElem?_append_left hlt]
  | writer i a =>
      have htargets := targets_writer now d i a
      rw [perform_writer] at htargets ⊢
      cases hi : d.relay.writers[i]? with
      | none => exact hd
      | some v =>
          rw [hi] at htargets
          have hroom : (v.act now a).1.waiting.length ≤ v.waiting.length := by
            rw [← Writer.waiting_act now v a, List.length_append]
            omega
          refine ⟨hd.wired.set hi (v.target_act now a) hroom, fun w hw => ?_⟩
          rw [htargets]
          rcases List.mem_append.mp hw with hw | hw
          · exact hd.targets w hw
          · obtain ⟨frame, -, rfl⟩ := List.mem_map.mp hw
            simp [Relay.targets, hi]

theorem Sound.after (hd : d.Sound) (run : List (Instant × Happening)) : (d.after run).Sound := by
  induction run generalizing d with
  | nil => exact hd
  | cons x run ih => exact ih (hd.perform x.1 x.2)

/-! ## What is queued to a neighbour -/

/-- To write what was queued does not change what was queued. -/
theorem queuedBy_writer (now : Instant) (d : Journal) (i j : Nat) (a : WriterAct) :
    (d.perform now (.writer i a)).queuedBy j = d.queuedBy j := by
  rw [perform_writer]
  cases hi : d.relay.writers[i]? with
  | none => rfl
  | some w =>
      obtain ⟨hlt, rfl⟩ := List.getElem?_eq_some_iff.mp hi
      by_cases hij : i = j
      · have hact := d.relay.writers[i].waiting_act now a
        simp [queuedBy, Relay.waitingAt, ← hij, hlt, List.filter_map, Function.comp_def, hact]
      · simp [queuedBy, Relay.waitingAt, hij, List.filter_map, Function.comp_def]

/-- Nothing has been queued by a writer that does not exist yet. -/
theorem Sound.writes_of_le (hd : d.Sound) (hi : d.relay.writers.length ≤ i) :
    d.writes.filter (·.writer = i) = [] := by
  rw [List.filter_eq_nil_iff]
  intro w hw
  have hlt := (List.getElem?_eq_some_iff.mp (hd.targets w hw)).1
  rw [Relay.targets, List.length_map] at hlt
  simp only [decide_eq_true_eq]
  omega

/-- An event leaves a new writer with nothing queued. -/
theorem Sound.queuedBy_new (hd : d.Sound) (now : Instant) (e : RelayEvent)
    (hi : d.relay.writers.length ≤ i) : (d.perform now (.event e)).queuedBy i = [] := by
  have hlength : (queueAll d.relay.activeWriters (d.relay.framesOf now e) d.relay.writers).length ≤
      i := by rwa [length_queueAll]
  rw [perform_event, queuedBy, hd.writes_of_le hi, List.map_nil, List.nil_append, Relay.waitingAt,
    Relay.writers_handle, List.getElem?_append_right hlength]
  cases e with
  | linked m =>
      rw [RelayEvent.newWriters, List.getElem?_singleton]
      split <;> rfl
  | outbound _ _ _ | inbound _ _ | discovered _ | linkFailed _ | linkClosed _ | scanEnded
  | rescan _ | sweep => rfl

/-- An event queues what passes to the writer of the link, and nothing to others of the
neighbour. -/
theorem Sound.queuedFor_event (hd : d.Sound) (now : Instant) (e : RelayEvent)
    (hi : i < d.relay.writers.length) : (d.perform now (.event e)).queuedFor n i =
      d.queuedFor n i ++
        if d.relay.links.lookup n = some i then d.passedNow n now (.event e) else [] := by
  simp only [perform_event, queuedFor, Relay.Wired.serves_handle hi now e]
  cases hn : d.relay.serves n i with
  | true =>
      have hactive := hd.wired.mem_activeWriters_iff hn
      simp only [queuedBy, Relay.waitingAt_handle hd.wired hi now e, if_true, List.append_assoc,
        hactive]
      by_cases hlink : d.relay.links.lookup n = some i
      · simp [passedNow, hlink]
      · simp [hlink]
  | false =>
      have hlink : d.relay.links.lookup n ≠ some i := by
        intro hlink
        have hserved := hd.wired.served n i (hd.wired.lookup_eq_some_iff.mp hlink)
        rw [hn] at hserved
        cases hserved
      simp [hlink]

theorem flatMap_range_of_nil {α : Type} {f : Nat → List α} {m k : Nat} (hmk : m ≤ k)
    (hnil : ∀ i, m ≤ i → i < k → f i = []) :
    (List.range k).flatMap f = (List.range m).flatMap f := by
  induction k, hmk using Nat.le_induction with
  | base => rfl
  | succ k hmk ih =>
      have hlast := hnil k hmk (Nat.lt_succ_self k)
      rw [List.range_succ, List.flatMap_append, ih fun i hm hk => hnil i hm (Nat.lt_succ_of_lt hk)]
      simp [hlast]

/-- A list that is put together from numbered parts ends with the last part that is not empty. -/
theorem flatMap_range_split {α : Type} {f : Nat → List α} {i k : Nat} (hi : i < k)
    (hlater : ∀ j, i < j → f j = []) :
    (List.range k).flatMap f = (List.range i).flatMap f ++ f i := by
  rw [flatMap_range_of_nil (Nat.succ_le_of_lt hi) fun j hj _ => hlater j hj, List.range_succ,
    List.flatMap_append]
  simp

theorem flatMap_range_congr {α : Type} {f g : Nat → List α} {k : Nat}
    (h : ∀ i < k, f i = g i) : (List.range k).flatMap f = (List.range k).flatMap g :=
  List.flatMap_congr fun i hi => h i (List.mem_range.mp hi)

/-- A neighbour has no writer later than that of its link. -/
theorem Sound.queuedFor_of_lt (hd : d.Sound) (hlink : d.relay.links.lookup n = some i)
    (hj : i < j) : d.queuedFor n j = [] := by
  rw [queuedFor, if_neg]
  intro hserves
  have hle := hd.wired.latest n i j (hd.wired.lookup_eq_some_iff.mp hlink) hserves
  omega

/-- Whatever happens adds to a neighbour's queue what passes to it. -/
theorem Sound.queuedTo_perform (hd : d.Sound) (now : Instant) (h : Happening) :
    (d.perform now h).queuedTo n = d.queuedTo n ++ d.passedNow n now h := by
  cases h with
  | writer i a =>
      have htargets := targets_writer now d i a
      have hlength : (d.perform now (.writer i a)).relay.writers.length =
          d.relay.writers.length := by
        simpa [Relay.targets] using congrArg List.length htargets
      have hqueued : (d.perform now (.writer i a)).queuedFor n = d.queuedFor n := by
        funext j
        rw [queuedFor, queuedBy_writer, serves_writer, queuedFor]
      rw [queuedTo, hqueued, hlength]
      exact (List.append_nil _).symm
  | event e =>
      have hlength : d.relay.writers.length ≤ (d.perform now (.event e)).relay.writers.length :=
        Relay.length_le_handle now d.relay e
      have hold : (d.perform now (.event e)).queuedTo n =
          (List.range d.relay.writers.length).flatMap ((d.perform now (.event e)).queuedFor n) := by
        apply flatMap_range_of_nil hlength
        intro i hi _
        rw [queuedFor, hd.queuedBy_new now e hi, ite_self]
      rw [hold, flatMap_range_congr fun i hi => hd.queuedFor_event now e hi]
      cases hlink : d.relay.links.lookup n with
      | none => simp [passedNow, hlink, queuedTo]
      | some i =>
          have hmem := hd.wired.lookup_eq_some_iff.mp hlink
          have hi := Relay.lt_of_serves (hd.wired.served n i hmem)
          have hne : ∀ j, i ≠ j → some i ≠ some j := fun j hij h => hij (Option.some.inj h)
          rw [queuedTo, flatMap_range_split hi fun j hj => hd.queuedFor_of_lt hlink hj,
            flatMap_range_split hi]
          · rw [if_pos rfl, List.append_assoc]
            congr 1
            apply flatMap_range_congr
            intro j hj
            rw [if_neg (hne j (Nat.ne_of_gt hj)), List.append_nil]
          · intro j hj
            rw [hd.queuedFor_of_lt hlink hj, if_neg (hne j (Nat.ne_of_lt hj))]
            rfl

/-- In a run all is queued to a neighbour that passes to it. -/
theorem Sound.queuedTo_after (hd : d.Sound) (run : List (Instant × Happening)) :
    (d.after run).queuedTo n = d.queuedTo n ++ d.passedTo n run := by
  induction run generalizing d with
  | nil => exact (List.append_nil _).symm
  | cons x run ih =>
      have hlater := ih (hd.perform x.1 x.2)
      rw [hd.queuedTo_perform, List.append_assoc] at hlater
      exact hlater

/-! ## What concerns a neighbour -/

/-- All events concern a neighbour, but only what its own writers do. -/
def concerns (n : String) (d : Journal) : Happening → Bool
  | .event _ => true
  | .writer i _ => d.relay.serves n i

/-- The part of a run that concerns a neighbour. -/
def concerning (n : String) : Journal → List (Instant × Happening) → List (Instant × Happening)
  | _, [] => []
  | d, (now, h) :: run =>
    if d.concerns n h then (now, h) :: concerning n (d.perform now h) run
    else concerning n (d.perform now h) run

/-- What a neighbour has to do with is the same in two journals. -/
structure Alike (n : String) (d d' : Journal) : Prop where
  bare : d.relay.bare = d'.relay.bare
  targets : d.relay.targets = d'.relay.targets
  writers : ∀ i, d.relay.serves n i = true → d.relay.writers[i]? = d'.relay.writers[i]?
  writes : d.writesTo n = d'.writesTo n

namespace Alike

theorem refl (n : String) (d : Journal) : Alike n d d := ⟨rfl, rfl, fun _ _ => rfl, rfl⟩

theorem length_eq (hd : Alike n d d') : d.relay.writers.length = d'.relay.writers.length := by
  simpa [Relay.targets] using congrArg List.length hd.targets

theorem serves_eq (hd : Alike n d d') (m : String) (i : Nat) :
    d.relay.serves m i = d'.relay.serves m i := by
  rw [Relay.serves, Relay.serves, hd.targets]

/-- An event is the same to both. -/
theorem event (hd : Alike n d d') (now : Instant) (e : RelayEvent) :
    Alike n (d.perform now (.event e)) (d'.perform now (.event e)) := by
  have hframes : d.relay.framesOf now e = d'.relay.framesOf now e := by
    rw [← Relay.framesOf_bare, hd.bare, Relay.framesOf_bare]
  have hactive : d.relay.activeWriters = d'.relay.activeWriters := by
    rw [← Relay.activeWriters_bare, hd.bare, Relay.activeWriters_bare]
  refine ⟨Relay.bare_handle hd.bare hd.length_eq now e, ?_, fun i hi => ?_, hd.writes⟩
  · rw [perform_event, perform_event, Relay.targets_handle, Relay.targets_handle, hd.targets]
  · rw [perform_event, perform_event, Relay.writers_handle, Relay.writers_handle, hframes, hactive]
    rcases Nat.lt_or_ge i d.relay.writers.length with hlt | hge
    · rw [perform_event, Relay.Wired.serves_handle hlt] at hi
      rw [List.getElem?_append_left (by rwa [length_queueAll]),
        List.getElem?_append_left (by rwa [length_queueAll, ← hd.length_eq])]
      exact getElem?_queueAll_congr (hd.writers i hi)
    · rw [List.getElem?_append_right (by rwa [length_queueAll]),
        List.getElem?_append_right (by rwa [length_queueAll, ← hd.length_eq]),
        length_queueAll, length_queueAll, hd.length_eq]

/-- An act of the neighbour's own writer is the same to both. -/
theorem own (hd : Alike n d d') (now : Instant) (a : WriterAct)
    (hi : d.relay.serves n i = true) :
    Alike n (d.perform now (.writer i a)) (d'.perform now (.writer i a)) := by
  have hwriter := hd.writers i hi
  refine ⟨?_, ?_, fun j hj => ?_, ?_⟩
  · rw [bare_writer, bare_writer, hd.bare]
  · rw [targets_writer, targets_writer, hd.targets]
  · rw [serves_writer] at hj
    have hold := hd.writers j hj
    rw [perform_writer, perform_writer, ← hwriter]
    cases d.relay.writers[i]? with
    | none => exact hold
    | some w => simp only [List.getElem?_set, hold, hd.length_eq]
  · have hwrites := hd.writes
    rw [perform_writer, perform_writer, ← hwriter]
    cases d.relay.writers[i]? with
    | none => exact hwrites
    | some w =>
        simp only [writesTo, List.filter_append] at hwrites ⊢
        rw [hwrites]

/-- An act of another's writer makes no difference. -/
theorem other (hd : Alike n d d') (now : Instant) (a : WriterAct)
    (hi : d.relay.serves n i = false) : Alike n (d.perform now (.writer i a)) d' := by
  refine ⟨?_, ?_, fun j hj => ?_, ?_⟩
  · rw [bare_writer, hd.bare]
  · rw [targets_writer, hd.targets]
  · rw [serves_writer] at hj
    have hne : i ≠ j := by
      rintro rfl
      rw [hi] at hj
      cases hj
    rw [← hd.writers j hj, perform_writer]
    cases d.relay.writers[i]? with
    | none => rfl
    | some w => exact List.getElem?_set_ne hne
  · rw [← hd.writes, perform_writer]
    cases hw : d.relay.writers[i]? with
    | none => rfl
    | some w =>
        have htarget : w.target ≠ some n := by simpa [Relay.serves, Relay.targets, hw] using hi
        simp [writesTo, List.filter_map, Function.comp_def, htarget]

/-- What does not concern a neighbour may be left out. -/
theorem concerning (hd : Alike n d d') (run : List (Instant × Happening)) :
    Alike n (d.after run) (d'.after (d.concerning n run)) := by
  induction run generalizing d d' with
  | nil => exact hd
  | cons x run ih =>
      obtain ⟨now, h⟩ := x
      cases h with
      | event e => exact ih (hd.event now e)
      | writer i a =>
          cases hi : d.relay.serves n i with
          | true =>
              simp only [Journal.concerning, concerns, hi, if_true]
              exact ih (hd.own now a hi)
          | false =>
              simp only [Journal.concerning, concerns, hi]
              exact ih (hd.other now a hi)

/-- The same has been queued to the neighbour. -/
theorem queuedTo_eq (hd : Alike n d d') (hsound : d.Sound) (hsound' : d'.Sound) :
    d.queuedTo n = d'.queuedTo n := by
  have hwrites : ∀ {d : Journal} {i : Nat}, d.Sound → d.relay.serves n i = true →
      d.writes.filter (·.writer = i) = (d.writesTo n).filter (·.writer = i) := by
    intro d i hsound hi
    rw [writesTo, List.filter_filter]
    apply List.filter_congr
    intro w hw
    have htarget := hsound.targets w hw
    by_cases hwriter : w.writer = i
    · simp only [Relay.serves, decide_eq_true_eq] at hi
      rw [hwriter, hi, Option.some.injEq] at htarget
      simp [hwriter, ← htarget]
    · simp [hwriter]
  rw [queuedTo, queuedTo, hd.length_eq]
  apply flatMap_range_congr
  intro i _
  rw [queuedFor, queuedFor, ← hd.serves_eq]
  cases hi : d.relay.serves n i with
  | false => rfl
  | true =>
      have hi' := hi
      rw [hd.serves_eq] at hi'
      simp only [queuedBy, Relay.waitingAt, hwrites hsound hi, hwrites hsound' hi', hd.writes,
        hd.writers i hi]

end Alike

/-- **A bad link does not hurt the others.** Whatever happens, all that is transmitted while a
neighbour is linked is queued to it in this order, but for what its own queue has no room for. So
how fast and how well writes to others and notifications go has no part in what is queued and
written to it, and when. -/
theorem link_isolated (node : String) (config : MeshConfig) (n : String) :
    (∀ run, ((start node config).after run).queuedTo n = (start node config).passedTo n run) ∧
    ∀ run run', (start node config).concerning n run = (start node config).concerning n run' →
      ((start node config).after run).queuedTo n = ((start node config).after run').queuedTo n ∧
      ((start node config).after run).writesTo n = ((start node config).after run').writesTo n := by
  have hsound := sound_start node config
  refine ⟨fun run => ?_, fun run run' hsame => ?_⟩
  · rw [hsound.queuedTo_after]
    rfl
  · have hrun := (Alike.refl n (start node config)).concerning run
    have hrun' := (Alike.refl n (start node config)).concerning run'
    rw [← hsame] at hrun'
    have hqueued := hrun.queuedTo_eq (hsound.after _) (hsound.after _)
    have hqueued' := hrun'.queuedTo_eq (hsound.after _) (hsound.after _)
    exact ⟨hqueued.trans hqueued'.symm, hrun.writes.trans hrun'.writes.symm⟩

/-- Two neighbours get links and two messages are sent. Between them, one neighbour's writer does
what it is told. -/
def twoMessages (acts : List WriterAct) : List (Instant × Happening) :=
  let before : List Happening := [.event (.linked "b"), .event (.linked "c"),
    .event (.outbound (.numbered 1) 0 ⟨"a", .join⟩), .writer 1 .next]
  let after : List Happening := [.event (.outbound (.numbered 2) 0 ⟨"a", .bye⟩),
    .writer 1 (.ended true), .writer 1 .next]
  (before ++ acts.map (Happening.writer 2) ++ after).map ((0, ·))

/-- A neighbour that nothing is written to holds up no other. -/
theorem link_isolated_stalled :
    (start "a" .standard).concerning "b" (twoMessages []) =
      (start "a" .standard).concerning "b" (twoMessages [.next, .ended false]) ∧
    (((start "a" .standard).after (twoMessages [])).writesTo "b").length = 2 ∧
    ((start "a" .standard).after (twoMessages [])).writesTo "b" =
      ((start "a" .standard).after (twoMessages [.next, .ended false])).writesTo "b" ∧
    ((start "a" .standard).after (twoMessages [])).writesTo "c" ≠
      ((start "a" .standard).after (twoMessages [.next, .ended false])).writesTo "c" := by
  have hsame : (start "a" .standard).concerning "b" (twoMessages []) =
      (start "a" .standard).concerning "b" (twoMessages [.next, .ended false]) := by
    decide +kernel
  refine ⟨hsame, by decide +kernel, ?_, by decide +kernel⟩
  exact ((link_isolated "a" .standard "b").2 _ _ hsame).2

end Journal

end PeerCall.Mesh
