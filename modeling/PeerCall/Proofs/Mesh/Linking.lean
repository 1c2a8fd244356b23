import PeerCall.Proofs.Mesh.Tables

/-!
# Who is linked, and who is about to be

A relay asks for links and scans, and learns from its mail how they went. Meanwhile more may have
happened: a link may be up and lost again before the relay has read that it is up. Still a neighbour
never gets a second link while there is a first one, since the relay keeps a neighbour pending until
it has read how its link went, and keeps it linked until it has read that the link is lost.

All this is arithmetic: for each neighbour the link tasks that are alive and the reports in the mail
add up to what the relay has in its tables.
-/
namespace PeerCall.Mesh

/-! ## A relay with all that it has under way -/

/-- How far a link task is. -/
inductive LinkPhase
  | connecting
  | listening
  | done
deriving DecidableEq

/-- What a link task learns from the radio. -/
inductive LinkNews
  | connected
  | failed
  | heard (bytes : Bytes)
  | lost

/-- What a link task makes of news, and what it reports. Other news does not come. -/
def LinkPhase.report? (neighbor : String) : LinkPhase → LinkNews → Option (LinkPhase × RelayEvent)
  | .connecting, .connected => some (.listening, .linked neighbor)
  | .connecting, .failed => some (.done, .linkFailed neighbor)
  | .listening, .heard bytes => some (.listening, .inbound neighbor bytes)
  | .listening, .lost => some (.done, .linkClosed neighbor)
  | _, _ => none

/-- The link task that a request starts. -/
def RelayRequest.task? : RelayRequest → Option (String × LinkPhase)
  | .link neighbor => some (neighbor, .connecting)
  | .deliver _ | .advertise | .scan => none

/-- A relay that runs, its mail, and the tasks that it has started. -/
structure Crew where
  now : Instant
  relay : Relay
  mail : List RelayEvent
  /-- All link tasks that ever were, each with its neighbour. -/
  tasks : List (String × LinkPhase)
  /-- How many scans are alive. -/
  scans : Nat

/-- What happens to a relay and its tasks. -/
inductive Move
  | wait (d : Duration)
  /-- The relay reacts to the first of its mail. -/
  | take
  /-- It is time to look for neighbours, and the radio scans or not. -/
  | rescan (scans : Bool)
  /-- It is time to forget. -/
  | sweep
  | outbound (id : PacketId) (timestamp : UInt64) (message : Message)
  /-- A neighbour writes to us. -/
  | inbound (neighbor : String) (bytes : Bytes)
  | discovered (neighbor : String)
  | scanEnds
  /-- A link task gets news. -/
  | link (i : Nat) (news : LinkNews)

namespace Crew

variable {c : Crew} {n m : String} {e : RelayEvent} {rest : List RelayEvent}

/-- A relay that has just started. -/
def start (node : String) (config : MeshConfig) : Crew := ⟨0, .start node config, [], [], 0⟩

/-- Start what the relay asks for. -/
def serve (c : Crew) : RelayRequest → Crew
  | .link neighbor => { c with tasks := c.tasks ++ [(neighbor, .connecting)] }
  | .scan => { c with scans := c.scans + 1 }
  | .deliver _ | .advertise => c

/-- The relay reacts to an event. -/
def react (c : Crew) (e : RelayEvent) : Crew :=
  (c.relay.handle c.now e).1.foldl serve { c with relay := (c.relay.handle c.now e).2 }

/-- An event waits for the relay. -/
def post (e : RelayEvent) (c : Crew) : Crew := { c with mail := c.mail ++ [e] }

/-- What a move makes of all. -/
def perform (c : Crew) : Move → Crew
  | .wait d => { c with now := c.now + d }
  | .take => match c.mail with
    | [] => c
    | e :: mail => react { c with mail } e
  | .rescan scans => c.react (.rescan scans)
  | .sweep => c.react .sweep
  | .outbound id timestamp m => c.post (.outbound id timestamp m)
  | .inbound neighbor bytes => c.post (.inbound neighbor bytes)
  | .discovered neighbor => c.post (.discovered neighbor)
  | .scanEnds => if c.scans = 0 then c else { c with scans := c.scans - 1 }.post .scanEnded
  | .link i news => match c.tasks[i]? with
    | none => c
    | some (neighbor, phase) => match phase.report? neighbor news with
      | none => c
      | some (phase, e) => { c with tasks := c.tasks.set i (neighbor, phase) }.post e

/-- All after a run. -/
def after (c : Crew) (run : List Move) : Crew := run.foldl perform c

/-- How many link tasks of a neighbour are alive. -/
def alive (n : String) (c : Crew) : Nat :=
  c.tasks.count (n, .connecting) + c.tasks.count (n, .listening)

theorem foldl_serve (requests : List RelayRequest) (c : Crew) :
    requests.foldl serve c = (Relay.starts requests).foldl serve c := by
  induction requests generalizing c with
  | nil => rfl
  | cons request requests ih =>
      cases request with
      | link _ | scan => exact ih _
      | deliver _ | advertise => exact ih c

/-- A reaction changes the relay and starts what it asks for. -/
theorem react_eq (c : Crew) (e : RelayEvent) : c.react e =
    { c with
      relay := (c.relay.handle c.now e).2
      tasks := c.tasks ++ (c.relay.startsAfter e).filterMap RelayRequest.task?
      scans := c.scans + (c.relay.startsAfter e).count .scan } := by
  rw [react, foldl_serve, Relay.starts_handle]
  cases e with
  | discovered m =>
      simp only [Relay.startsAfter]
      split <;> simp [serve, RelayRequest.task?]
  | rescan scans =>
      simp only [Relay.startsAfter]
      split <;> simp [serve, RelayRequest.task?]
  | outbound _ _ _ | inbound _ _ | linked _ | linkFailed _ | linkClosed _ | scanEnded | sweep =>
      simp [Relay.startsAfter]

/-- What a neighbour's link tasks and their reports add up to. -/
structure Linking (n : String) (c : Crew) : Prop where
  pending : c.relay.pending.count n =
    c.tasks.count (n, .connecting) + c.mail.count (.linkFailed n) + c.mail.count (.linked n)
  linked : c.relay.linkCount n + c.mail.count (.linked n) =
    c.tasks.count (n, .listening) + c.mail.count (.linkClosed n)
  apart : c.relay.pending.count n + c.relay.linkCount n ≤ 1
  /-- That a link is up is read before it is read that the link is lost. -/
  order : c.mail.Pairwise fun e e' => ¬ (e = .linkClosed n ∧ e' = .linked n)

namespace Linking

theorem count_started (n : String) (requests : List RelayRequest) :
    (requests.filterMap RelayRequest.task?).count (n, .connecting) = requests.count (.link n) ∧
      (requests.filterMap RelayRequest.task?).count (n, .listening) = 0 := by
  induction requests with
  | nil => exact ⟨rfl, rfl⟩
  | cons request requests ih =>
      cases request with
      | link m => by_cases hm : m = n <;> simp [RelayRequest.task?, hm, ih]
      | deliver _ | advertise | scan => simp [List.filterMap_cons, RelayRequest.task?, ih]

/-- A link task starts only for a neighbour that has none. -/
theorem apart_starts (r : Relay) (e : RelayEvent)
    (hapart : r.pending.count n + r.linkCount n ≤ 1) :
    r.pending.count n + (r.startsAfter e).count (.link n) + r.linkCount n ≤ 1 := by
  cases e with
  | discovered m =>
      simp only [Relay.startsAfter]
      by_cases hknown : (r.isLinked m || r.pending.contains m) = true
      · rw [if_pos hknown]
        simpa using hapart
      · rw [if_neg hknown]
        by_cases hm : m = n
        · rw [Bool.or_eq_true, not_or, Relay.isLinked_iff, List.contains_iff_mem,
            ← List.count_pos_iff, hm] at hknown
          simp only [hm, List.count_singleton_self]
          omega
        · simpa [hm] using hapart
  | rescan scans =>
      simp only [Relay.startsAfter]
      split <;> simpa using hapart
  | outbound _ _ _ | inbound _ _ | linked _ | linkFailed _ | linkClosed _ | scanEnded | sweep =>
      simpa [Relay.startsAfter] using hapart

/-- An event that is no report of a link of the neighbour. -/
theorem react (h : Linking n c) (hup : e ≠ .linked n) (hfailed : e ≠ .linkFailed n)
    (hlost : e ≠ .linkClosed n) : Linking n (c.react e) := by
  obtain ⟨hconnecting, hlistening⟩ := count_started n (c.relay.startsAfter e)
  have hpending := Relay.pendingCount_handle n c.now c.relay e
  have hlinked := Relay.linkCount_handle n c.now c.relay e
  rw [if_neg (by simp [hup, hfailed])] at hpending
  rw [if_neg hup, if_neg hlost] at hlinked
  have happart := apart_starts c.relay e h.apart
  have hsum := h.pending
  rw [react_eq]
  refine ⟨?_, ?_, ?_, h.order⟩
  · simp only [hpending, List.count_append, hconnecting]
    omega
  · simp only [hlinked, List.count_append, hlistening]
    exact h.linked
  · simp only [hpending, hlinked]
    exact happart

/-- What waits is no matter if it is no report of a link of the neighbour. -/
theorem of_mail (h : Linking n c) (hmail : c.mail = e :: rest) (hup : e ≠ .linked n)
    (hfailed : e ≠ .linkFailed n) (hlost : e ≠ .linkClosed n) :
    Linking n { c with mail := rest } := by
  obtain ⟨hpending, hlinked, hapart, horder⟩ := h
  rw [hmail] at hpending hlinked horder
  simp only [List.count_cons_of_ne hup, List.count_cons_of_ne hfailed,
    List.count_cons_of_ne hlost] at hpending hlinked
  exact ⟨hpending, hlinked, hapart, (List.pairwise_cons.mp horder).2⟩

/-- The first of the mail is read. A link that is lost was known to be up, as that was read
first. -/
theorem take (h : Linking n c) (hmail : c.mail = e :: rest) :
    Linking n (Crew.react { c with mail := rest } e) := by
  by_cases hreport : e = .linked n ∨ e = .linkFailed n ∨ e = .linkClosed n
  · obtain ⟨hpending, hlinked, hapart, horder⟩ := h
    have hpending' := Relay.pendingCount_handle n c.now c.relay e
    have hlinked' := Relay.linkCount_handle n c.now c.relay e
    have hstarts : c.relay.startsAfter e = [] := by rcases hreport with rfl | rfl | rfl <;> rfl
    rw [hmail] at hpending hlinked horder
    obtain ⟨hfirst, horder⟩ := List.pairwise_cons.mp horder
    simp only [hstarts, List.count_nil, Nat.add_zero] at hpending'
    simp only [List.count_cons, beq_iff_eq] at hpending hlinked
    simp only [react_eq, hstarts, List.filterMap_nil, List.append_nil]
    suffices (c.relay.handle c.now e).2.pending.count n = c.tasks.count (n, .connecting) +
          rest.count (.linkFailed n) + rest.count (.linked n) ∧
        (c.relay.handle c.now e).2.linkCount n + rest.count (.linked n) =
          c.tasks.count (n, .listening) + rest.count (.linkClosed n) ∧
        (c.relay.handle c.now e).2.pending.count n + (c.relay.handle c.now e).2.linkCount n ≤ 1
      from ⟨this.1, this.2.1, this.2.2, horder⟩
    rcases hreport with rfl | rfl | rfl
    · simp only [reduceCtorEq, or_false, if_true, if_false] at hpending hlinked hpending' hlinked'
      omega
    · simp only [reduceCtorEq, or_true, if_true, if_false] at hpending hlinked hpending' hlinked'
      omega
    · have hnone : rest.count (.linked n) = 0 := by
        rw [List.count_eq_zero]
        intro hmem
        exact hfirst _ hmem ⟨rfl, rfl⟩
      simp only [reduceCtorEq, or_self, if_true, if_false] at hpending hlinked hpending' hlinked'
      omega
  · rw [not_or, not_or] at hreport
    obtain ⟨hup, hfailed, hlost⟩ := hreport
    exact (h.of_mail hmail hup hfailed hlost).react hup hfailed hlost

/-- What is posted is no matter if it is no report of a link of the neighbour. -/
theorem post (h : Linking n c) (hup : e ≠ .linked n) (hfailed : e ≠ .linkFailed n)
    (hlost : e ≠ .linkClosed n) : Linking n (c.post e) := by
  obtain ⟨hpending, hlinked, hapart, horder⟩ := h
  refine ⟨?_, ?_, hapart, ?_⟩
  · simp only [Crew.post, List.count_append, List.count_singleton, beq_iff_eq, hup, hfailed,
      if_false]
    exact hpending
  · simp only [Crew.post, List.count_append, List.count_singleton, beq_iff_eq, hup, hlost, if_false]
    exact hlinked
  · refine List.pairwise_append.mpr ⟨horder, List.pairwise_singleton _ _, ?_⟩
    rintro a - b hb ⟨-, rfl⟩
    exact hup (List.mem_singleton.mp hb).symm

/-- A link task goes on, and reports it. -/
theorem report {i : Nat} {phase phase' : LinkPhase} {news : LinkNews} (h : Linking n c)
    (hi : c.tasks[i]? = some (m, phase)) (hreport : phase.report? m news = some (phase', e)) :
    Linking n (Crew.post e { c with tasks := c.tasks.set i (m, phase') }) := by
  obtain ⟨hlt, htask⟩ := List.getElem?_eq_some_iff.mp hi
  have hcount : ∀ p, (c.tasks.set i (m, phase')).count (n, p) = c.tasks.count (n, p) -
      (if (m, phase) = (n, p) then 1 else 0) + if (m, phase') = (n, p) then 1 else 0 := by
    intro p
    simp [List.count_set hlt, htask]
  by_cases hm : m = n
  · subst hm
    have halive : 0 < c.tasks.count (m, phase) :=
      List.count_pos_iff.mpr (List.mem_of_getElem? hi)
    obtain ⟨hpending, hlinked, hapart, horder⟩ := h
    have hmail : ∀ x, (c.mail ++ [e]).count x = c.mail.count x + if e = x then 1 else 0 := by
      intro x
      rw [List.count_append, List.count_singleton]
      simp only [beq_iff_eq]
    -- Nothing of an earlier link waits when a link comes up.
    suffices hsums : c.relay.pending.count m = (c.tasks.set i (m, phase')).count (m, .connecting) +
          (c.mail ++ [e]).count (.linkFailed m) + (c.mail ++ [e]).count (.linked m) ∧
        c.relay.linkCount m + (c.mail ++ [e]).count (.linked m) =
          (c.tasks.set i (m, phase')).count (m, .listening) +
            (c.mail ++ [e]).count (.linkClosed m) ∧
        (e = .linked m → c.mail.count (.linkClosed m) = 0) by
      obtain ⟨hpending, hlinked, hnone⟩ := hsums
      refine ⟨hpending, hlinked, hapart, ?_⟩
      refine List.pairwise_append.mpr ⟨horder, List.pairwise_singleton _ _, ?_⟩
      rintro a ha b hb ⟨rfl, rfl⟩
      exact List.count_eq_zero.mp (hnone (List.mem_singleton.mp hb).symm) ha
    rw [hcount, hcount, hmail, hmail, hmail]
    cases phase <;> cases news <;> cases hreport <;>
      simp only [Prod.mk.injEq, true_and, reduceCtorEq, if_true, if_false,
        forall_const, false_implies, and_true] <;>
      omega
  · have hsame : Linking n { c with tasks := c.tasks.set i (m, phase') } := by
      refine ⟨?_, ?_, h.apart, h.order⟩
      · simp only [hcount, Prod.mk.injEq, hm, false_and, if_false]
        exact h.pending
      · simp only [hcount, Prod.mk.injEq, hm, false_and, if_false]
        exact h.linked
    cases phase <;> cases news <;> cases hreport <;>
      exact hsame.post (by simp [hm]) (by simp [hm]) (by simp [hm])

end Linking

/-- The invariant of all: each neighbour's links add up, and so do the scans; the settings stay, and
the state tells what the tables hold. -/
structure Sound (config : MeshConfig) (c : Crew) : Prop where
  config : c.relay.config = config
  state : c.relay.state = c.relay.honestState
  scans : c.relay.scanning.toNat = c.scans + c.mail.count .scanEnded
  linking : ∀ n, Linking n c

theorem sound_start (node : String) (config : MeshConfig) : Sound config (start node config) where
  config := rfl
  state := rfl
  scans := rfl
  linking _ := ⟨rfl, rfl, Nat.zero_le 1, List.Pairwise.nil⟩

namespace Sound

variable {config : MeshConfig}

/-- The relay reacts to what did not wait in the mail. -/
theorem react (h : Sound config c) (he : e ≠ .scanEnded) (hup : ∀ n, e ≠ .linked n)
    (hfailed : ∀ n, e ≠ .linkFailed n) (hlost : ∀ n, e ≠ .linkClosed n) :
    Sound config (c.react e) := by
  have hlinking : ∀ n, Linking n (c.react e) := fun n =>
    (h.linking n).react (hup n) (hfailed n) (hlost n)
  have htables := Relay.tablesAfter_handle c.now c.relay e
  have hscans := h.scans
  have hscans' := Relay.scanning_handle c.now c.relay e
  rw [if_neg he] at hscans'
  rw [react_eq] at hlinking ⊢
  refine ⟨htables.config.trans h.config, htables.state h.state, ?_, hlinking⟩
  simp only [hscans']
  omega

/-- The relay reacts to the first of its mail. -/
theorem take (h : Sound config c) (hmail : c.mail = e :: rest) :
    Sound config (Crew.react { c with mail := rest } e) := by
  have hlinking : ∀ n, Linking n (Crew.react { c with mail := rest } e) := fun n =>
    (h.linking n).take hmail
  have htables := Relay.tablesAfter_handle c.now c.relay e
  have hscans := h.scans
  have hscans' := Relay.scanning_handle c.now c.relay e
  rw [react_eq] at hlinking ⊢
  refine ⟨htables.config.trans h.config, htables.state h.state, ?_, hlinking⟩
  rw [hmail, List.count_cons] at hscans
  have hone := Bool.toNat_le c.relay.scanning
  by_cases he : e = .scanEnded
  · subst he
    rw [if_pos rfl] at hscans'
    simp only [beq_self_eq_true, if_true] at hscans
    simp only [hscans', Relay.startsAfter, List.count_nil]
    omega
  · simp only [beq_iff_eq, he, if_false] at hscans hscans'
    simp only [hscans']
    omega

/-- Something else than a report of a task waits for the relay. -/
theorem post (h : Sound config c) (he : e ≠ .scanEnded) (hlinking : ∀ n, Linking n (c.post e)) :
    Sound config (c.post e) := by
  refine ⟨h.config, h.state, ?_, hlinking⟩
  simp only [Crew.post, List.count_append, List.count_singleton, beq_iff_eq, he, if_false]
  exact h.scans

/-- A link task goes on, and reports it. -/
theorem report {i : Nat} {phase phase' : LinkPhase} {news : LinkNews} (h : Sound config c)
    (hi : c.tasks[i]? = some (m, phase)) (hreport : phase.report? m news = some (phase', e)) :
    Sound config (Crew.post e { c with tasks := c.tasks.set i (m, phase') }) := by
  have he : e ≠ .scanEnded := by
    cases phase <;> cases news <;> cases hreport <;> nofun
  refine ⟨h.config, h.state, ?_, fun n => (h.linking n).report hi hreport⟩
  simp only [Crew.post, List.count_append, List.count_singleton, beq_iff_eq, he, if_false]
  exact h.scans

/-- All goes on to add up. -/
theorem perform (h : Sound config c) (m : Move) : Sound config (c.perform m) := by
  cases m with
  | wait d => exact ⟨h.config, h.state, h.scans, fun n =>
      ⟨(h.linking n).pending, (h.linking n).linked, (h.linking n).apart, (h.linking n).order⟩⟩
  | take =>
      simp only [Crew.perform]
      split
      · exact h
      · rename_i hmail
        exact h.take hmail
  | rescan scans => exact h.react nofun nofun nofun nofun
  | sweep => exact h.react nofun nofun nofun nofun
  | outbound id timestamp m => exact h.post nofun fun n => (h.linking n).post nofun nofun nofun
  | inbound neighbor bytes => exact h.post nofun fun n => (h.linking n).post nofun nofun nofun
  | discovered neighbor => exact h.post nofun fun n => (h.linking n).post nofun nofun nofun
  | scanEnds =>
      simp only [Crew.perform]
      split
      · exact h
      · have hscans := h.scans
        refine ⟨h.config, h.state, ?_, fun n => ?_⟩
        · simp only [Crew.post, List.count_append, List.count_singleton_self]
          omega
        · have hsame : Linking n { c with scans := c.scans - 1 } :=
            ⟨(h.linking n).pending, (h.linking n).linked, (h.linking n).apart, (h.linking n).order⟩
          exact hsame.post nofun nofun nofun
  | link i news =>
      simp only [Crew.perform]
      split
      · exact h
      · rename_i neighbor phase hi
        split
        · exact h
        · rename_i phase' e hreport
          exact h.report hi hreport

/-- A neighbour has no two link tasks. -/
theorem alive_le (h : Sound config c) (n : String) : c.alive n ≤ 1 := by
  obtain ⟨hpending, hlinked, hapart, -⟩ := h.linking n
  rw [alive]
  omega

/-- There are no two scans. -/
theorem scans_le (h : Sound config c) : c.scans ≤ 1 := by
  have hscans := h.scans
  have hone := Bool.toNat_le c.relay.scanning
  omega

end Sound

theorem sound_after (node : String) (config : MeshConfig) (run : List Move) :
    Sound config ((start node config).after run) := by
  induction run using List.reverseRecOn with
  | nil => exact sound_start node config
  | append_singleton run m ih =>
      rw [after, List.foldl_append]
      exact ih.perform m

/-! ## Who is remembered to have written -/

/-- What a move makes the relay react to. -/
def heard? (c : Crew) : Move → Option RelayEvent
  | .take => c.mail.head?
  | .rescan scans => some (.rescan scans)
  | .sweep => some .sweep
  | _ => none

/-- What is recorded of a neighbour: that it wrote, and when, if it is not linked. -/
def recordOf (c : Crew) : RelayEvent → List (String × Instant)
  | .inbound neighbor _ => if c.relay.isLinked neighbor then [] else [(neighbor, c.now)]
  | _ => []

/-- All that is recorded in a run. -/
def records : Crew → List Move → List (String × Instant)
  | _, [] => []
  | c, m :: run => (c.heard? m).toList.flatMap c.recordOf ++ records (c.perform m) run

theorem react_spec (c : Crew) (e : RelayEvent) : (c.react e).now = c.now ∧
    (c.react e).relay.config = c.relay.config ∧
    (c.react e).relay.accepted = c.relay.acceptedAfter c.now e := by
  have htables := Relay.tablesAfter_handle c.now c.relay e
  rw [react_eq]
  exact ⟨rfl, htables.config, htables.accepted⟩

/-- The accepted neighbours against what has been recorded: only what was recorded is accepted, and
of what was recorded something as late is accepted, unless it is too long ago. -/
structure Remembers (c : Crew) (recorded : List (String × Instant)) : Prop where
  sound : ∀ x ∈ c.relay.accepted, x ∈ recorded
  past : ∀ n t, (n, t) ∈ recorded → t ≤ c.now
  kept : ∀ n t, (n, t) ∈ recorded →
    (∃ limit, Relay.acceptedFor? c.relay.config = some limit ∧ limit ≤ c.now - t) ∨
      ∃ last, (n, last) ∈ c.relay.accepted ∧ t ≤ last

namespace Remembers

variable {recorded : List (String × Instant)} {c' : Crew}

/-- Time may pass while nothing is recorded or forgotten. -/
theorem of_le (h : Remembers c recorded) (hnow : c.now ≤ c'.now)
    (hconfig : c'.relay.config = c.relay.config)
    (haccepted : c'.relay.accepted = c.relay.accepted) : Remembers c' recorded := by
  refine ⟨haccepted ▸ h.sound, fun n t hn => Nat.le_trans (h.past n t hn) hnow, ?_⟩
  intro n t hn
  rw [hconfig, haccepted]
  refine (h.kept n t hn).imp_left ?_
  rintro ⟨limit, hlimit, hlate⟩
  exact ⟨limit, hlimit, Nat.le_trans hlate (Nat.sub_le_sub_right hnow t)⟩

/-- A neighbour is recorded now. -/
theorem record (h : Remembers c recorded) (m : String) (hnow : c'.now = c.now)
    (hconfig : c'.relay.config = c.relay.config)
    (haccepted : c'.relay.accepted = c.relay.accepted.filter (·.1 ≠ m) ++ [(m, c.now)]) :
    Remembers c' (recorded ++ [(m, c.now)]) := by
  refine ⟨?_, ?_, ?_⟩
  · intro x hx
    rw [haccepted] at hx
    rw [List.mem_append] at hx ⊢
    exact hx.imp_left fun hx => h.sound x (List.mem_filter.mp hx).1
  · intro n t hn
    rw [hnow]
    rcases List.mem_append.mp hn with hn | hn
    · exact h.past n t hn
    · cases List.mem_singleton.mp hn
      exact Nat.le_refl _
  · intro n t hn
    rw [hconfig, hnow, haccepted]
    by_cases hm : n = m
    · -- The neighbour is accepted as of now.
      subst hm
      refine Or.inr ⟨c.now, by simp, ?_⟩
      rcases List.mem_append.mp hn with hn | hn
      · exact h.past n t hn
      · cases List.mem_singleton.mp hn
        exact Nat.le_refl _
    · have hold : (n, t) ∈ recorded := by simpa [hm] using hn
      refine (h.kept n t hold).imp_right ?_
      rintro ⟨last, hlast, hle⟩
      exact ⟨last, List.mem_append_left _ (List.mem_filter.mpr ⟨hlast, by simp [hm]⟩), hle⟩

/-- What is too long ago is forgotten. -/
theorem sweep (h : Remembers c recorded) (hnow : c'.now = c.now)
    (hconfig : c'.relay.config = c.relay.config)
    (haccepted : c'.relay.accepted = c.relay.acceptedAfter c.now .sweep) :
    Remembers c' recorded := by
  rw [Relay.acceptedAfter] at haccepted
  cases hlimit : Relay.acceptedFor? c.relay.config with
  | none =>
      rw [hlimit] at haccepted
      exact h.of_le (Nat.le_of_eq hnow.symm) hconfig haccepted
  | some limit =>
      rw [hlimit, Relay.writtenWithin] at haccepted
      refine ⟨?_, hnow ▸ h.past, ?_⟩
      · intro x hx
        rw [haccepted] at hx
        exact h.sound x (List.mem_filter.mp hx).1
      · intro n t hn
        rw [hconfig, hnow, haccepted]
        rcases h.kept n t hn with hlate | ⟨last, hlast, hle⟩
        · exact Or.inl hlate
        · by_cases hrecent : c.now - last < limit
          · exact Or.inr ⟨last, List.mem_filter.mpr ⟨hlast, by simpa using hrecent⟩, hle⟩
          · have hlate := Nat.le_trans (Nat.le_of_not_lt hrecent) (Nat.sub_le_sub_left hle c.now)
            exact Or.inl ⟨limit, hlimit, hlate⟩

/-- So it goes on to be when the relay reacts. -/
theorem react (h : Remembers c recorded) (e : RelayEvent) :
    Remembers (c.react e) (recorded ++ c.recordOf e) := by
  obtain ⟨hnow, hconfig, haccepted⟩ := react_spec c e
  have hsame : (c.react e).relay.accepted = c.relay.accepted → Remembers (c.react e) recorded :=
    h.of_le (Nat.le_of_eq hnow.symm) hconfig
  cases e with
  | inbound m bytes =>
      simp only [Relay.acceptedAfter] at haccepted
      cases hlinked : c.relay.isLinked m with
      | true =>
          rw [hlinked, if_pos rfl] at haccepted
          simpa [recordOf, hlinked] using hsame haccepted
      | false =>
          rw [hlinked, if_neg Bool.false_ne_true] at haccepted
          simpa [recordOf, hlinked] using h.record m hnow hconfig haccepted
  | sweep => simpa [recordOf] using h.sweep hnow hconfig haccepted
  | outbound _ _ _ | discovered _ | linked _ | linkFailed _ | linkClosed _ | scanEnded | rescan _ =>
      simpa [recordOf] using hsame haccepted

/-- And through every move. -/
theorem perform (h : Remembers c recorded) (m : Move) :
    Remembers (c.perform m) (recorded ++ (c.heard? m).toList.flatMap c.recordOf) := by
  have hidle : ∀ {c' : Crew}, c.now ≤ c'.now → c'.relay = c.relay →
      Remembers c' (recorded ++ []) := by
    intro c' hnow hrelay
    rw [List.append_nil]
    exact h.of_le hnow (congrArg Relay.config hrelay) (congrArg Relay.accepted hrelay)
  cases m with
  | take =>
      simp only [Crew.perform, heard?]
      cases hmail : c.mail with
      | nil => exact hidle (Nat.le_refl _) rfl
      | cons e rest =>
          have hrest : Remembers { c with mail := rest } recorded := ⟨h.sound, h.past, h.kept⟩
          simpa [recordOf] using hrest.react e
  | rescan scans => simpa [heard?, Crew.perform] using h.react (.rescan scans)
  | sweep => simpa [heard?, Crew.perform] using h.react .sweep
  | wait d => exact hidle (Nat.le_add_right _ d) rfl
  | outbound _ _ _ | inbound _ _ | discovered _ => exact hidle (Nat.le_refl _) rfl
  | scanEnds =>
      simp only [Crew.perform]
      split <;> exact hidle (Nat.le_refl _) rfl
  | link i news =>
      simp only [Crew.perform]
      split
      · exact hidle (Nat.le_refl _) rfl
      · split <;> exact hidle (Nat.le_refl _) rfl

theorem after (h : Remembers c recorded) (run : List Move) :
    Remembers (c.after run) (recorded ++ c.records run) := by
  induction run generalizing c recorded with
  | nil => exact (List.append_nil recorded).symm ▸ h
  | cons m run ih =>
      have hlater := ih (h.perform m)
      rw [List.append_assoc] at hlater
      exact hlater

end Remembers

/-- Right after a sweep, those count as having written that have been recorded to lately, if it is a
length of time within which they have to. -/
theorem mem_accepted_sweep_iff (node : String) (config : MeshConfig) (run : List Move) (n : String)
    {limit : Duration} (hlimit : Relay.acceptedFor? config = some limit) :
    n ∈ (((start node config).after run).perform .sweep).relay.accepted.map (·.1) ↔
      ∃ t, (n, t) ∈ (start node config).records run ∧
        ((start node config).after run).now - t < limit := by
  have hstart : Remembers (start node config) [] :=
    ⟨fun x hx => absurd hx List.not_mem_nil, nofun, nofun⟩
  have hremembers := hstart.after run
  have hsound := sound_after node config run
  rw [List.nil_append] at hremembers
  generalize (start node config).after run = c at hremembers hsound
  have haccepted := (react_spec c .sweep).2.2
  rw [Relay.acceptedAfter, hsound.config, hlimit, Relay.writtenWithin] at haccepted
  rw [perform, haccepted]
  simp only [List.mem_map, List.mem_filter, decide_eq_true_eq]
  constructor
  · rintro ⟨⟨_, t⟩, ⟨hmem, hrecent⟩, rfl⟩
    exact ⟨t, hremembers.sound _ hmem, hrecent⟩
  · rintro ⟨t, ht, hrecent⟩
    rcases hremembers.kept n t ht with ⟨limit', hlimit', hlate⟩ | ⟨last, hlast, hle⟩
    · rw [hsound.config, hlimit, Option.some.injEq] at hlimit'
      exact absurd (hlimit' ▸ hrecent) (Nat.not_lt.mpr hlate)
    · exact ⟨(n, last), ⟨hlast, Nat.lt_of_le_of_lt (Nat.sub_le_sub_left hle c.now) hrecent⟩, rfl⟩

end Crew

end PeerCall.Mesh
