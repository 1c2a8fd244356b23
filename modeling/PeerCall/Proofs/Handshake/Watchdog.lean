import PeerCall.Probe
import PeerCall.Proofs.Handshake.Effects

/-!
# Stage and watchdog through a whole call

A session is bound, events happen to it, and the media engine goes on by itself between them, all in
any order and at any readings of the clock. Whatever the engine does, an established or a finished
call has no watchdog, a host that failed has one, its deadline is the grace period after the first
failure since it was disarmed, and each arming leads to one handover offer at most.
-/
namespace PeerCall.Handshake

variable {σ : Type}

/-- What can happen to a session. -/
inductive Occurrence (σ : Type)
  | bind (channel : Nat)
  | event (e : Event)
  /-- The media engine changes its state on its own. -/
  | engine (media : σ)

/-- Whether an occurrence disarms the watchdog before it does anything else. -/
def Occurrence.disarms : Occurrence σ → Bool
  | .bind _ | .event .watchdog => true
  | .event _ | .engine _ => false

/-- The session after an occurrence. -/
def Session.step (p : Party σ) (now : Instant) (s : Session σ) : Occurrence σ → Session σ
  | .bind channel => s.bind p now channel
  | .event e => s.handle p now e
  | .engine media => { s with media }

/-- The deadline that a failure finds when it is the first one of an occurrence. -/
def Session.found (s : Session σ) (o : Occurrence σ) : Option Instant :=
  if o.disarms then none else s.watchdog

section
variable (p : Party σ) (media : σ) (run : List (Instant × Occurrence σ))

/-- The session after the first steps of a run. -/
def sessionAt (k : Nat) : Session σ :=
  (run.take k).foldl (fun s x => s.step p x.1 x.2) (.start media)

/-- The watchdog comes only when it is armed and due; everything else comes as it likes. -/
def WatchdogDue : Prop :=
  ∀ k now, run[k]? = some (now, .event .watchdog) →
    ∃ deadline, (sessionAt p media run k).watchdog = some deadline ∧ deadline ≤ now

/-- The deeds of a step. -/
def deedsAt (k : Nat) : List Deed :=
  deedsSince (sessionAt p media run k) (sessionAt p media run (k + 1))

/-- A step notes a failure. -/
def FailsAt (k : Nat) : Prop := ∃ d ∈ deedsAt p media run k, d.isFailure = true

/-- A step offers over every path, as a handover does. -/
def OffersAt (k : Nat) : Prop := ∃ d ∈ deedsAt p media run k, d.isBroadcast = true

/-- The deadline that a failure in a step finds. -/
def foundAt (k : Nat) : Option Instant :=
  match run[k]? with
  | some x => (sessionAt p media run k).found x.2
  | none => (sessionAt p media run k).watchdog

/-- A step notes a failure that finds no deadline and so sets this one. -/
def ArmsAt (k : Nat) (deadline : Instant) : Prop :=
  FailsAt p media run k ∧ foundAt p media run k = none ∧
    ∃ now o, run[k]? = some (now, o) ∧ deadline = now + p.config.watchdogGrace

end

variable {p : Party σ} {media : σ} {run : List (Instant × Occurrence σ)} {s s' : Session σ}
  {now : Instant} {o : Occurrence σ} {i j k : Nat}

/-! ## One step -/

/-- Stage and watchdog fit together. -/
structure Consistent (p : Party σ) (s : Session σ) : Prop where
  established : s.stage = .linkEstablished → s.watchdog = none
  idle : s.stage = .idle → s.watchdog = none
  failed : p.role = .host → s.stage = .failed → ∃ deadline, s.watchdog = some deadline

theorem consistent_start (p : Party σ) (media : σ) : Consistent p (Session.start media) := by
  refine ⟨fun _ => rfl, fun _ => rfl, ?_⟩
  intro _ h
  cases h

theorem consistent_of_passing (h : s.stage.isPassing = true) : Consistent p s := by
  refine ⟨?_, ?_, ?_⟩
  · intro hstage
    rw [hstage] at h
    cases h
  · intro hstage
    rw [hstage] at h
    cases h
  · intro _ hstage
    rw [hstage] at h
    cases h

theorem consistent_of_armed {deadline : Instant} (h : s.watchdog = some deadline)
    (hstage : s.stage = .failed ∨ s.stage.isPassing = true) : Consistent p s := by
  rcases hstage with hstage | hpass
  · refine ⟨?_, ?_, fun _ _ => ⟨deadline, h⟩⟩
    · intro hstage'
      rw [hstage] at hstage'
      cases hstage'
    · intro hstage'
      rw [hstage] at hstage'
      cases hstage'
  · exact consistent_of_passing hpass

theorem consistent_of_disarmed (h : s.watchdog = none)
    (hstage : s.stage = .failed → p.role = .joiner) : Consistent p s := by
  refine ⟨fun _ => h, fun _ => h, ?_⟩
  intro hrole hfailed
  rw [hstage hfailed] at hrole
  cases hrole

theorem Consistent.calm (hs : Consistent p s) (h : Calm s s') : Consistent p s' := by
  rcases h.stage with hstays | hpass
  · refine ⟨?_, ?_, ?_⟩ <;> rw [h.watchdog, hstays.1]
    · exact hs.established
    · exact hs.idle
    · exact hs.failed
  · exact consistent_of_passing hpass

theorem consistent_established (h : Established s s') : Consistent p s' := by
  refine consistent_of_disarmed h.watchdog ?_
  intro hfailed
  rw [h.stage] at hfailed
  cases hfailed

theorem Consistent.effect (hs : Consistent p s) (h : Effect p now s s') : Consistent p s' := by
  cases h with
  | calm h => exact hs.calm h
  | noted h => exact consistent_of_armed h.watchdog h.stage
  | linked h => exact consistent_established h.toEstablished
  | ended h =>
      refine consistent_of_disarmed h.watchdog ?_
      intro hfailed
      rw [h.stage] at hfailed
      cases hfailed

theorem consistent_expired (h : Expired p now s s') : Consistent p s' := by
  cases h with
  | linked h => exact consistent_established h.toEstablished
  | waits hrole hwatchdog _ _ => exact consistent_of_disarmed hwatchdog fun _ => hrole
  | handsOver _ hstage _ => exact consistent_of_passing hstage
  | fails hwatchdog hstage _ => exact consistent_of_armed hwatchdog (Or.inl hstage)

theorem consistent_bound (h : Bound p now s s') : Consistent p s' := by
  cases h with
  | sets _ hstage _ => exact consistent_of_passing hstage
  | fails hwatchdog hstage _ => exact consistent_of_armed hwatchdog (Or.inl hstage)

/-- **A step keeps stage and watchdog consistent.** -/
theorem Consistent.step (hs : Consistent p s) (now : Instant) (o : Occurrence σ) :
    Consistent p (s.step p now o) := by
  cases o with
  | bind channel => exact consistent_bound (bound_bind channel)
  | engine media => exact ⟨hs.established, hs.idle, hs.failed⟩
  | event e =>
      have hhandled : Handled p now s e (s.step p now (.event e)) := handled p now s e
      cases hhandled with
      | effect _ h => exact hs.effect h
      | news h => exact consistent_established h
      | expired h => exact consistent_expired h

/-- The media engine reports a connection, on its own or when it is asked behind a step. -/
def ReportsConnection (p : Party σ) (o : Occurrence σ) (s' : Session σ) : Prop :=
  o = .event (.engine .connected) ∨ engineState p s' = .connected

/-- The last stage is entered: it was left or never reached before, or left during the step. -/
def Entered (s s' : Session σ) : Prop := s'.stage = .linkEstablished ∧ ¬ Stays s s'

/-- The last stage is entered only on a report of the media engine. -/
theorem Entered.reportsConnection (h : Entered s (s.step p now o)) :
    ReportsConnection p o (s.step p now o) := by
  obtain ⟨hafter, hleft⟩ := h
  have hpassing : ¬ (s.step p now o).stage.isPassing = true := by
    rw [hafter]
    exact Bool.false_ne_true
  have hfailed : ¬ (s.step p now o).stage = .failed := by
    rw [hafter]
    exact Stage.noConfusion
  cases o with
  | engine media => exact absurd (stays_of_eq rfl rfl) hleft
  | bind channel =>
      have hbound : Bound p now s (s.step p now (.bind channel)) := bound_bind channel
      cases hbound with
      | sets _ hstage _ => exact absurd hstage hpassing
      | fails _ hstage _ => exact absurd hstage hfailed
  | event e =>
      have hhandled : Handled p now s e (s.step p now (.event e)) := handled p now s e
      cases hhandled with
      | news _ => exact Or.inl rfl
      | expired h =>
          cases h with
          | linked h => exact Or.inr h.connected
          | waits _ _ hstage hlog => exact absurd (stays_of_eq hstage hlog) hleft
          | handsOver _ hstage _ => exact absurd hstage hpassing
          | fails _ hstage _ => exact absurd hstage hfailed
      | effect _ h =>
          cases h with
          | linked h => exact Or.inr h.connected
          | noted h => exact absurd h.stage (not_or.mpr ⟨hfailed, hpassing⟩)
          | calm h =>
              rcases h.stage with hstays | hpass
              · exact absurd hstays hleft
              · exact absurd hpass hpassing
          | ended h =>
              have hstage := h.stage.symm.trans hafter
              cases hstage

/-- How the watchdog goes through a step. -/
inductive Progress (p : Party σ) (now : Instant) (s : Session σ) (o : Occurrence σ)
    (s' : Session σ) : Prop
  | keeps (hwatchdog : s'.watchdog = s.found o) (hdeeds : ∃ ds, Added s s' ds ∧ Quiet ds)
  | disarms (hwatchdog : s'.watchdog = none) (hdeeds : ∃ ds, Added s s' ds ∧ Quiet ds)
  | offers (hevent : o = .event .watchdog) (hwatchdog : s'.watchdog = none)
    (hdeeds : ∃ ds, Added s s' ds ∧ (∀ d ∈ ds, d.isFailure = false) ∧
      (ds.filter Deed.isBroadcast).length = 1)
  | fails (hwatchdog : s'.watchdog = some ((s.found o).getD (now + p.config.watchdogGrace)))
    (hdeeds : ∃ ds, Added s s' ds ∧ Failing ds)

/-- **Each step keeps a deadline, sets one where there is none, or disarms the watchdog.** -/
theorem progress_step (p : Party σ) (now : Instant) (s : Session σ) (o : Occurrence σ) :
    Progress p now s o (s.step p now o) := by
  cases o with
  | engine media => exact .keeps rfl ⟨[], added_nil rfl, fun _ h => absurd h List.not_mem_nil⟩
  | bind channel =>
      have hfound : s.found (.bind channel : Occurrence σ) = none := rfl
      have hbound : Bound p now s (s.step p now (.bind channel)) := bound_bind channel
      cases hbound with
      | sets hwatchdog _ hdeeds => exact .disarms hwatchdog hdeeds
      | fails hwatchdog _ hdeeds =>
          refine .fails ?_ hdeeds
          rw [hfound, Option.getD_none]
          exact hwatchdog
  | event e =>
      have hhandled : Handled p now s e (s.step p now (.event e)) := handled p now s e
      cases hhandled with
      | news h => exact .disarms h.watchdog h.deeds
      | expired h =>
          have hfound : s.found (.event .watchdog : Occurrence σ) = none := rfl
          cases h with
          | linked h => exact .disarms h.watchdog h.deeds
          | waits _ hwatchdog _ hlog =>
              exact .disarms hwatchdog ⟨[], added_nil hlog, fun _ h => absurd h List.not_mem_nil⟩
          | handsOver hwatchdog _ hdeeds => exact .offers rfl hwatchdog hdeeds
          | fails hwatchdog _ hdeeds =>
              refine .fails ?_ hdeeds
              rw [hfound, Option.getD_none]
              exact hwatchdog
      | effect he h =>
          have hfound : s.found (.event e : Occurrence σ) = s.watchdog := by
            cases e with
            | watchdog => exact absurd rfl he
            | _ => rfl
          cases h with
          | calm h => exact .keeps (h.watchdog.trans hfound.symm) h.deeds
          | noted h =>
              refine .fails ?_ h.deeds
              rw [hfound]
              exact h.watchdog
          | linked h => exact .disarms h.watchdog h.deeds
          | ended h => exact .disarms h.watchdog h.deeds

/-! ## Runs -/

theorem sessionAt_succ (hk : run[k]? = some (now, o)) :
    sessionAt p media run (k + 1) = (sessionAt p media run k).step p now o := by
  simp [sessionAt, List.take_add_one, hk]

theorem sessionAt_succ_of_none (hk : run[k]? = none) :
    sessionAt p media run (k + 1) = sessionAt p media run k := by
  simp [sessionAt, List.take_add_one, hk]

theorem consistent_sessionAt (p : Party σ) (media : σ) (run : List (Instant × Occurrence σ))
    (k : Nat) : Consistent p (sessionAt p media run k) := by
  induction k with
  | zero => exact consistent_start p media
  | succ k ih =>
      cases hk : run[k]? with
      | none =>
          rw [sessionAt_succ_of_none hk]
          exact ih
      | some x =>
          rw [sessionAt_succ hk]
          exact ih.step x.1 x.2

theorem progressAt (p : Party σ) (media : σ) (hk : run[k]? = some (now, o)) :
    Progress p now (sessionAt p media run k) o (sessionAt p media run (k + 1)) := by
  rw [sessionAt_succ hk]
  exact progress_step p now _ o

theorem foundAt_eq (hk : run[k]? = some (now, o)) :
    foundAt p media run k = (sessionAt p media run k).found o := by
  rw [foundAt, hk]

theorem foundAt_of_none (hk : run[k]? = none) :
    foundAt p media run k = (sessionAt p media run k).watchdog := by
  rw [foundAt, hk]

/-- A step that does something is one of the run. -/
theorem exists_of_deedsAt {d : Deed} (hd : d ∈ deedsAt p media run k) :
    ∃ now o, run[k]? = some (now, o) := by
  cases hk : run[k]? with
  | some x => exact ⟨x.1, x.2, rfl⟩
  | none => simp [deedsAt, deedsSince, sessionAt_succ_of_none hk] at hd

/-- A step with quiet deeds neither notes a failure nor hands over. -/
theorem fine_of_quiet (h : ∃ ds, Added (sessionAt p media run k)
    (sessionAt p media run (k + 1)) ds ∧ Quiet ds) :
    ¬ FailsAt p media run k ∧ ¬ OffersAt p media run k := by
  obtain ⟨ds, hds, hquiet⟩ := h
  have heq : deedsAt p media run k = ds := hds.deedsSince_eq
  refine ⟨?_, ?_⟩
  · rintro ⟨d, hd, hfailure⟩
    rw [heq] at hd
    rw [(hquiet d hd).1] at hfailure
    cases hfailure
  · rintro ⟨d, hd, hbroadcast⟩
    rw [heq] at hd
    rw [(hquiet d hd).2] at hbroadcast
    cases hbroadcast

/-- A step with failing deeds notes a failure and does not hand over. -/
theorem failsAt_of_failing (h : ∃ ds, Added (sessionAt p media run k)
    (sessionAt p media run (k + 1)) ds ∧ Failing ds) :
    FailsAt p media run k ∧ ¬ OffersAt p media run k := by
  obtain ⟨ds, hds, ⟨d, hd, hfailure⟩, hnone⟩ := h
  have heq : deedsAt p media run k = ds := hds.deedsSince_eq
  refine ⟨⟨d, by rw [heq]; exact hd, hfailure⟩, ?_⟩
  rintro ⟨e, he, hbroadcast⟩
  rw [heq] at he
  rw [hnone e he] at hbroadcast
  cases hbroadcast

/-- A step that notes a failure leaves the deadline that it found, or sets one. -/
theorem watchdog_of_failsAt (hk : run[k]? = some (now, o))
    (hfails : FailsAt p media run k) :
    (sessionAt p media run (k + 1)).watchdog =
      some ((foundAt p media run k).getD (now + p.config.watchdogGrace)) := by
  rw [foundAt_eq hk]
  cases progressAt p media hk with
  | fails hwatchdog _ => exact hwatchdog
  | keeps _ hdeeds => exact absurd hfails (fine_of_quiet hdeeds).1
  | disarms _ hdeeds => exact absurd hfails (fine_of_quiet hdeeds).1
  | offers _ _ hdeeds =>
      obtain ⟨ds, hds, hfine, -⟩ := hdeeds
      obtain ⟨d, hd, hfailure⟩ := hfails
      rw [deedsAt, hds.deedsSince_eq] at hd
      rw [hfine d hd] at hfailure
      cases hfailure

/-- A step that hands over is one of the watchdog, which was armed and due. It notes no failure and
leaves the watchdog disarmed, after one offer. -/
structure HandsOver (p : Party σ) (media : σ) (run : List (Instant × Occurrence σ)) (k : Nat) :
    Prop where
  event : ∃ now deadline, run[k]? = some (now, .event .watchdog) ∧
    (sessionAt p media run k).watchdog = some deadline ∧ deadline ≤ now
  fine : ¬ FailsAt p media run k
  disarmed : (sessionAt p media run (k + 1)).watchdog = none
  once : ((deedsAt p media run k).filter Deed.isBroadcast).length = 1

theorem handsOver_of_offersAt (hdue : WatchdogDue p media run) (hoffers : OffersAt p media run k) :
    HandsOver p media run k := by
  obtain ⟨now, o, hk⟩ : ∃ now o, run[k]? = some (now, o) := by
    obtain ⟨d, hd, -⟩ := hoffers
    exact exists_of_deedsAt hd
  cases progressAt p media hk with
  | offers hevent hwatchdog hdeeds =>
      subst hevent
      obtain ⟨deadline, harmed, hpassed⟩ := hdue k now hk
      obtain ⟨ds, hds, hfine, hone⟩ := hdeeds
      have heq : deedsAt p media run k = ds := hds.deedsSince_eq
      refine ⟨⟨now, deadline, hk, harmed, hpassed⟩, ?_, hwatchdog, by rw [heq]; exact hone⟩
      rintro ⟨e, he, hfailure⟩
      rw [heq] at he
      rw [hfine e he] at hfailure
      cases hfailure
  | keeps _ hdeeds => exact absurd hoffers (fine_of_quiet hdeeds).2
  | disarms _ hdeeds => exact absurd hoffers (fine_of_quiet hdeeds).2
  | fails _ hdeeds => exact absurd hoffers (failsAt_of_failing hdeeds).2

theorem HandsOver.foundAt_eq_none (h : HandsOver p media run k) : foundAt p media run k = none := by
  obtain ⟨now, deadline, hk, -, -⟩ := h.event
  rw [foundAt_eq hk]
  rfl

/-- A deadline that is found was not disarmed by the step that found it. -/
theorem watchdog_of_foundAt {deadline : Instant} (h : foundAt p media run k = some deadline) :
    (sessionAt p media run k).watchdog = some deadline := by
  cases hk : run[k]? with
  | none => rwa [foundAt_of_none hk] at h
  | some x =>
      rw [foundAt_eq hk, Session.found] at h
      by_cases hdisarms : x.2.disarms = true
      · rw [if_pos hdisarms] at h
        cases h
      · rwa [if_neg hdisarms] at h

/-- An armed deadline was found by the step before, or the step before set it. -/
theorem found_or_arms {deadline : Instant}
    (h : (sessionAt p media run (k + 1)).watchdog = some deadline) :
    foundAt p media run k = some deadline ∨ ArmsAt p media run k deadline := by
  cases hk : run[k]? with
  | none =>
      rw [sessionAt_succ_of_none hk] at h
      exact Or.inl (by rw [foundAt_of_none hk, h])
  | some x =>
      cases progressAt p media hk with
      | keeps hwatchdog _ => exact Or.inl (by rw [foundAt_eq hk, ← hwatchdog, h])
      | disarms hwatchdog _ =>
          rw [hwatchdog] at h
          cases h
      | offers _ hwatchdog _ =>
          rw [hwatchdog] at h
          cases h
      | fails hwatchdog hdeeds =>
          rw [hwatchdog] at h
          injection h with h
          cases hfound : foundAt p media run k with
          | some d =>
              rw [foundAt_eq hk] at hfound
              rw [hfound, Option.getD_some] at h
              exact Or.inl (by rw [h])
          | none =>
              refine Or.inr ⟨(failsAt_of_failing hdeeds).1, hfound, x.1, x.2, hk, ?_⟩
              rw [foundAt_eq hk] at hfound
              rw [hfound, Option.getD_none] at h
              exact h.symm

/-- **An armed deadline was set by a failure, and every step since has found it.** -/
theorem armed_since {deadline : Instant} (k : Nat)
    (h : (sessionAt p media run k).watchdog = some deadline) :
    ∃ j < k, ArmsAt p media run j deadline ∧
      ∀ i, j < i → i < k → foundAt p media run i = some deadline := by
  induction k with
  | zero => cases h
  | succ k ih =>
      rcases found_or_arms h with hfound | harms
      · obtain ⟨j, hj, harms, hsince⟩ := ih (watchdog_of_foundAt hfound)
        refine ⟨j, Nat.lt_succ_of_lt hj, harms, ?_⟩
        intro i hji hik
        rcases Nat.lt_succ_iff_lt_or_eq.mp hik with hik | rfl
        · exact hsince i hji hik
        · exact hfound
      · refine ⟨k, Nat.lt_succ_self k, harms, ?_⟩
        intro i hki hik
        omega

/-- **Each handover has an arming of its own**: no other handover lies between the two. -/
theorem arms_before_offer (hdue : WatchdogDue p media run) (hj : OffersAt p media run j) :
    ∃ l deadline, l < j ∧ ArmsAt p media run l deadline ∧
      ∀ i, l ≤ i → i < j → ¬ OffersAt p media run i := by
  obtain ⟨now, deadline, -, harmed, -⟩ := (handsOver_of_offersAt hdue hj).event
  obtain ⟨l, hlj, harms, hsince⟩ := armed_since j harmed
  refine ⟨l, deadline, hlj, harms, ?_⟩
  intro i hli hij hi
  have hi := handsOver_of_offersAt hdue hi
  rcases Nat.lt_or_eq_of_le hli with hlt | rfl
  · have hfound := hsince i hlt hij
    rw [hi.foundAt_eq_none] at hfound
    cases hfound
  · exact hi.fine harms.1

/-- The watchdog's event disarms it, unless the handover fails. -/
theorem disarmed_of_watchdog (hk : run[k]? = some (now, .event .watchdog))
    (hfine : ¬ FailsAt p media run k) : (sessionAt p media run (k + 1)).watchdog = none := by
  cases progressAt p media hk with
  | keeps hwatchdog _ => exact hwatchdog
  | disarms hwatchdog _ => exact hwatchdog
  | offers _ hwatchdog _ => exact hwatchdog
  | fails _ hdeeds => exact absurd (failsAt_of_failing hdeeds).1 hfine

/-! ## The whole -/

/-- **Stage and watchdog stay consistent**, whatever the media engine does and wherever its calls
fail. The last stage is entered only on a report of the engine, and has no watchdog; neither has a
call that is over; a host that failed has one. A deadline is the grace period behind the first
failure since the watchdog was disarmed, and no later failure moves it. A handover that succeeds
disarms the watchdog, and each arming leads to one offer at most. -/
theorem watchdog_consistent (p : Party σ) (media : σ) (run : List (Instant × Occurrence σ))
    (hdue : WatchdogDue p media run) :
    (∀ k now o, run[k]? = some (now, o) →
      Entered (sessionAt p media run k) (sessionAt p media run (k + 1)) →
      ReportsConnection p o (sessionAt p media run (k + 1))) ∧
    (∀ k, (sessionAt p media run k).stage = .linkEstablished →
      (sessionAt p media run k).watchdog = none) ∧
    (∀ k, (sessionAt p media run k).stage = .idle → (sessionAt p media run k).watchdog = none) ∧
    (p.role = .host → ∀ k, (sessionAt p media run k).stage = .failed →
      ∃ deadline, (sessionAt p media run k).watchdog = some deadline) ∧
    (∀ k deadline, (sessionAt p media run k).watchdog = some deadline →
      ∃ j < k, ArmsAt p media run j deadline ∧
        ∀ i, j < i → i < k → foundAt p media run i = some deadline) ∧
    (∀ k now o, run[k]? = some (now, o) → FailsAt p media run k →
      (sessionAt p media run (k + 1)).watchdog =
        some ((foundAt p media run k).getD (now + p.config.watchdogGrace))) ∧
    (∀ k now, run[k]? = some (now, .event .watchdog) → ¬ FailsAt p media run k →
      (sessionAt p media run (k + 1)).watchdog = none) ∧
    (∀ k, OffersAt p media run k → HandsOver p media run k) ∧
    (∀ j, OffersAt p media run j → ∃ l deadline, l < j ∧ ArmsAt p media run l deadline ∧
      ∀ i, l ≤ i → i < j → ¬ OffersAt p media run i) := by
  have hconsistent := consistent_sessionAt p media run
  refine ⟨?_, fun k => (hconsistent k).established, fun k => (hconsistent k).idle,
    fun hrole k => (hconsistent k).failed hrole, fun k _ h => armed_since k h, ?_, ?_, ?_, ?_⟩
  · intro k now o hk hentered
    rw [sessionAt_succ hk] at hentered ⊢
    exact hentered.reportsConnection
  · intro k now o hk hfails
    exact watchdog_of_failsAt hk hfails
  · intro k now hk hfine
    exact disarmed_of_watchdog hk hfine
  · intro k hoffers
    exact handsOver_of_offersAt hdue hoffers
  · intro j hoffers
    exact arms_before_offer hdue hoffers

/-- A host with a probe engine, and nothing configured. -/
def plainHost : Party Probe where
  role := .host
  sender := "host"
  keypair := .ofSecret .standard ⟨List.replicate 32 0, rfl⟩
  config := .standard
  engine := Probe.engine (.v4 127 0 0 1)
  suite := .standard
  ephemeral _ := ⟨List.replicate 32 0, rfl⟩

/-- The media fail twice, and the grace period behind the first time passes. -/
def recovery : List (Instant × Occurrence Probe) :=
  [(0, .bind 0), (7, .event (.engine .failed)), (8, .event (.engine .failed)),
    (5000000007, .event .watchdog)]

theorem watchdogDue_recovery : WatchdogDue plainHost (.start 1) recovery := by
  intro k now hk
  match k with
  | 0 | 1 | 2 => cases hk
  | 3 =>
      cases hk
      exact ⟨5000000007, by decide +kernel, Nat.le_refl _⟩
  | _ + 4 => cases hk

/-- The media fail twice, and the host hands over after the first deadline. -/
theorem watchdog_consistent_recovery :
    WatchdogDue plainHost (.start 1) recovery ∧ OffersAt plainHost (.start 1) recovery 3 ∧
      HandsOver plainHost (.start 1) recovery 3 ∧
      ∃ l deadline, l < 3 ∧ ArmsAt plainHost (.start 1) recovery l deadline ∧
        ∀ i, l ≤ i → i < 3 → ¬ OffersAt plainHost (.start 1) recovery i := by
  have hoffers : OffersAt plainHost (.start 1) recovery 3 := by
    refine ⟨(deedsAt plainHost (.start 1) recovery 3).getLast?.getD (.connect 0), ?_, ?_⟩
    · decide +kernel
    · decide +kernel
  obtain ⟨-, -, -, -, -, -, -, hhandover, harming⟩ :=
    watchdog_consistent plainHost (.start 1) recovery watchdogDue_recovery
  exact ⟨watchdogDue_recovery, hoffers, hhandover 3 hoffers, harming 3 hoffers⟩

end PeerCall.Handshake
