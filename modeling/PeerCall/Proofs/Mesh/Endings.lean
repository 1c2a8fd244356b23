import PeerCall.Proofs.Mesh.Linking

/-!
# How long a relay lasts

A relay has its tables in order as long as it runs. By itself it ends in one case only: when it
sweeps, and three intervals of looking for neighbours are more than any length of time. All that it
had under way is gone then, and nobody corrects what it reported last.
-/
namespace PeerCall.Mesh

/-- When an event ends a relay. -/
theorem Relay.endsWith_iff {r : Relay} {e : RelayEvent} : r.endsWith e = true ↔
    e = .sweep ∧ Duration.longest < 3 * r.config.rescanInterval := by
  cases e with
  | sweep =>
      rw [endsWith, Option.isNone_iff_eq_none, acceptedFor?, Duration.times?_eq_none_iff]
      exact (and_iff_right rfl).symm
  | outbound _ _ _ | inbound _ _ | discovered _ | linked _ | linkFailed _ | linkClosed _ | scanEnded
  | rescan _ => simp [endsWith]

namespace Crew

variable {c : Crew} {node : String} {config : MeshConfig}

/-- Whether the relay ends with a move. -/
def endsWith (c : Crew) (m : Move) : Bool := (c.heard? m).any c.relay.endsWith

/-- The order in which a relay has its affairs. -/
structure Orderly (c : Crew) : Prop where
  /-- No neighbour is both linked and about to be linked. -/
  apart : ∀ n ∈ c.relay.pending, c.relay.isLinked n = false
  /-- No neighbour has two link tasks. -/
  tasks : ∀ n, c.alive n ≤ 1
  scans : c.scans ≤ 1
  /-- It reports whether it has a link, or a neighbour has written to it. -/
  reported : c.relay.state =
    if c.relay.links = [] ∧ c.relay.accepted = [] then .connecting else .connected

theorem Sound.orderly (h : Sound config c) : Orderly c where
  apart n hn := by
    have hpending := List.count_pos_iff.mpr hn
    have happart := (h.linking n).apart
    rw [← Bool.not_eq_true, Relay.isLinked_iff]
    omega
  tasks := h.alive_le
  scans := h.scans_le
  reported := h.state

theorem after_concat (c : Crew) (run : List Move) (m : Move) :
    c.after (run ++ [m]) = (c.after run).perform m := List.foldl_append

/-- Sweeps are not announced by mail. -/
theorem sweep_notMem_mail (node : String) (config : MeshConfig) (run : List Move) :
    .sweep ∉ ((start node config).after run).mail := by
  induction run using List.reverseRecOn with
  | nil => exact List.not_mem_nil
  | append_singleton run m ih =>
      rw [after_concat]
      generalize (start node config).after run = c at ih
      have hpost : ∀ {c' : Crew} {e : RelayEvent}, c'.mail = c.mail → e ≠ .sweep →
          .sweep ∉ (c'.post e).mail := by
        intro c' e hmail he
        simp [post, hmail, ih, he.symm]
      cases m with
      | wait d => exact ih
      | take =>
          simp only [perform]
          split
          · exact ih
          · rename_i hmail
            rw [hmail] at ih
            rw [react_eq]
            exact fun hmem => ih (List.mem_cons_of_mem _ hmem)
      | rescan _ | sweep =>
          rw [perform, react_eq]
          exact ih
      | outbound _ _ _ | inbound _ _ | discovered _ => exact hpost rfl (by simp)
      | scanEnds =>
          simp only [perform]
          split
          · exact ih
          · exact hpost rfl (by simp)
      | link i news =>
          simp only [perform]
          split
          · exact ih
          · rename_i neighbor phase hi
            split
            · exact ih
            · rename_i phase' e hreport
              refine hpost rfl ?_
              cases phase <;> cases news <;> cases hreport <;> simp

/-- A move other than a sweep ends no relay. -/
theorem not_endsWith {m : Move} (hmail : .sweep ∉ c.mail) (hm : m ≠ .sweep) :
    ¬ c.endsWith m = true := by
  have hnot : ∀ e, e ≠ .sweep → ¬ c.relay.endsWith e = true :=
    fun e he hends => he (Relay.endsWith_iff.mp hends).1
  rw [endsWith, Option.any_eq_true]
  rintro ⟨e, he, hends⟩
  refine hnot e ?_ hends
  rintro rfl
  cases m with
  | sweep => exact hm rfl
  | take => exact hmail (List.mem_of_mem_head? he)
  | rescan _ | wait _ | outbound _ _ _ | inbound _ _ | discovered _ | scanEnds | link _ _ => cases he

/-- When a move ends a relay. -/
theorem endsWith_after_iff (node : String) (config : MeshConfig) (run : List Move) (m : Move) :
    ((start node config).after run).endsWith m = true ↔
      m = .sweep ∧ Duration.longest < 3 * config.rescanInterval := by
  have hsweep : ((start node config).after run).endsWith .sweep = true ↔
      Duration.longest < 3 * config.rescanInterval := by
    rw [endsWith, heard?, Option.any_some, Relay.endsWith_iff, (sound_after node config run).config]
    exact and_iff_right rfl
  by_cases hm : m = .sweep
  · rw [hm, hsweep]
    exact (and_iff_right rfl).symm
  · exact iff_of_false (not_endsWith (sweep_notMem_mail node config run) hm) fun h => hm h.1

end Crew

/-! ## Relays that run or have ended -/

/-- What has become of a relay. -/
inductive Fate
  | runs (c : Crew)
  /-- It has ended. What it reported last is reported for good. -/
  | ended (reported : ChannelState)

namespace Fate

variable {node : String} {config : MeshConfig} {run : List Move} {c : Crew}

/-- A relay that has just started. -/
def started (node : String) (config : MeshConfig) : Fate := .runs (.start node config)

/-- What a move makes of a relay. -/
def perform : Fate → Move → Fate
  | .runs c, m => if c.endsWith m then .ended c.relay.state else .runs (c.perform m)
  | .ended reported, _ => .ended reported

/-- What a run makes of a relay. -/
def after (fate : Fate) (run : List Move) : Fate := run.foldl perform fate

theorem after_append (fate : Fate) (run rest : List Move) :
    fate.after (run ++ rest) = (fate.after run).after rest := List.foldl_append

theorem after_ended (last : ChannelState) (run : List Move) :
    (ended last).after run = .ended last := by
  induction run with
  | nil => rfl
  | cons m run ih => exact ih

/-- Without a sweep, or with intervals that are short enough, a relay runs on. -/
theorem after_eq_runs (h : .sweep ∈ run → 3 * config.rescanInterval ≤ Duration.longest) :
    (started node config).after run = .runs ((Crew.start node config).after run) := by
  induction run using List.reverseRecOn with
  | nil => rfl
  | append_singleton run m ih =>
      have hon : ¬ ((Crew.start node config).after run).endsWith m = true := by
        rw [Crew.endsWith_after_iff]
        rintro ⟨rfl, hlong⟩
        exact absurd (h (by simp)) (Nat.not_le.mpr hlong)
      rw [after_append, ih fun hmem => h (List.mem_append_left _ hmem)]
      rw [Crew.after_concat]
      exact if_neg hon

/-- With longer intervals it ends at the first sweep. -/
theorem after_sweep_eq_ended (node : String) {before : List Move} (rest : List Move)
    (hfirst : .sweep ∉ before) (hlong : Duration.longest < 3 * config.rescanInterval) :
    (started node config).after (before ++ .sweep :: rest) =
      .ended ((Crew.start node config).after before).relay.state := by
  have hbefore : (started node config).after before = _ := after_eq_runs (absurd · hfirst)
  have hends := (Crew.endsWith_after_iff node config before .sweep).mpr ⟨rfl, hlong⟩
  rw [after_append, hbefore, after, List.foldl_cons, perform, if_pos hends]
  exact after_ended _ rest

/-- A relay that runs has done all moves, and has not had to end. -/
theorem of_runs (h : (started node config).after run = .runs c) :
    c = (Crew.start node config).after run ∧
      (.sweep ∈ run → 3 * config.rescanInterval ≤ Duration.longest) := by
  by_cases hfits : .sweep ∈ run → 3 * config.rescanInterval ≤ Duration.longest
  · rw [after_eq_runs hfits, Fate.runs.injEq] at h
    exact ⟨h.symm, hfits⟩
  · rw [Classical.not_imp, Nat.not_le] at hfits
    obtain ⟨before, rest, rfl, hfirst⟩ := List.eq_append_cons_of_mem hfits.1
    rw [after_sweep_eq_ended node rest hfirst hfits.2] at h
    cases h

/-- **A relay is in order as long as it runs.** However the radio orders what happens, no neighbour
is both linked and about to be linked, no neighbour has two link tasks, there are no two scans, and
the relay reports whether anybody hears it. Right after a sweep, the neighbours that count as having
written are those that have been recorded to within three intervals of looking for neighbours. It
runs until it sweeps with intervals three of which are more than any length of time; from then on it
reports what it reported before. -/
theorem orderly_while_running (node : String) (config : MeshConfig) (run : List Move) :
    let fate := (started node config).after
    (∀ c, fate run = .runs c → c.Orderly) ∧
    (∀ c, fate (run ++ [.sweep]) = .runs c → ∀ n, n ∈ c.relay.accepted.map (·.1) ↔
      ∃ t, (n, t) ∈ (Crew.start node config).records run ∧
        c.now - t < 3 * config.rescanInterval) ∧
    ((∃ c, fate run = .runs c) ↔
      (.sweep ∈ run → 3 * config.rescanInterval ≤ Duration.longest)) ∧
    ∀ last, fate run = .ended last → ∃ before rest c, run = before ++ .sweep :: rest ∧
      fate before = .runs c ∧ last = c.relay.state := by
  intro fate
  refine ⟨fun c hc => ?_, fun c hc n => ?_, ⟨fun hruns => ?_, fun hfits => ?_⟩, fun last hlast => ?_⟩
  · obtain ⟨rfl, -⟩ := of_runs hc
    exact (Crew.sound_after node config run).orderly
  · obtain ⟨rfl, hfits⟩ := of_runs hc
    have hlimit : Relay.acceptedFor? config = some (3 * config.rescanInterval) :=
      Duration.times?_eq_some_iff.mpr ⟨hfits (by simp), rfl⟩
    have hnow := (Crew.react_spec ((Crew.start node config).after run) .sweep).1
    rw [Crew.after_concat, Crew.mem_accepted_sweep_iff node config run n hlimit, Crew.perform, hnow]
  · obtain ⟨c, hc⟩ := hruns
    exact (of_runs hc).2
  · exact ⟨_, after_eq_runs hfits⟩
  · have hlong : ¬ (.sweep ∈ run → 3 * config.rescanInterval ≤ Duration.longest) := by
      intro hfits
      have hruns : fate run = _ := after_eq_runs hfits
      rw [hlast] at hruns
      cases hruns
    rw [Classical.not_imp, Nat.not_le] at hlong
    obtain ⟨before, rest, rfl, hfirst⟩ := List.eq_append_cons_of_mem hlong.1
    have hended : fate (before ++ .sweep :: rest) = _ :=
      after_sweep_eq_ended node rest hfirst hlong.2
    rw [hlast, Fate.ended.injEq] at hended
    exact ⟨before, rest, _, rfl, after_eq_runs (absurd · hfirst), hended⟩

/-- A neighbour writes to a relay, which reads it. -/
def heardOnce : List Move := [.inbound "b" [], .take]

/-- Settings with the shortest interval three of which are more than any length of time. -/
def longIntervals : MeshConfig :=
  { MeshConfig.standard with rescanIntervalSecs := 6148914691236517206 }

theorem sweep_notMem_heardOnce : .sweep ∉ heardOnce := by simp [heardOnce]

/-- A neighbour that has just written counts after a sweep. A relay that ends with the sweep
reports it for good. -/
theorem orderly_while_running_heard :
    (∃ c, (started "a" .standard).after (heardOnce ++ [.sweep]) = .runs c ∧ c.Orderly ∧
      "b" ∈ c.relay.accepted.map (·.1)) ∧
    ∃ last, (started "a" longIntervals).after (heardOnce ++ [.sweep]) = .ended last ∧
      ∃ before rest c, heardOnce ++ [.sweep] = before ++ .sweep :: rest ∧
        (started "a" longIntervals).after before = .runs c ∧ last = c.relay.state := by
  obtain ⟨-, hrecent, -, -⟩ := orderly_while_running "a" .standard heardOnce
  obtain ⟨horderly, -, hruns, -⟩ := orderly_while_running "a" .standard (heardOnce ++ [.sweep])
  obtain ⟨-, -, -, hended⟩ := orderly_while_running "a" longIntervals (heardOnce ++ [.sweep])
  obtain ⟨c, hc⟩ := hruns.mpr fun _ => by decide
  have hrecorded : ("b", 0) ∈ (Crew.start "a" .standard).records heardOnce := by decide +kernel
  have hnow : c.now - 0 < 3 * MeshConfig.standard.rescanInterval := by
    obtain ⟨rfl, -⟩ := of_runs hc
    decide +kernel
  have hlong : Duration.longest < 3 * longIntervals.rescanInterval := by decide
  have hlast := after_sweep_eq_ended "a" [] sweep_notMem_heardOnce hlong
  exact ⟨⟨c, hc, horderly c hc, (hrecent c hc "b").mpr ⟨0, hrecorded, hnow⟩⟩, _, hlast,
    hended _ hlast⟩

/-- **A relay may end unnoticed.** The settings are such as can be read. With them the relay ends at
its first sweep: it stays reported as connected to a neighbour that wrote before, and one that
writes later is not heard. -/
theorem relay_ends_unnoticed :
    Config.ofJson "\x7b\"mesh\":\x7b\"rescan_interval_secs\":6148914691236517206\x7d\x7d" =
      some { Config.standard with mesh := longIntervals } ∧
    (started "a" longIntervals).after (heardOnce ++ [.sweep]) = .ended .connected ∧
    (started "a" longIntervals).after (.sweep :: heardOnce) = .ended .connecting := by
  have hlong : Duration.longest < 3 * longIntervals.rescanInterval := by decide
  refine ⟨by decide +kernel, ?_, ?_⟩
  · rw [after_sweep_eq_ended "a" [] sweep_notMem_heardOnce hlong, Fate.ended.injEq]
    decide +kernel
  · have hended := after_sweep_eq_ended "a" heardOnce List.not_mem_nil hlong
    rw [List.nil_append] at hended
    rw [hended, Fate.ended.injEq]
    decide +kernel

end Fate

end PeerCall.Mesh
