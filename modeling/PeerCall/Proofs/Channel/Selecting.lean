import Mathlib.Data.List.Basic
import PeerCall.Channel.Selection

/-!
# Which candidate is selected

Among the connected candidates the one of least rank is selected, and the first of several.
Positions break ties, so two candidates never come out even, and passing over the candidates once,
always keeping the better, finds the least of them.
-/
namespace PeerCall.Selection

variable {s : Selection} {cs : List Candidate} {c : Candidate} {i : Nat}

/-! ## The least of candidates with positions -/

/-- Whether a candidate is to be preferred: of less rank, or of the same and not added later. -/
def Precedes (x y : Nat × Candidate) : Prop :=
  x.2.transport.rank < y.2.transport.rank ∨
    x.2.transport.rank = y.2.transport.rank ∧ x.1 ≤ y.1

variable {x y z : Nat × Candidate} {xs : List (Nat × Candidate)}

theorem Precedes.refl (x : Nat × Candidate) : Precedes x x := Or.inr ⟨rfl, Nat.le_refl _⟩

theorem Precedes.trans (h : Precedes x y) (h' : Precedes y z) : Precedes x z := by
  unfold Precedes at *
  omega

theorem better_eq (x y : Nat × Candidate) : better x y = x ∨ better x y = y := by
  unfold better
  split
  · exact Or.inr rfl
  · exact Or.inl rfl

/-- The better of two candidates precedes both, if they are given in their order. -/
theorem precedes_better (h : x.1 < y.1) : Precedes (better x y) x ∧ Precedes (better x y) y := by
  unfold better
  split
  · rename_i hless
    exact ⟨Or.inl hless, .refl y⟩
  · refine ⟨.refl x, ?_⟩
    unfold Precedes
    omega

theorem precedes_foldl (h : (x :: xs).Pairwise (·.1 < ·.1)) :
    xs.foldl better x ∈ x :: xs ∧ ∀ y ∈ x :: xs, Precedes (xs.foldl better x) y := by
  induction xs generalizing x with
  | nil =>
      refine ⟨List.mem_singleton_self x, ?_⟩
      intro y hy
      rw [List.mem_singleton.mp hy]
      exact .refl x
  | cons y xs ih =>
      obtain ⟨hx, hy, hxs⟩ : (∀ z ∈ y :: xs, x.1 < z.1) ∧ (∀ z ∈ xs, y.1 < z.1) ∧
          xs.Pairwise (·.1 < ·.1) := by
        simpa only [List.pairwise_cons] using h
      have hbetter : (better x y :: xs).Pairwise (·.1 < ·.1) := by
        rw [List.pairwise_cons]
        refine ⟨?_, hxs⟩
        intro z hz
        rcases better_eq x y with heq | heq <;> rw [heq]
        · exact hx z (List.mem_cons_of_mem y hz)
        · exact hy z hz
      obtain ⟨hmem, hleast⟩ := ih hbetter
      obtain ⟨hfirst, hsecond⟩ := precedes_better (hx y List.mem_cons_self)
      have hbest := hleast _ List.mem_cons_self
      rw [List.foldl_cons]
      refine ⟨?_, ?_⟩
      · rcases List.mem_cons.mp hmem with hmem | hmem
        · rw [hmem]
          rcases better_eq x y with heq | heq <;> rw [heq]
          · exact List.mem_cons_self
          · exact List.mem_cons_of_mem x List.mem_cons_self
        · exact List.mem_cons_of_mem x (List.mem_cons_of_mem y hmem)
      · simp only [List.forall_mem_cons]
        exact ⟨hbest.trans hfirst, hbest.trans hsecond,
          fun z hz => hleast z (List.mem_cons_of_mem _ hz)⟩

theorem leastRank_eq_some (h : leastRank xs = some x) (hxs : xs.Pairwise (·.1 < ·.1)) :
    x ∈ xs ∧ ∀ y ∈ xs, Precedes x y := by
  cases xs with
  | nil => cases h
  | cons y xs =>
      cases h
      exact precedes_foldl hxs

theorem leastRank_eq_none (h : leastRank xs = none) : xs = [] := by
  cases xs with
  | nil => rfl
  | cons y xs => cases h

/-! ## The best candidate -/

/-- The connected candidates with their positions. -/
def connectedOf (cs : List Candidate) : List (Nat × Candidate) :=
  (cs.zipIdx.map fun (c, i) => (i, c)).filter fun (_, c) => c.state = .connected

theorem mem_connectedOf : (i, c) ∈ connectedOf cs ↔ cs[i]? = some c ∧ c.state = .connected := by
  simp only [connectedOf, List.mem_filter, List.mem_map, Prod.mk.injEq, decide_eq_true_eq]
  refine and_congr_left fun _ => ⟨?_, ?_⟩
  · rintro ⟨⟨c', i'⟩, hmem, rfl, rfl⟩
    exact List.mk_mem_zipIdx_iff_getElem?.mp hmem
  · intro h
    exact ⟨(c, i), List.mk_mem_zipIdx_iff_getElem?.mpr h, rfl, rfl⟩

theorem pairwise_connectedOf (cs : List Candidate) :
    (connectedOf cs).Pairwise (·.1 < ·.1) := by
  refine List.Pairwise.filter _ (List.pairwise_map.mpr ?_)
  have hpositions : (cs.zipIdx.map Prod.snd).Pairwise (· < ·) := by
    rw [List.zipIdx_map_snd]
    exact List.pairwise_lt_range'
  exact List.pairwise_map.mp hpositions

/-- A candidate is the best: it is connected and precedes all that are. -/
structure IsBest (cs : List Candidate) (i : Nat) (c : Candidate) : Prop where
  here : cs[i]? = some c
  connected : c.state = .connected
  precedes : ∀ j d, cs[j]? = some d → d.state = .connected → Precedes (i, c) (j, d)

/-- **The best candidate is selected**, if any is connected. -/
theorem isBest_of_bestOf (h : bestOf cs = some i) : ∃ c, IsBest cs i c := by
  obtain ⟨⟨i, c⟩, hleast, rfl⟩ := Option.map_eq_some_iff.mp h
  obtain ⟨hmem, hprecedes⟩ := leastRank_eq_some hleast (pairwise_connectedOf cs)
  obtain ⟨hhere, hconnected⟩ := mem_connectedOf.mp hmem
  refine ⟨c, hhere, hconnected, ?_⟩
  intro j d hj hd
  exact hprecedes (j, d) (mem_connectedOf.mpr ⟨hj, hd⟩)

theorem not_connected_of_bestOf (h : bestOf cs = none) : ∀ c ∈ cs, c.state ≠ .connected := by
  intro c hc hconnected
  obtain ⟨i, hi⟩ := List.mem_iff_getElem?.mp hc
  have hmem := mem_connectedOf.mpr ⟨hi, hconnected⟩
  have hnil : connectedOf cs = [] := leastRank_eq_none (Option.map_eq_none_iff.mp h)
  rw [hnil] at hmem
  cases hmem

/-! ## Selections that are up to date -/

/-- What is selected and the state of all are those of the candidates. -/
structure Current (s : Selection) : Prop where
  best : s.best = bestOf s.candidates
  state : s.state.value = jointState s.candidates

theorem current_empty : Current empty := ⟨rfl, rfl⟩

theorem candidates_evaluate (s : Selection) : (evaluate s).2.candidates = s.candidates := by
  unfold evaluate
  dsimp only
  split <;> rfl

theorem current_evaluate (s : Selection) : Current (evaluate s).2 := by
  unfold evaluate
  dsimp only
  split <;> exact ⟨rfl, Watched.value_set ..⟩

theorem candidates_add (transport : Transport) (channel : Nat) (state : ChannelState)
    (s : Selection) :
    (s.add transport channel state).2.candidates = s.candidates ++ [⟨transport, channel, state⟩] :=
  candidates_evaluate _

theorem current_add (transport : Transport) (channel : Nat) (state : ChannelState)
    (s : Selection) : Current (s.add transport channel state).2 :=
  current_evaluate _

theorem candidates_record (i : Nat) (state : ChannelState) (s : Selection) :
    (s.record i state).2.candidates = s.candidates.modify i fun c => { c with state } := by
  unfold record
  split
  · rename_i c hc
    rw [candidates_evaluate, List.modify_eq_set_getElem?, hc]
    rfl
  · rename_i hnone
    rw [List.modify_eq_self (List.getElem?_eq_none_iff.mp hnone)]

theorem current_record (h : Current s) (i : Nat) (state : ChannelState) :
    Current (s.record i state).2 := by
  unfold record
  split
  · exact current_evaluate _
  · exact h

/-! ## Routes -/

theorem bestTransport_of_some (hbest : s.best = some i) (hc : s.candidates[i]? = some c) :
    s.bestTransport = some c.transport := by
  simp only [bestTransport, transportAt, hbest, Option.bind_eq_bind, Option.bind_some, hc]

theorem bestTransport_of_none (hbest : s.best = none) : s.bestTransport = none := by
  rw [bestTransport, hbest]
  rfl

theorem recipients_of_some (live : Nat → Bool) (hbest : s.best = some i)
    (hc : s.candidates[i]? = some c) : s.recipients live .best = [c.channel] := by
  simp only [recipients, hbest, Option.bind_some, hc]

/-- Without a selected candidate nobody gets anything, if nobody is connected. -/
theorem recipients_of_none {live : Nat → Bool} (hbest : s.best = none)
    (hlive : ∀ c ∈ s.candidates, live c.channel = false) : s.recipients live .best = [] := by
  simp only [recipients, hbest, Option.bind_none]
  refine List.filter_eq_nil_iff.mpr ?_
  intro channel hchannel
  obtain ⟨c, hc, rfl⟩ := List.mem_map.mp hchannel
  rw [hlive c hc]
  exact Bool.false_ne_true

end PeerCall.Selection
