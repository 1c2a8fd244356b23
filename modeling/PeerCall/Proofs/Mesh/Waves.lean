import Mathlib.Algebra.Order.BigOperators.Group.Finset
import PeerCall.Proofs.Mesh.Integrity
import PeerCall.Proofs.Queues

/-!
# Waves over a graph

What a flood does to a graph, apart from packets, clocks and memories. A node that is reached for
the first time passes the wave on, as long as the hops that it took stay within the budget; whatever
arrives there later is lost. Arrivals take place in any order.

A node may be reached over a longer way first, and its hops are then those of that way. So all that
an order decides is where the budget ends: at nodes that have a trail from the origin of one hop
more than the budget. If arrivals take place in the order in which they became due, every node is
reached over a shortest way.
-/
namespace PeerCall.Mesh

open Network (Way)

/-- The nodes below a number, and by whom each of them is heard. -/
structure Layout where
  size : Nat
  links : Nat → List Nat

/-- One node is heard by another one, which exists. -/
def Layout.Linked (g : Layout) (a b : Nat) : Prop := b ∈ g.links a ∧ b < g.size

/-- A way from an origin that passes no node twice, its last node first. -/
inductive Trail (edge : Nat → Nat → Prop) (o : Nat) : List Nat → Prop
  | here : Trail edge o [o]
  | step {a b : Nat} {l : List Nat} : Trail edge o (a :: l) → edge a b → b ∉ a :: l →
      Trail edge o (b :: a :: l)

/-- The fewest steps that lead from one place to another. -/
def Distance (edge : Nat → Nat → Prop) (a d b : Nat) : Prop :=
  Way edge a d b ∧ ∀ n, Way edge a n b → d ≤ n

theorem Trail.way {edge : Nat → Nat → Prop} {o v : Nat} {l : List Nat}
    (h : Trail edge o (v :: l)) : Way edge o l.length v := by
  induction l generalizing v with
  | nil =>
      cases h
      exact .here
  | cons a l ih =>
      cases h with
      | step h' hedge _ => exact (ih h').step hedge

theorem Trail.nodup {edge : Nat → Nat → Prop} {o : Nat} {l : List Nat} (h : Trail edge o l) :
    l.Nodup := by
  induction h with
  | here => exact List.nodup_singleton o
  | step _ _ hnew ih => exact List.nodup_cons.mpr ⟨hnew, ih⟩

theorem Distance.unique {edge : Nat → Nat → Prop} {a b d d' : Nat} (h : Distance edge a d b)
    (h' : Distance edge a d' b) : d = d' :=
  Nat.le_antisymm (h.2 d' h'.1) (h'.2 d h.1)

/-- A wave on its way. -/
structure Wave where
  /-- The nodes reached so far, each with the hops that it took. -/
  reached : List (Nat × Nat)
  /-- The arrivals to come: the hops of the node that passes the wave on, and whom it gets to. -/
  due : List (Nat × Nat)

namespace Wave

/-- The nodes reached so far. -/
def nodes (w : Wave) : List Nat := w.reached.map Prod.fst

section
variable (g : Layout) (budget : Nat)

/-- What a node passes on that was reached after so many hops. -/
def onward (i d : Nat) : List (Nat × Nat) :=
  if d ≤ budget then (g.links i).map fun b => (d, b) else []

/-- A wave that starts. -/
def start (o : Nat) : Wave := ⟨[(o, 0)], onward g budget o 0⟩

/-- One of the arrivals takes place. -/
def step (w : Wave) (place : Nat) : Wave :=
  match w.due[place]? with
  | none => w
  | some (h, i) =>
    if i ∈ w.nodes ∨ g.size ≤ i then { w with due := w.due.eraseIdx place }
    else ⟨w.reached ++ [(i, h + 1)], w.due.eraseIdx place ++ onward g budget i (h + 1)⟩

/-- Arrivals take place one after another. -/
def run (w : Wave) (places : List Nat) : Wave := places.foldl (step g budget) w

/-- What a step makes of a wave. -/
inductive Step (w : Wave) (place : Nat) : Wave → Prop
  | idle (hdue : w.due[place]? = none) : Step w place w
  | lost {h i : Nat} (hdue : w.due[place]? = some (h, i)) (hi : i ∈ w.nodes ∨ g.size ≤ i) :
      Step w place { w with due := w.due.eraseIdx place }
  | new {h i : Nat} (hdue : w.due[place]? = some (h, i)) (hi : i ∉ w.nodes) (hlt : i < g.size) :
      Step w place
        ⟨w.reached ++ [(i, h + 1)], w.due.eraseIdx place ++ onward g budget i (h + 1)⟩

theorem step_spec (w : Wave) (place : Nat) : Step g budget w place (step g budget w place) := by
  unfold step
  split
  · rename_i hdue
    exact .idle hdue
  · rename_i h i hdue
    split
    · rename_i hi
      exact .lost hdue hi
    · rename_i hi
      rw [not_or, Nat.not_le] at hi
      exact .new hdue hi.1 hi.2

end

variable {g : Layout} {budget o : Nat} {w w' : Wave} {place h i j d count : Nat}

@[simp] theorem nodes_start : (start g budget o).nodes = [o] := rfl

@[simp] theorem due_start : (start g budget o).due = onward g budget o 0 := rfl

@[simp] theorem nodes_append (due : List (Nat × Nat)) :
    nodes ⟨w.reached ++ [(i, d)], due⟩ = w.nodes ++ [i] := by
  simp [nodes]

theorem mem_nodes : i ∈ w.nodes ↔ ∃ d, (i, d) ∈ w.reached := by
  simp [nodes]

theorem mem_onward : (h, j) ∈ onward g budget i d ↔ h = d ∧ d ≤ budget ∧ j ∈ g.links i := by
  unfold onward
  split
  · rename_i hle
    rw [List.mem_map]
    constructor
    · rintro ⟨b, hb, heq⟩
      cases heq
      exact ⟨rfl, hle, hb⟩
    · rintro ⟨rfl, -, hj⟩
      exact ⟨j, hj, rfl⟩
  · rename_i hgt
    simp [hgt]

/-! ## An end -/

/-- What a wave may still have to do: the arrivals to come, and what nodes that are not reached
would pass on. -/
def load (g : Layout) (w : Wave) : Nat :=
  w.due.length + ∑ i ∈ Finset.range g.size \ w.nodes.toFinset, (g.links i).length

theorem length_onward_le : (onward g budget i d).length ≤ (g.links i).length := by
  unfold onward
  split <;> simp

/-- Every arrival lessens the load. -/
theorem load_step (hplace : place < w.due.length) :
    load g (step g budget w place) < load g w := by
  have hspec := step_spec g budget w place
  have herase := List.length_eraseIdx_add_one hplace
  generalize step g budget w place = w' at hspec
  cases hspec with
  | idle hdue =>
      rw [List.getElem?_eq_getElem hplace] at hdue
      cases hdue
  | lost hdue hi =>
      have hrest : load g { w with due := w.due.eraseIdx place } = (w.due.eraseIdx place).length +
          ∑ i ∈ Finset.range g.size \ w.nodes.toFinset, (g.links i).length := rfl
      rw [hrest, load]
      omega
  | @new h i hdue hi hlt =>
      have hmem : i ∈ Finset.range g.size \ w.nodes.toFinset := by
        simp [hlt, hi]
      have hrest : Finset.range g.size \ (w.nodes ++ [i]).toFinset =
          (Finset.range g.size \ w.nodes.toFinset).erase i := by
        ext x
        simp only [Finset.mem_sdiff, Finset.mem_erase, List.mem_toFinset, List.mem_append,
          List.mem_singleton, not_or]
        tauto
      have hsum := Finset.add_sum_erase _ (fun x => (g.links x).length) hmem
      have hle : (onward g budget i (h + 1)).length ≤ (g.links i).length := length_onward_le
      rw [load, nodes_append, hrest, load, List.length_append]
      omega

/-- A wave that is over stays as it is. -/
theorem run_of_due_eq_nil (hdue : w.due = []) (places : List Nat) : run g budget w places = w := by
  induction places with
  | nil => rfl
  | cons place places ih =>
      have hstep : step g budget w place = w := by simp [step, hdue]
      rw [run, List.foldl_cons, hstep]
      exact ih

/-- A wave is over after as many arrivals as its load. -/
theorem due_run (hload : load g w ≤ count) :
    (run g budget w (List.replicate count 0)).due = [] := by
  induction count generalizing w with
  | zero =>
      have hnone : w.due.length = 0 := by
        unfold load at hload
        omega
      exact List.length_eq_zero_iff.mp hnone
  | succ count ih =>
      by_cases hdue : w.due = []
      · rw [run_of_due_eq_nil hdue, hdue]
      · have hless : load g (step g budget w 0) < load g w :=
          load_step (List.length_pos_of_ne_nil hdue)
        exact ih (by omega)

/-- A wave that starts can lead to one arrival for each link at most. -/
theorem load_start (ho : o < g.size) :
    load g (start g budget o) = ∑ i ∈ Finset.range g.size, (g.links i).length := by
  have hsum := Finset.add_sum_erase _ (fun x => (g.links x).length) (Finset.mem_range.mpr ho)
  have hfirst : (start g budget o).due.length = (g.links o).length := by
    simp [start, onward]
  rw [load, hfirst, nodes_start, List.toFinset_cons, List.toFinset_nil, ← hsum]
  simp [Finset.erase_eq]

/-! ## What holds in any order -/

/-- Each node is reached once, over a trail of nodes reached before it; what is due comes from a
node whose hops are within the budget, and all that such a node is heard by is reached or due. -/
structure Sound (g : Layout) (budget o : Nat) (w : Wave) : Prop where
  nodup : w.nodes.Nodup
  origin : (o, 0) ∈ w.reached
  trail : ∀ i d, (i, d) ∈ w.reached →
    d ≤ budget + 1 ∧ ∃ l, Trail g.Linked o (i :: l) ∧ l.length = d ∧ l ⊆ w.nodes
  due : ∀ h i, (h, i) ∈ w.due → h ≤ budget ∧ ∃ a, (a, h) ∈ w.reached ∧ i ∈ g.links a
  onward : ∀ a h b, (a, h) ∈ w.reached → h ≤ budget → g.Linked a b →
    b ∈ w.nodes ∨ (h, b) ∈ w.due

theorem sound_start (g : Layout) (budget o : Nat) : Sound g budget o (start g budget o) where
  nodup := List.nodup_singleton o
  origin := List.mem_singleton_self _
  trail i d hi := by
    cases List.mem_singleton.mp hi
    exact ⟨Nat.zero_le _, [], .here, rfl, List.nil_subset _⟩
  due h i hi := by
    rw [due_start] at hi
    obtain ⟨rfl, hle, hlink⟩ := mem_onward.mp hi
    exact ⟨hle, o, List.mem_singleton_self _, hlink⟩
  onward a h b ha hle hlink := by
    cases List.mem_singleton.mp ha
    exact Or.inr (mem_onward.mpr ⟨rfl, hle, hlink.1⟩)

theorem Sound.lost (hw : Sound g budget o w) (hdue : w.due[place]? = some (h, i))
    (hi : i ∈ w.nodes ∨ g.size ≤ i) : Sound g budget o { w with due := w.due.eraseIdx place } where
  nodup := hw.nodup
  origin := hw.origin
  trail := hw.trail
  due h' i' hi' := hw.due h' i' (List.mem_of_mem_eraseIdx hi')
  onward a h' b ha hle hlink := by
    rcases hw.onward a h' b ha hle hlink with hb | hb
    · exact Or.inl hb
    · by_cases heq : (h', b) = (h, i)
      · cases heq
        rcases hi with hi | hi
        · exact Or.inl hi
        · exact absurd hlink.2 (Nat.not_lt.mpr hi)
      · exact Or.inr (mem_eraseIdx_of_ne hdue hb heq)

theorem Sound.new (hw : Sound g budget o w) (hdue : w.due[place]? = some (h, i))
    (hi : i ∉ w.nodes) (hlt : i < g.size) : Sound g budget o
      ⟨w.reached ++ [(i, h + 1)], w.due.eraseIdx place ++ Wave.onward g budget i (h + 1)⟩ := by
  obtain ⟨hle, a, ha, hlink⟩ := hw.due h i (List.mem_of_getElem? hdue)
  refine ⟨?_, List.mem_append_left _ hw.origin, ?_, ?_, ?_⟩
  · rw [nodes_append, List.nodup_append]
    refine ⟨hw.nodup, List.nodup_singleton i, ?_⟩
    rintro x hx y hy rfl
    rw [List.mem_singleton.mp hy] at hx
    exact hi hx
  · intro j d hj
    rw [nodes_append]
    rcases List.mem_append.mp hj with hj | hj
    · obtain ⟨hd, l, htrail, hlength, hsub⟩ := hw.trail j d hj
      exact ⟨hd, l, htrail, hlength, List.subset_append_of_subset_left _ hsub⟩
    · -- The new node lies behind the one that passed the wave on, whose trail avoids it.
      cases List.mem_singleton.mp hj
      obtain ⟨-, l, htrail, hlength, hsub⟩ := hw.trail a h ha
      have hsub' : a :: l ⊆ w.nodes := List.cons_subset.mpr ⟨mem_nodes.mpr ⟨h, ha⟩, hsub⟩
      refine ⟨Nat.succ_le_succ hle, a :: l, ?_, by rw [List.length_cons, hlength],
        List.subset_append_of_subset_left _ hsub'⟩
      exact htrail.step ⟨hlink, hlt⟩ fun hmem => hi (hsub' hmem)
  · intro h' j hj
    rcases List.mem_append.mp hj with hj | hj
    · obtain ⟨hle', b, hb, hlink'⟩ := hw.due h' j (List.mem_of_mem_eraseIdx hj)
      exact ⟨hle', b, List.mem_append_left _ hb, hlink'⟩
    · obtain ⟨rfl, hle', hlink'⟩ := mem_onward.mp hj
      exact ⟨hle', i, List.mem_append_right _ (List.mem_singleton_self _), hlink'⟩
  · intro b h' c hb hle' hlink'
    rw [nodes_append, List.mem_append, List.mem_append]
    rcases List.mem_append.mp hb with hb | hb
    · rcases hw.onward b h' c hb hle' hlink' with hc | hc
      · exact Or.inl (Or.inl hc)
      · by_cases heq : (h', c) = (h, i)
        · cases heq
          exact Or.inl (Or.inr (List.mem_singleton_self _))
        · exact Or.inr (Or.inl (mem_eraseIdx_of_ne hdue hc heq))
    · cases List.mem_singleton.mp hb
      exact Or.inr (Or.inr (mem_onward.mpr ⟨rfl, hle', hlink'.1⟩))

theorem Sound.step (hw : Sound g budget o w) (place : Nat) :
    Sound g budget o (step g budget w place) := by
  have hspec := step_spec g budget w place
  generalize Wave.step g budget w place = w' at hspec
  cases hspec with
  | idle hdue => exact hw
  | lost hdue hi => exact hw.lost hdue hi
  | new hdue hi hlt => exact hw.new hdue hi hlt

theorem Sound.run (hw : Sound g budget o w) (places : List Nat) :
    Sound g budget o (run g budget w places) := by
  induction places generalizing w with
  | nil => exact hw
  | cons place places ih => exact ih (hw.step place)

/-- A node that is reached is so many hops away at least, and more than the budget and one is too
far. -/
theorem Sound.way (hw : Sound g budget o w) (hi : (i, d) ∈ w.reached) :
    Way g.Linked o d i ∧ d ≤ budget + 1 := by
  obtain ⟨hd, l, htrail, rfl, -⟩ := hw.trail i d hi
  exact ⟨htrail.way, hd⟩

/-- Only the origin is reached without a hop. -/
theorem Sound.hops_pos (hw : Sound g budget o w) (hi : (i, d) ∈ w.reached) (hne : i ≠ o) :
    d ≠ 0 := by
  rintro rfl
  obtain ⟨-, l, htrail, hlength, -⟩ := hw.trail i 0 hi
  obtain rfl := List.length_eq_zero_iff.mp hlength
  cases htrail
  exact hne rfl

/-- A node at which the budget may end: a trail of one hop more than the budget leads there. -/
def Ends (g : Layout) (budget o i : Nat) : Prop :=
  ∃ l, Trail g.Linked o (i :: l) ∧ l.length = budget + 1

/-- A node to which some way leads over nodes at which the budget cannot end. -/
inductive Certain (g : Layout) (budget o : Nat) : Nat → Prop
  | here : Certain g budget o o
  | step {a b : Nat} : Certain g budget o a → ¬ Ends g budget o a → g.Linked a b →
      Certain g budget o b

/-- If the budget ends nowhere within its own hops, all within one more hop is certain. -/
theorem certain_of_way (hends : ∀ a n, Way g.Linked o n a → n ≤ budget → ¬ Ends g budget o a)
    {n : Nat} (hway : Way g.Linked o n i) (hle : n ≤ budget + 1) : Certain g budget o i := by
  induction hway with
  | here => exact .here
  | @step n a b hway hlink ih =>
      have hn : n ≤ budget := Nat.le_of_succ_le_succ hle
      exact (ih (Nat.le_succ_of_le hn)).step (hends a n hway hn) hlink

/-- The nodes of a trail exist. -/
theorem lt_size_of_mem_trail (ho : o < g.size) {l : List Nat} (h : Trail g.Linked o l) :
    ∀ a ∈ l, a < g.size := by
  induction h with
  | here => exact fun a ha => List.mem_singleton.mp ha ▸ ho
  | step _ hlink _ ih =>
      intro a ha
      rcases List.mem_cons.mp ha with rfl | ha
      · exact hlink.2
      · exact ih a ha

/-- A budget of so many hops as there are nodes, but one, ends nowhere. -/
theorem not_ends_of_size_le (ho : o < g.size) (hsize : g.size ≤ budget + 1) :
    ¬ Ends g budget o i := by
  rintro ⟨l, htrail, hlength⟩
  have hsub : i :: l ⊆ List.range g.size := fun a ha =>
    List.mem_range.mpr (lt_size_of_mem_trail ho htrail a ha)
  have hle := (htrail.nodup.subperm hsub).length_le
  rw [List.length_cons, List.length_range, hlength] at hle
  omega

/-- When nothing is due any more, whatever is certain has been reached, in whatever order. -/
theorem Sound.reached_of_certain (hw : Sound g budget o w) (hdue : w.due = [])
    (hi : Certain g budget o i) : i ∈ w.nodes := by
  induction hi with
  | here => exact mem_nodes.mpr ⟨0, hw.origin⟩
  | @step a b _ hends hlink ih =>
      obtain ⟨d, hd⟩ := mem_nodes.mp ih
      obtain ⟨hle, l, htrail, hlength, -⟩ := hw.trail a d hd
      have hbudget : d ≤ budget := by
        have hne : d ≠ budget + 1 := fun heq => hends ⟨l, htrail, hlength.trans heq⟩
        omega
      rcases hw.onward a d b hd hbudget hlink with hb | hb
      · exact hb
      · rw [hdue] at hb
        cases hb

/-! ## First in, first out -/

/-- Arrivals are due in the order of their hops, no node was reached with more hops than the next
arrival will have, and each one over a shortest way. -/
structure Ordered (g : Layout) (budget o : Nat) (w : Wave) : Prop extends Sound g budget o w where
  sorted : w.due.Pairwise fun x y => x.1 ≤ y.1
  near : ∀ i d h j, (i, d) ∈ w.reached → (h, j) ∈ w.due → d ≤ h + 1
  shortest : ∀ i d n, (i, d) ∈ w.reached → Way g.Linked o n i → d ≤ n

theorem pairwise_onward : (Wave.onward g budget i d).Pairwise fun x y => x.1 ≤ y.1 := by
  rw [List.pairwise_iff_forall_sublist]
  intro x y hxy
  have hx := (mem_onward.mp (hxy.subset List.mem_cons_self)).1
  have hy := (mem_onward.mp (hxy.subset (List.mem_cons_of_mem _ List.mem_cons_self))).1
  rw [hx, hy]

theorem ordered_start (g : Layout) (budget o : Nat) : Ordered g budget o (start g budget o) where
  toSound := sound_start g budget o
  sorted := by
    rw [due_start]
    exact pairwise_onward
  near i d h j hi _ := by
    cases List.mem_singleton.mp hi
    exact Nat.zero_le _
  shortest i d n hi _ := by
    cases List.mem_singleton.mp hi
    exact Nat.zero_le _

/-- Whatever is nearer than what is due has been reached. -/
theorem Ordered.reached_of_way (hw : Ordered g budget o w) {n : Nat} (hway : Way g.Linked o n i)
    (hbudget : n ≤ budget + 1) (hnear : ∀ x ∈ w.due, n ≤ x.1) : i ∈ w.nodes := by
  induction hway with
  | here => exact mem_nodes.mpr ⟨0, hw.origin⟩
  | @step n a b hway hlink ih =>
      have hnear' : ∀ x ∈ w.due, n ≤ x.1 := fun x hx => Nat.le_of_succ_le (hnear x hx)
      obtain ⟨d, hd⟩ := mem_nodes.mp (ih (by omega) hnear')
      have hdn : d ≤ n := hw.shortest a d n hd hway
      rcases hw.onward a d b hd (by omega) hlink with hb | hb
      · exact hb
      · have hlate := hnear _ hb
        dsimp only at hlate
        omega

theorem Ordered.lost (hw : Ordered g budget o w) (hdue : w.due[0]? = some (h, i))
    (hi : i ∈ w.nodes ∨ g.size ≤ i) : Ordered g budget o { w with due := w.due.eraseIdx 0 } where
  toSound := hw.toSound.lost hdue hi
  sorted := hw.sorted.sublist (List.eraseIdx_sublist _ _)
  near i d h j hi hj := hw.near i d h j hi (List.mem_of_mem_eraseIdx hj)
  shortest := hw.shortest

theorem Ordered.new (hw : Ordered g budget o w) (hdue : w.due[0]? = some (h, i))
    (hi : i ∉ w.nodes) (hlt : i < g.size) : Ordered g budget o
      ⟨w.reached ++ [(i, h + 1)], w.due.eraseIdx 0 ++ Wave.onward g budget i (h + 1)⟩ := by
  have hsound := hw.toSound.new hdue hi hlt
  obtain ⟨rest, hrest⟩ : ∃ rest, w.due = (h, i) :: rest := by
    cases hw : w.due with
    | nil => simp [hw] at hdue
    | cons x rest =>
        rw [hw, List.getElem?_cons_zero, Option.some.injEq] at hdue
        exact ⟨rest, by rw [hdue]⟩
  have hfirst : ∀ x ∈ w.due, h ≤ x.1 := by
    have hsorted := hw.sorted
    rw [hrest, List.pairwise_cons] at hsorted
    intro x hx
    rw [hrest] at hx
    rcases List.mem_cons.mp hx with rfl | hx
    · exact Nat.le_refl _
    · exact hsorted.1 x hx
  -- What is due was passed on by nodes that were reached, so it is at most one hop behind.
  have hlast : ∀ x ∈ w.due, x.1 ≤ h + 1 := by
    rintro ⟨h', j⟩ hx
    obtain ⟨-, a, ha, -⟩ := hw.due h' j hx
    exact hw.near a h' h i ha (List.mem_of_getElem? hdue)
  obtain ⟨hle, -⟩ := hw.due h i (List.mem_of_getElem? hdue)
  refine ⟨hsound, ?_, ?_, ?_⟩
  · rw [List.pairwise_append]
    refine ⟨hw.sorted.sublist (List.eraseIdx_sublist _ _), pairwise_onward, ?_⟩
    rintro x hx ⟨h', j⟩ hy
    rw [(mem_onward.mp hy).1]
    exact hlast x (List.mem_of_mem_eraseIdx hx)
  · intro j d h' k hj hk
    have hd : d ≤ h + 1 := by
      rcases List.mem_append.mp hj with hj | hj
      · exact hw.near j d h i hj (List.mem_of_getElem? hdue)
      · cases List.mem_singleton.mp hj
        exact Nat.le_refl _
    rcases List.mem_append.mp hk with hk | hk
    · exact Nat.le_trans hd (Nat.succ_le_succ (hfirst _ (List.mem_of_mem_eraseIdx hk)))
    · rw [(mem_onward.mp hk).1]
      exact Nat.le_succ_of_le hd
  · intro j d n hj hway
    rcases List.mem_append.mp hj with hj | hj
    · exact hw.shortest j d n hj hway
    · cases List.mem_singleton.mp hj
      -- With fewer hops the node would have been reached before.
      by_contra hlt'
      have hn : n ≤ h := by omega
      exact hi (hw.reached_of_way hway (by omega) fun x hx => Nat.le_trans hn (hfirst x hx))

theorem Ordered.step (hw : Ordered g budget o w) : Ordered g budget o (step g budget w 0) := by
  have hspec := step_spec g budget w 0
  generalize Wave.step g budget w 0 = w' at hspec
  cases hspec with
  | idle hdue => exact hw
  | lost hdue hi => exact hw.lost hdue hi
  | new hdue hi hlt => exact hw.new hdue hi hlt

theorem Ordered.run (hw : Ordered g budget o w) (count : Nat) :
    Ordered g budget o (run g budget w (List.replicate count 0)) := by
  induction count generalizing w with
  | zero => exact hw
  | succ count ih => exact ih hw.step

/-- Whatever is reached is reached at its distance. -/
theorem Ordered.distance (hw : Ordered g budget o w) (hi : (i, d) ∈ w.reached) :
    Distance g.Linked o d i ∧ d ≤ budget + 1 := by
  obtain ⟨hway, hle⟩ := hw.way hi
  exact ⟨⟨hway, fun n hn => hw.shortest i d n hi hn⟩, hle⟩

/-- When nothing is due any more, everything within the budget and one hop has been reached. -/
theorem Ordered.mem_reached (hw : Ordered g budget o w) (hdue : w.due = [])
    (hd : Distance g.Linked o d i) (hle : d ≤ budget + 1) : (i, d) ∈ w.reached := by
  have hnone : ∀ x ∈ w.due, d ≤ x.1 := by
    rw [hdue]
    exact List.forall_mem_nil _
  obtain ⟨d', hd'⟩ := mem_nodes.mp (hw.reached_of_way hd.1 hle hnone)
  rwa [hd.unique (hw.distance hd').1]

end Wave

end PeerCall.Mesh
