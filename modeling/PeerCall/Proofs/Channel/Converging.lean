import PeerCall.Proofs.Channel.Tracking

/-!
# What a bundle comes to

Once every observer has looked and the queue is empty, what a bundle presents is what its channels
themselves call for. It comes to that from wherever it is, since the observers leave nothing behind
for long: when all have looked, the selection catches up with what they reported.
-/
namespace PeerCall.Bundle

open Selection

variable {b b' : Bundle} {added : List (Transport × Nat)} {i channel : Nat} {c : Candidate}

/-! ## Bundles that came to rest -/

/-- A bundle came to rest: no command waits, and no observer has a change to notice. -/
structure Settled (b : Bundle) : Prop where
  commands : b.commands = []
  noticed : ∀ x ∈ b.selection.candidates.zip b.seen,
    (b.watch x.1.channel).changedSince x.2 = false

theorem Settled.caughtUp (h : Settled b) (i : Nat) : b.CaughtUp i := by
  intro c seen hc hs
  have hmem : (c, seen) ∈ b.selection.candidates.zip b.seen :=
    List.mem_of_getElem? (List.getElem?_zip_eq_some.mpr ⟨hc, hs⟩)
  have hnoticed := h.noticed _ hmem
  rw [Watched.changedSince, bne_eq_false_iff_eq] at hnoticed
  exact Nat.le_of_eq hnoticed

theorem Tracks.settled (h : Tracks added b) (hcommands : b.commands = [])
    (hcaught : ∀ i, b.CaughtUp i) : Settled b := by
  refine ⟨hcommands, ?_⟩
  rintro ⟨c, seen⟩ hmem
  obtain ⟨i, hi⟩ := List.mem_iff_getElem?.mp hmem
  obtain ⟨hc, hs⟩ := List.getElem?_zip_eq_some.mp hi
  rw [Watched.changedSince, bne_eq_false_iff_eq]
  exact Nat.le_antisymm (hcaught i c seen hc hs) (h.follows i c seen hc hs).le

theorem Settled.of_alike (h : Settled b) (halike : Alike b b') : Settled b' := by
  obtain ⟨hchannels, hselection, hcommands, hseen⟩ := halike
  refine ⟨hcommands.trans h.commands, ?_⟩
  rw [hselection, hseen]
  intro x hx
  rw [watch_congr hchannels]
  exact h.noticed x hx

/-- A channel as a candidate, with the state that it publishes itself. -/
def asCandidate (b : Bundle) (x : Transport × Nat) : Candidate :=
  ⟨x.1, x.2, (b.watch x.2).value⟩

/-- **At rest, every candidate has the state of its channel.** -/
theorem Tracks.candidates_eq (h : Tracks added b) (hsettled : Settled b) :
    b.selection.candidates = added.map b.asCandidate := by
  have hadded : added = b.selection.candidates.map Candidate.source := by
    rw [← h.members, hsettled.commands, List.filterMap_nil, List.append_nil]
  have hstate : ∀ c ∈ b.selection.candidates, b.asCandidate c.source = c := by
    intro c hc
    obtain ⟨i, hi⟩ := List.mem_iff_getElem?.mp hc
    have hlt : i < b.seen.length := by
      rw [h.observed]
      exact (List.getElem?_eq_some_iff.mp hi).1
    have hseen := List.getElem?_eq_getElem hlt
    obtain ⟨hle, hpresent⟩ := h.follows i c _ hi hseen
    have hexpected := hpresent (Nat.le_antisymm hle (hsettled.caughtUp i c _ hi hseen))
    rw [hsettled.commands] at hexpected
    rw [asCandidate, Candidate.source, ← hexpected]
    rfl
  rw [hadded, List.map_map]
  exact (List.map_id _).symm.trans (List.map_congr_left fun c hc => (hstate c hc).symm)

/-! ## What a bundle comes to -/

/-- The best of channels by what they say themselves: connected, of least rank, and handed over
first. -/
structure BestSource (b : Bundle) (added : List (Transport × Nat)) (i : Nat)
    (transport : Transport) (channel : Nat) : Prop where
  here : added[i]? = some (transport, channel)
  live : b.live channel = true
  first : ∀ j transport' channel', added[j]? = some (transport', channel') →
    b.live channel' = true →
    transport.rank < transport'.rank ∨ transport.rank = transport'.rank ∧ i ≤ j

/-- A bundle presents its channels as they are: the recorded states are theirs, as is the state of
all together, and the best of them is selected and gets the messages, or nobody does. -/
structure Presents (b : Bundle) (added : List (Transport × Nat)) : Prop where
  recorded : b.selection.candidates = added.map b.asCandidate
  state : b.selection.state.value =
    if ∃ x ∈ added, (b.watch x.2).value = .connected then .connected
    else if ∃ x ∈ added, (b.watch x.2).value = .connecting then .connecting
    else .idle
  selects :
    (∃ i transport channel, b.BestSource added i transport channel ∧
      b.selection.bestTransport = some transport ∧
      ∀ m, b.send m = b.onChannel channel (Loopback.record m)) ∨
    (∀ x ∈ added, b.live x.2 = false) ∧ b.selection.bestTransport = none ∧ ∀ m, b.send m = b

theorem bestSource_of_isBest (hrecorded : b.selection.candidates = added.map b.asCandidate)
    (h : IsBest b.selection.candidates i c) : b.BestSource added i c.transport c.channel := by
  obtain ⟨hhere, hconnected, hprecedes⟩ := h
  rw [hrecorded] at hhere hprecedes
  rw [List.getElem?_map] at hhere
  obtain ⟨x, hx, rfl⟩ := Option.map_eq_some_iff.mp hhere
  refine ⟨hx, ?_, ?_⟩
  · rw [live_eq]
    exact decide_eq_true hconnected
  · intro j transport channel hj hlive
    rw [live_eq, decide_eq_true_iff] at hlive
    refine hprecedes j (b.asCandidate (transport, channel)) ?_ hlive
    rw [List.getElem?_map, hj]
    rfl

/-- A message is passed to those on the best route, once no command waits. -/
theorem send_eq (h : b.commands = []) (m : Message) :
    b.send m = (b.selection.recipients b.live .best).foldl
      (fun b channel => b.onChannel channel (Loopback.record m)) b := by
  have hall : b.actAll = b := by
    rw [actAll, h]
    rfl
  rw [send, onRoute, hall]

theorem Tracks.presents (h : Tracks added b) (hsettled : Settled b) : Presents b added := by
  have hrecorded := h.candidates_eq hsettled
  refine ⟨hrecorded, ?_, ?_⟩
  · have hany : ∀ want, b.selection.candidates.any (·.state = want) = true ↔
        ∃ x ∈ added, (b.watch x.2).value = want := by
      intro want
      rw [hrecorded, List.any_map, List.any_eq_true]
      exact exists_congr fun x => and_congr_right fun _ => decide_eq_true_iff
    rw [h.current.state, jointState]
    exact if_congr (hany _) rfl (if_congr (hany _) rfl rfl)
  · cases hbest : bestOf b.selection.candidates with
    | none =>
        have hselected : b.selection.best = none := h.current.best.trans hbest
        have hnone : ∀ c ∈ b.selection.candidates, b.live c.channel = false := by
          intro c hc
          have hconnected := not_connected_of_bestOf hbest c hc
          rw [hrecorded] at hc
          obtain ⟨x, hx, rfl⟩ := List.mem_map.mp hc
          rw [live_eq]
          exact decide_eq_false hconnected
        refine Or.inr ⟨?_, bestTransport_of_none hselected, ?_⟩
        · intro x hx
          refine hnone (b.asCandidate x) ?_
          rw [hrecorded]
          exact List.mem_map_of_mem hx
        · intro m
          rw [send_eq hsettled.commands, recipients_of_none hselected hnone]
          rfl
    | some i =>
        have hselected : b.selection.best = some i := h.current.best.trans hbest
        obtain ⟨c, hc⟩ := isBest_of_bestOf hbest
        refine Or.inl ⟨i, c.transport, c.channel, bestSource_of_isBest hrecorded hc,
          bestTransport_of_some hselected hc.here, ?_⟩
        intro m
        rw [send_eq hsettled.commands, recipients_of_some _ hselected hc.here]
        rfl

/-! ## Coming to rest -/

theorem Looked.caughtUp (h : Looked i b b') : b'.CaughtUp i := by
  cases h with
  | same hcaught heq =>
      rw [heq]
      exact hcaught
  | noticed hc hlt hchannels hselection hseen _ =>
      intro d seen hd hs
      rw [hselection] at hd
      cases hc.symm.trans hd
      rw [hseen, List.getElem?_set_self hlt] at hs
      cases hs
      exact Nat.le_of_eq (by rw [watch_congr hchannels])

/-- Who looks has no say in who else is behind. -/
theorem CaughtUp.looked {j : Nat} (hcaught : b.CaughtUp i) (h : Looked j b b') :
    b'.CaughtUp i := by
  by_cases hij : j = i
  · rw [hij] at h
    exact h.caughtUp
  · cases h with
    | same _ heq =>
        rw [heq]
        exact hcaught
    | noticed _ _ hchannels hselection hseen _ =>
        intro d seen hd hs
        rw [hselection] at hd
        rw [hseen, List.getElem?_set_ne hij] at hs
        rw [watch_congr hchannels]
        exact hcaught d seen hd hs

theorem Looked.channels_eq (h : Looked i b b') : b'.channels = b.channels := by
  cases h with
  | same _ heq => rw [heq]
  | noticed _ _ hchannels _ _ _ => exact hchannels

/-- The selection leaves nobody behind: a new observer has seen the present state. -/
theorem Tracks.caughtUp_acted (h : Tracks added b) (hcaught : ∀ i, b.CaughtUp i)
    (hacted : Acted b b') (i : Nat) : b'.CaughtUp i := by
  cases hacted with
  | idle _ heq =>
      rw [heq]
      exact hcaught i
  | add _ hchannels _ hseen hcandidates _ =>
      intro c seen hc hs
      rw [hcandidates] at hc
      rw [hseen] at hs
      rw [watch_congr hchannels]
      rcases getElem?_concat_cases h.observed hc hs with ⟨hc, hs⟩ | ⟨-, rfl, rfl⟩
      · exact hcaught i c seen hc hs
      · exact Nat.le_refl _
  | record _ hchannels _ hseen hcandidates _ =>
      intro c seen hc hs
      rw [hcandidates, List.getElem?_modify] at hc
      obtain ⟨c, hc', rfl⟩ := Option.map_eq_some_iff.mp hc
      rw [hseen] at hs
      rw [watch_congr hchannels]
      have hle := hcaught i c seen hc' hs
      split
      · exact hle
      · exact hle

theorem Acted.channels_eq (h : Acted b b') : b'.channels = b.channels := by
  cases h with
  | idle _ heq => rw [heq]
  | add _ hchannels => exact hchannels
  | record _ hchannels => exact hchannels

theorem Acted.commands_eq (h : Acted b b') : b'.commands = b.commands.tail := by
  cases h with
  | idle hcommands heq =>
      rw [heq, hcommands]
      rfl
  | add hcommands _ hrest =>
      rw [hcommands, hrest]
      rfl
  | record hcommands _ hrest =>
      rw [hcommands, hrest]
      rfl

/-- The observers look one after the other. -/
def lookAll (b : Bundle) : Bundle :=
  (List.range b.observers.length).foldl (fun b i => b.observeState i) b

/-- The observers pass their messages on, one after the other. -/
def passAll (b : Bundle) : Bundle :=
  (List.range b.observers.length).foldl (fun b i => b.observeMessages i) b

theorem settle_eq (b : Bundle) : b.settle = b.actAll.lookAll.actAll.passAll := rfl

theorem Tracks.lookAll (h : Tracks added b) : Tracks added b.lookAll :=
  List.foldlRecOn _ _ h fun b' h' i _ => h'.looked (looked_observeState i b')

theorem alike_passAll (b : Bundle) : Alike b b.passAll := by
  refine List.foldlRecOn _ _ (.refl b) fun b' hb' i _ => hb'.trans ?_
  exact List.foldlRecOn _ _ (.refl b') fun b'' hb'' _ _ =>
    hb''.trans (alike_observeMessage i b'')

theorem caughtUp_foldl {is : List Nat} (h : i ∈ is ∨ b.CaughtUp i) :
    (is.foldl (fun b i => b.observeState i) b).CaughtUp i := by
  induction is generalizing b with
  | nil =>
      rcases h with h | h
      · cases h
      · exact h
  | cons j is ih =>
      refine ih ?_
      rcases h with h | h
      · rcases List.mem_cons.mp h with rfl | h
        · exact Or.inr (looked_observeState i b).caughtUp
        · exact Or.inl h
      · exact Or.inr (h.looked (looked_observeState j b))

/-- Once all have looked, nobody is behind. -/
theorem caughtUp_lookAll (b : Bundle) (i : Nat) : b.lookAll.CaughtUp i := by
  refine caughtUp_foldl ?_
  rw [List.mem_range]
  by_cases hi : i < b.observers.length
  · exact Or.inl hi
  · refine Or.inr ?_
    intro c seen _ hs
    rw [Bundle.seen, List.getElem?_map, List.getElem?_eq_none (Nat.le_of_not_lt hi)] at hs
    cases hs

theorem Tracks.caughtUp_actAll (h : Tracks added b) (hcaught : ∀ i, b.CaughtUp i) (i : Nat) :
    b.actAll.CaughtUp i := by
  have hboth : Tracks added b.actAll ∧ ∀ i, b.actAll.CaughtUp i :=
    List.foldlRecOn (motive := fun b => Tracks added b ∧ ∀ i, b.CaughtUp i) b.commands _
      ⟨h, hcaught⟩ fun b' hb' _ _ =>
        ⟨hb'.1.acted (acted_act b'), hb'.1.caughtUp_acted hb'.2 (acted_act b')⟩
  exact hboth.2 i

theorem commands_actAll (b : Bundle) : b.actAll.commands = [] := by
  have hfold : ∀ (commands : List BundleCommand) (b : Bundle), b.commands = commands →
      (commands.foldl (fun b _ => b.act) b).commands = [] := by
    intro commands
    induction commands with
    | nil => exact fun _ h => h
    | cons command commands ih =>
        intro b h
        refine ih b.act ?_
        rw [(acted_act b).commands_eq, h]
        rfl
  exact hfold b.commands b rfl

theorem channels_actAll (b : Bundle) : b.actAll.channels = b.channels :=
  List.foldlRecOn (motive := fun b' : Bundle => b'.channels = b.channels) b.commands _ rfl
    fun b' hb' _ _ => (acted_act b').channels_eq.trans hb'

theorem channels_lookAll (b : Bundle) : b.lookAll.channels = b.channels :=
  List.foldlRecOn (motive := fun b' : Bundle => b'.channels = b.channels) _ _ rfl
    fun b' hb' i _ => (looked_observeState i b').channels_eq.trans hb'

/-- **A bundle comes to rest**, wherever it is, if its observers and its selection go on while its
channels do not. -/
theorem Tracks.settle (h : Tracks added b) :
    Tracks added b.settle ∧ Settled b.settle ∧ b.settle.channels = b.channels := by
  have hlooked := h.actAll.lookAll
  have hcaught := hlooked.caughtUp_actAll (caughtUp_lookAll b.actAll)
  have hsettled := hlooked.actAll.settled (commands_actAll _) hcaught
  have halike := alike_passAll b.actAll.lookAll.actAll
  rw [settle_eq]
  refine ⟨hlooked.actAll.of_alike halike, hsettled.of_alike halike, ?_⟩
  rw [halike.channels, channels_actAll, channels_lookAll, channels_actAll]

/-! ## The whole -/

/-- **A bundle comes to what its channels call for.** Whatever happened, in whatever order: as soon
as no observer has a change to notice and no command waits, each channel handed over is a candidate
with its present state; the state of all together follows from these; and the one selected, which
alone gets the next message, and once, is the first handed over of least rank among those that are
connected. If none is, none is selected, and nobody gets the message. And without further events of
the channels the bundle always comes to that. -/
theorem bundle_converges (channels : List Loopback) (turns : List Turn) :
    (Settled (run channels turns) →
      Presents (run channels turns) (turns.filterMap Turn.added?)) ∧
    Settled (run channels turns).settle ∧
    (run channels turns).settle.channels = (run channels turns).channels ∧
    Presents (run channels turns).settle (turns.filterMap Turn.added?) := by
  have htracks := tracks_run channels turns
  obtain ⟨htracks', hsettled, hchannels⟩ := htracks.settle
  exact ⟨htracks.presents, hsettled, hchannels, htracks'.presents hsettled⟩

/-- Two channels connect, and the better one is lost while the report of its connection still
waits. -/
def failover : List Turn :=
  [.report 0 .connected, .add .cloud 0, .add .lan 1, .act, .act, .report 1 .connected,
    .observeState 1, .report 1 .disconnected, .act, .observeState 1, .act]

/-- Four channels connect, and the best one is handed over last. -/
def fourWays : List Turn :=
  [.report 0 .connected, .report 1 .connected, .report 2 .connected, .report 3 .connected,
    .add .cloud 0, .add .ble 1, .add .wifiDirect 2, .add .lan 3, .act, .act, .act, .act]

/-- A channel is lost, which is noticed. -/
def loss (i : Nat) : List Turn := [.report i .disconnected, .observeState i, .act]

/-- The channel that is left is selected. Of four that are connected the local network is, though
it was handed over last, and then the others in their order, as one after the other is lost. -/
theorem bundle_converges_failover :
    (Settled (run [.idle, .idle] failover) ∧
      Presents (run [.idle, .idle] failover) [(.cloud, 0), (.lan, 1)] ∧
      (run [.idle, .idle] failover).selection.bestTransport = some .cloud) ∧
    Settled (run (List.replicate 4 .idle) fourWays) ∧
    Presents (run (List.replicate 4 .idle) fourWays)
      [(.cloud, 0), (.ble, 1), (.wifiDirect, 2), (.lan, 3)] ∧
    ([fourWays, fourWays ++ loss 3, fourWays ++ loss 3 ++ loss 2,
      fourWays ++ loss 3 ++ loss 2 ++ loss 1].map fun turns =>
        (run (List.replicate 4 .idle) turns).selection.bestTransport) =
      [some .lan, some .wifiDirect, some .ble, some .cloud] := by
  have hsettled : Settled (run [.idle, .idle] failover) := ⟨by decide, by decide⟩
  have hsettled' : Settled (run (List.replicate 4 .idle) fourWays) := ⟨by decide, by decide⟩
  obtain ⟨hpresents, -⟩ := bundle_converges [.idle, .idle] failover
  obtain ⟨hpresents', -⟩ := bundle_converges (List.replicate 4 .idle) fourWays
  exact ⟨⟨hsettled, hpresents hsettled, by decide⟩, hsettled', hpresents' hsettled', by decide⟩

end PeerCall.Bundle
