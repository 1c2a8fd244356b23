import Mathlib.Data.List.Induction
import PeerCall.Channel.Bundle
import PeerCall.Proofs.Channel.Selecting

/-!
# A bundle keeps track of its channels

The state recorded for a candidate lags behind the state of its channel, and several changes may
pass as one. No change is lost for all that: where an observer has seen the latest version, the last
report that waits in the queue is the channel's present state, and without a report that state is
recorded already. Every turn keeps it so, whoever takes it.
-/
namespace PeerCall

/-- The channel that a candidate is, with its transport. -/
def Candidate.source (c : Candidate) : Transport × Nat := (c.transport, c.channel)

/-- The channel that a command takes up, with its transport. -/
def BundleCommand.added? : BundleCommand → Option (Transport × Nat)
  | .add transport channel => some (transport, channel)
  | .stateChanged .. => none

/-- The state recorded for a candidate once a command is carried out. -/
def BundleCommand.recorded (i : Nat) (state : ChannelState) : BundleCommand → ChannelState
  | .add .. => state
  | .stateChanged j next => if j = i then next else state

namespace Bundle

open Selection

variable {b b' : Bundle} {added : List (Transport × Nat)} {i channel : Nat} {c : Candidate}
  {commands : List BundleCommand} {state : ChannelState}

/-! ## What matters of a bundle -/

/-- The state of a channel, as the channel itself publishes it. -/
def watch (b : Bundle) (channel : Nat) : Watched ChannelState :=
  (b.channels[channel]?.map (·.state)).getD (.start .idle)

/-- The versions that the observers noticed last. -/
def seen (b : Bundle) : List Nat := b.observers.map Observer.seen

/-- The state recorded for a candidate once commands are carried out. -/
def expected (commands : List BundleCommand) (i : Nat) (state : ChannelState) : ChannelState :=
  commands.foldl (BundleCommand.recorded i) state

/-- Two bundles differ at most in messages and notices. -/
structure Alike (b b' : Bundle) : Prop where
  channels : b'.channels = b.channels
  selection : b'.selection = b.selection
  commands : b'.commands = b.commands
  seen : b'.seen = b.seen

theorem live_eq (b : Bundle) (channel : Nat) :
    b.live channel = decide ((b.watch channel).value = .connected) := by
  rw [live, watch]
  cases b.channels[channel]? <;> rfl

theorem watch_congr (h : b'.channels = b.channels) (channel : Nat) :
    b'.watch channel = b.watch channel := by
  rw [watch, watch, h]

theorem expected_concat (commands : List BundleCommand) (command : BundleCommand) (i : Nat)
    (state : ChannelState) :
    expected (commands ++ [command]) i state = command.recorded i (expected commands i state) := by
  rw [expected, List.foldl_append]
  rfl

/-- Nothing is expected for a candidate about which no report waits. -/
theorem expected_of_not_mem (h : ∀ next, BundleCommand.stateChanged i next ∉ commands) :
    expected commands i state = state := by
  induction commands generalizing state with
  | nil => rfl
  | cons command commands ih =>
      have hrest : ∀ next, BundleCommand.stateChanged i next ∉ commands :=
        fun next hmem => h next (List.mem_cons_of_mem command hmem)
      have hhead : command.recorded i state = state := by
        cases command with
        | add transport channel => rfl
        | stateChanged j next =>
            refine if_neg ?_
            rintro rfl
            exact h next List.mem_cons_self
      rw [expected, List.foldl_cons, hhead]
      exact ih hrest

/-! ## The invariant -/

/-- An observer that noticed a version follows its candidate's channel: it is not ahead, and if it
is not behind either, the present state is recorded or will be, by what waits in the queue. -/
structure Follows (b : Bundle) (i : Nat) (c : Candidate) (seen : Nat) : Prop where
  le : seen ≤ (b.watch c.channel).version
  present : seen = (b.watch c.channel).version →
    expected b.commands i c.state = (b.watch c.channel).value

theorem Follows.congr {c' : Candidate} {seen : Nat} (h : b.Follows i c seen)
    (hchannels : b'.channels = b.channels) (hchannel : c'.channel = c.channel)
    (hexpected : expected b'.commands i c'.state = expected b.commands i c.state) :
    b'.Follows i c' seen := by
  obtain ⟨hle, hpresent⟩ := h
  refine ⟨?_, ?_⟩ <;> rw [watch_congr hchannels, hchannel]
  · exact hle
  · rw [hexpected]
    exact hpresent

/-- A bundle keeps track of the channels that it was told to take up: the candidates are the first
of them, in order, the others wait; each candidate has an observer, which follows the channel; and
the selection is up to date with what is recorded. -/
structure Tracks (added : List (Transport × Nat)) (b : Bundle) : Prop where
  current : b.selection.Current
  members : b.selection.candidates.map Candidate.source ++
    b.commands.filterMap BundleCommand.added? = added
  observed : b.seen.length = b.selection.candidates.length
  reported : ∀ i state, BundleCommand.stateChanged i state ∈ b.commands → i < b.seen.length
  follows : ∀ i c seen, b.selection.candidates[i]? = some c → b.seen[i]? = some seen →
    b.Follows i c seen

theorem tracks_start (channels : List Loopback) : Tracks [] (start channels) where
  current := current_empty
  members := rfl
  observed := rfl
  reported _ _ h := nomatch h
  follows _ _ _ h := nomatch h

theorem Tracks.of_alike (h : Tracks added b) (halike : Alike b b') : Tracks added b' := by
  obtain ⟨hchannels, hselection, hcommands, hseen⟩ := halike
  refine ⟨?_, ?_, ?_, ?_, ?_⟩
  · rw [hselection]
    exact h.current
  · rw [hselection, hcommands]
    exact h.members
  · rw [hseen, hselection]
    exact h.observed
  · rw [hcommands, hseen]
    exact h.reported
  · rw [hselection, hseen]
    intro i c seen hc hs
    exact (h.follows i c seen hc hs).congr hchannels rfl (by rw [hcommands])

/-! ## Channels -/

/-- What happens to a channel shows if its state is another one. -/
def Publishes (f : Loopback → Loopback) : Prop :=
  ∀ l, (f l).state = l.state ∨ l.state.version < (f l).state.version

theorem publishes_setState (state : ChannelState) : Publishes (Loopback.setState state) := by
  intro l
  rw [Loopback.setState, Watched.set]
  split
  · exact Or.inl rfl
  · exact Or.inr (Nat.lt_succ_self _)

theorem publishes_disconnect : Publishes Loopback.disconnect := by
  intro l
  rw [Loopback.disconnect]
  split
  · exact Or.inl rfl
  · exact publishes_setState .disconnected l

theorem publishes_record (m : Message) : Publishes (Loopback.record m) := fun _ => Or.inl rfl

theorem watch_onChannel {f : Loopback → Loopback} (hf : Publishes f) (channel i : Nat)
    (b : Bundle) : (b.onChannel channel f).watch i = b.watch i ∨
      (b.watch i).version < ((b.onChannel channel f).watch i).version := by
  rw [watch, watch, onChannel, List.getElem?_modify]
  cases b.channels[i]? with
  | none => exact Or.inl rfl
  | some l =>
      by_cases h : channel = i
      · simp only [h, if_true]
        exact hf l
      · simp only [h, if_false]
        exact Or.inl rfl

theorem Tracks.onChannel (h : Tracks added b) {f : Loopback → Loopback} (hf : Publishes f)
    (channel : Nat) : Tracks added (b.onChannel channel f) := by
  refine ⟨h.current, h.members, h.observed, h.reported, ?_⟩
  intro i c seen hc hs
  obtain ⟨hle, hpresent⟩ := h.follows i c seen hc hs
  rcases watch_onChannel hf channel c.channel b with hsame | hnewer
  · refine ⟨?_, ?_⟩ <;> rw [hsame]
    · exact hle
    · exact hpresent
  · -- The observer is behind, whether it was before or not.
    refine ⟨by omega, fun heq => ?_⟩
    omega

/-! ## The queue -/

theorem Tracks.add (h : Tracks added b) (transport : Transport) (channel : Nat) :
    Tracks (added ++ [(transport, channel)]) (b.enqueue (.add transport channel)) := by
  refine ⟨h.current, ?_, h.observed, ?_, ?_⟩
  · rw [enqueue, List.filterMap_append, ← List.append_assoc, h.members]
    rfl
  · intro i state hmem
    rcases List.mem_append.mp hmem with hmem | hmem
    · exact h.reported i state hmem
    · cases List.mem_singleton.mp hmem
  · intro i c seen hc hs
    exact (h.follows i c seen hc hs).congr rfl rfl (expected_concat ..)

/-! ## The selection -/

/-- What it can come to that the oldest command is carried out. There may be none; a candidate is
taken up with the present state of its channel, which its observer has seen; or a state is
recorded. -/
inductive Acted (b b' : Bundle) : Prop
  | idle (hcommands : b.commands = []) (heq : b' = b)
  | add {transport : Transport} {channel : Nat} {commands : List BundleCommand}
    (hcommands : b.commands = .add transport channel :: commands)
    (hchannels : b'.channels = b.channels) (hrest : b'.commands = commands)
    (hseen : b'.seen = b.seen ++ [(b.watch channel).version])
    (hcandidates : b'.selection.candidates =
      b.selection.candidates ++ [⟨transport, channel, (b.watch channel).value⟩])
    (hcurrent : b'.selection.Current)
  | record {i : Nat} {state : ChannelState} {commands : List BundleCommand}
    (hcommands : b.commands = .stateChanged i state :: commands)
    (hchannels : b'.channels = b.channels) (hrest : b'.commands = commands)
    (hseen : b'.seen = b.seen)
    (hcandidates : b'.selection.candidates =
      b.selection.candidates.modify i fun c => { c with state })
    (hcurrent : b.selection.Current → b'.selection.Current)

theorem acted_act (b : Bundle) : Acted b b.act := by
  unfold act
  split
  · rename_i hcommands
    exact .idle hcommands rfl
  · rename_i transport channel commands hcommands
    exact .add hcommands rfl rfl (List.map_append ..) (candidates_add ..) (current_add ..)
  · rename_i i state commands hcommands
    exact .record hcommands rfl rfl rfl (candidates_record ..) fun h => current_record h i state

/-- What stands at a place of two lists of one length, each with one more behind it. -/
theorem getElem?_concat_cases {α β : Type} {l : List α} {l' : List β} {a x : α} {a' y : β}
    (hlength : l'.length = l.length) (hx : (l ++ [a])[i]? = some x)
    (hy : (l' ++ [a'])[i]? = some y) :
    l[i]? = some x ∧ l'[i]? = some y ∨ i = l'.length ∧ x = a ∧ y = a' := by
  rcases Nat.lt_trichotomy i l.length with hi | rfl | hi
  · rw [List.getElem?_append_left hi] at hx
    rw [List.getElem?_append_left (by omega)] at hy
    exact Or.inl ⟨hx, hy⟩
  · rw [List.getElem?_concat_length] at hx
    rw [← hlength, List.getElem?_concat_length] at hy
    cases hx
    cases hy
    exact Or.inr ⟨hlength.symm, rfl, rfl⟩
  · rw [List.getElem?_eq_none (by rw [List.length_append, List.length_singleton]; omega)] at hx
    cases hx

/-- To record a state changes nothing about where a candidate comes from. -/
theorem map_source_modify (i : Nat) (state : ChannelState) (cs : List Candidate) :
    (cs.modify i fun c => { c with state }).map Candidate.source = cs.map Candidate.source := by
  refine List.ext_getElem? fun j => ?_
  rw [List.getElem?_map, List.getElem?_map, List.getElem?_modify]
  cases cs[j]? with
  | none => rfl
  | some c =>
      by_cases h : i = j
      · simp only [h, if_true]
        rfl
      · simp only [h, if_false]
        rfl

theorem Tracks.acted (h : Tracks added b) (hacted : Acted b b') : Tracks added b' := by
  cases hacted with
  | idle _ heq =>
      rw [heq]
      exact h
  | @add transport channel commands hcommands hchannels hrest hseen hcandidates hcurrent =>
      have hreported : ∀ i state, BundleCommand.stateChanged i state ∈ commands →
          i < b.seen.length :=
        fun i state hmem =>
          h.reported i state (by rw [hcommands]; exact List.mem_cons_of_mem _ hmem)
      refine ⟨hcurrent, ?_, ?_, ?_, ?_⟩
      · rw [hcandidates, hrest, ← h.members, hcommands, List.map_append, List.append_assoc]
        rfl
      · rw [hcandidates, hseen, List.length_append, List.length_append, h.observed]
        rfl
      · rw [hseen, hrest, List.length_append]
        intro i state hmem
        exact Nat.lt_add_right _ (hreported i state hmem)
      · rw [hcandidates, hseen]
        intro i c seen hc hs
        rcases getElem?_concat_cases h.observed hc hs with ⟨hc, hs⟩ | ⟨rfl, rfl, rfl⟩
        · refine (h.follows i c seen hc hs).congr hchannels rfl ?_
          rw [hrest, hcommands]
          rfl
        · -- No report can wait about a candidate that is just taken up.
          refine ⟨Nat.le_of_eq ?_, fun _ => ?_⟩ <;> rw [watch_congr hchannels]
          rw [hrest]
          exact expected_of_not_mem fun next hmem => Nat.lt_irrefl _ (hreported _ next hmem)
  | @record i state commands hcommands hchannels hrest hseen hcandidates hcurrent =>
      refine ⟨hcurrent h.current, ?_, ?_, ?_, ?_⟩
      · rw [hcandidates, hrest, ← h.members, hcommands, map_source_modify]
        rfl
      · rw [hcandidates, hseen, List.length_modify, h.observed]
      · rw [hseen, hrest]
        intro j next hmem
        exact h.reported j next (by rw [hcommands]; exact List.mem_cons_of_mem _ hmem)
      · rw [hcandidates, hseen]
        intro j c seen hc hs
        rw [List.getElem?_modify] at hc
        obtain ⟨c, hc', rfl⟩ := Option.map_eq_some_iff.mp hc
        -- What is recorded for a candidate was expected for it.
        refine (h.follows j c seen hc' hs).congr hchannels ?_ ?_
        · split <;> rfl
        · rw [hrest, hcommands, expected, expected, List.foldl_cons, BundleCommand.recorded]
          split <;> rfl

/-! ## Observers -/

/-- The observer of a candidate is not behind. -/
def CaughtUp (b : Bundle) (i : Nat) : Prop :=
  ∀ c seen, b.selection.candidates[i]? = some c → b.seen[i]? = some seen →
    (b.watch c.channel).version ≤ seen

/-- What it can come to that the observer of a candidate looks: it finds nothing new, or notices the
present state and reports it. -/
inductive Looked (i : Nat) (b b' : Bundle) : Prop
  | same (hcaught : b.CaughtUp i) (heq : b' = b)
  | noticed {c : Candidate} (hc : b.selection.candidates[i]? = some c) (hlt : i < b.seen.length)
    (hchannels : b'.channels = b.channels) (hselection : b'.selection = b.selection)
    (hseen : b'.seen = b.seen.set i (b.watch c.channel).version)
    (hcommands : b'.commands = b.commands ++ [.stateChanged i (b.watch c.channel).value])

theorem looked_observeState (i : Nat) (b : Bundle) : Looked i b (b.observeState i) := by
  unfold observeState
  split
  · rename_i c o hc ho
    have hseen : b.seen[i]? = some o.seen := by
      rw [seen, List.getElem?_map, ho]
      rfl
    have hsame : (b.watch c.channel).version ≤ o.seen → b.CaughtUp i := by
      intro hle d seen hd hs
      cases hc.symm.trans hd
      cases hseen.symm.trans hs
      exact hle
    split
    · rename_i l hl
      have hwatch : b.watch c.channel = l.state := by
        rw [watch, hl]
        rfl
      split
      · refine .noticed hc (List.getElem?_eq_some_iff.mp hseen).1 rfl rfl ?_ ?_
        · rw [hwatch]
          exact List.map_set ..
        · rw [hwatch]
      · rename_i hnoticed
        refine .same (hsame ?_) rfl
        rw [Watched.changedSince, Bool.not_eq_true, bne_eq_false_iff_eq] at hnoticed
        rw [hwatch]
        exact Nat.le_of_eq hnoticed
    · rename_i hl
      refine .same (hsame ?_) rfl
      rw [watch, hl]
      exact Nat.zero_le _
  · rename_i hmissing
    refine .same ?_ rfl
    intro c seen hc hs
    rw [Bundle.seen, List.getElem?_map] at hs
    obtain ⟨o, ho, -⟩ := Option.map_eq_some_iff.mp hs
    exact absurd ho (hmissing c o hc)

theorem Tracks.looked (h : Tracks added b) (hlooked : Looked i b b') : Tracks added b' := by
  cases hlooked with
  | same _ heq =>
      rw [heq]
      exact h
  | noticed hc hlt hchannels hselection hseen hcommands =>
      refine ⟨?_, ?_, ?_, ?_, ?_⟩
      · rw [hselection]
        exact h.current
      · rw [hselection, hcommands, ← h.members, List.filterMap_append]
        exact congrArg _ (List.append_nil _)
      · rw [hseen, List.length_set, hselection]
        exact h.observed
      · rw [hseen, List.length_set, hcommands]
        intro j state hmem
        rcases List.mem_append.mp hmem with hmem | hmem
        · exact h.reported j state hmem
        · cases List.mem_singleton.mp hmem
          exact hlt
      · rw [hselection, hseen]
        intro j d seen hd hs
        by_cases hij : i = j
        · subst hij
          rw [List.getElem?_set_self hlt] at hs
          cases hs
          cases hc.symm.trans hd
          refine ⟨Nat.le_of_eq ?_, fun _ => ?_⟩ <;> rw [watch_congr hchannels]
          rw [hcommands, expected_concat]
          exact if_pos rfl
        · rw [List.getElem?_set_ne hij] at hs
          refine (h.follows j d seen hd hs).congr hchannels rfl ?_
          rw [hcommands, expected_concat]
          exact if_neg hij

/-! ## Messages -/

theorem Alike.refl (b : Bundle) : Alike b b := ⟨rfl, rfl, rfl, rfl⟩

theorem Alike.trans {b'' : Bundle} (h : Alike b b') (h' : Alike b' b'') : Alike b b'' :=
  ⟨h'.channels.trans h.channels, h'.selection.trans h.selection, h'.commands.trans h.commands,
    h'.seen.trans h.seen⟩

theorem alike_arrive (h : b.seen.length = b.selection.candidates.length) (channel : Nat)
    (ms : List Message) : Alike b (b.arrive channel ms) := by
  refine ⟨rfl, rfl, rfl, ?_⟩
  have hpart : ∀ x : Candidate × Observer,
      (if x.1.channel = channel then { x.2 with inbox := x.2.inbox.append ms } else x.2).seen =
        x.2.seen := by
    intro x
    split <;> rfl
  rw [seen, List.length_map] at h
  rw [seen, arrive, List.map_map, seen]
  conv_rhs => rw [← List.map_snd_zip (Nat.le_of_eq h), List.map_map]
  exact List.map_congr_left fun x _ => hpart x

theorem alike_observeMessage (candidate : Nat) (b : Bundle) :
    Alike b (b.observeMessage candidate) := by
  unfold observeMessage
  split
  · rename_i o ho
    split
    · obtain ⟨hlt, rfl⟩ := List.getElem?_eq_some_iff.mp ho
      refine ⟨rfl, rfl, rfl, ?_⟩
      rw [seen, seen, List.map_set]
      conv_rhs => rw [← List.set_getElem_self hlt, List.map_set]
    · exact .refl b
  · exact .refl b

/-! ## Runs -/

/-- What can happen next: a channel reports a state or brings messages, a channel is handed to the
bundle, an observer or the selection does one thing, or a subscriber asks for something. -/
inductive Turn
  | report (channel : Nat) (state : ChannelState)
  | bring (channel : Nat) (ms : List Message)
  | add (transport : Transport) (channel : Nat)
  | observeState (candidate : Nat)
  | observeMessage (candidate : Nat)
  | act
  | send (m : Message)
  | broadcast (m : Message)
  | connect
  | disconnect

/-- The bundle after a turn. -/
def Turn.after (b : Bundle) : Turn → Bundle
  | report channel state => b.onChannel channel (Loopback.setState state)
  | bring channel ms => b.arrive channel ms
  | add transport channel => b.enqueue (.add transport channel)
  | observeState candidate => b.observeState candidate
  | observeMessage candidate => b.observeMessage candidate
  | act => b.act
  | send m => b.send m
  | broadcast m => b.broadcast m
  | connect => b.connect
  | disconnect => b.disconnect

/-- The channel that is handed to the bundle in a turn, with its transport. -/
def Turn.added? : Turn → Option (Transport × Nat)
  | add transport channel => some (transport, channel)
  | _ => none

/-- The bundle over channels after turns. -/
def run (channels : List Loopback) (turns : List Turn) : Bundle :=
  turns.foldl Turn.after (start channels)

theorem Tracks.actAll (h : Tracks added b) : Tracks added b.actAll :=
  List.foldlRecOn b.commands _ h fun b' h' _ _ => h'.acted (acted_act b')

theorem Tracks.onRoute (h : Tracks added b) {f : Loopback → Loopback} (hf : Publishes f)
    (route : Route) : Tracks added (b.onRoute route f) :=
  List.foldlRecOn _ _ h.actAll fun _ h channel _ => h.onChannel hf channel

/-- **Every turn keeps track.** -/
theorem Tracks.turn (h : Tracks added b) (t : Turn) :
    Tracks (added ++ t.added?.toList) (t.after b) := by
  have hsame : ∀ {b'}, Tracks added b' → Tracks (added ++ []) b' := by
    intro b' h'
    rw [List.append_nil]
    exact h'
  cases t with
  | report channel state => exact hsame (h.onChannel (publishes_setState state) channel)
  | bring channel ms => exact hsame (h.of_alike (alike_arrive h.observed channel ms))
  | add transport channel => exact h.add transport channel
  | observeState candidate => exact hsame (h.looked (looked_observeState candidate b))
  | observeMessage candidate => exact hsame (h.of_alike (alike_observeMessage candidate b))
  | act => exact hsame (h.acted (acted_act b))
  | send m => exact hsame (h.onRoute (publishes_record m) .best)
  | broadcast m => exact hsame (h.onRoute (publishes_record m) .connected)
  | connect => exact hsame (h.onRoute (publishes_setState .connected) .everyone)
  | disconnect => exact hsame (h.onRoute publishes_disconnect .everyone)

theorem tracks_run (channels : List Loopback) (turns : List Turn) :
    Tracks (turns.filterMap Turn.added?) (run channels turns) := by
  induction turns using List.reverseRecOn with
  | nil => exact tracks_start channels
  | append_singleton turns t ih =>
      have hlast : (turns ++ [t]).filterMap Turn.added? =
          turns.filterMap Turn.added? ++ t.added?.toList := by
        rw [List.filterMap_append, List.filterMap_cons, List.filterMap_nil]
        cases t.added? <;> rfl
      have hrun : run channels (turns ++ [t]) = t.after (run channels turns) := by
        rw [run, List.foldl_append]
        rfl
      rw [hlast, hrun]
      exact ih.turn t

end Bundle

end PeerCall
