import PeerCall.Proofs.Rehearsal.Duets

/-!
# A call over channels that lead nowhere

A world with one call and channels without far ends. What the call does shows in the records of the
channels and in their states, and nothing comes back but what is made to happen there.
-/
namespace PeerCall.Rehearsal

open Handshake

namespace Alone

variable {σ : Type}

/-- What can happen to a call over channels that lead nowhere. -/
inductive Act (σ : Type)
  | bind (channel : Nat)
  | hangUp
  /-- Messages arrive on a channel. -/
  | arrive (channel : Nat) (messages : List Message)
  /-- A channel reports a state. -/
  | set (channel : Nat) (state : ChannelState)
  /-- The call takes up a thing of some kind, if one waits. -/
  | turn (errand : Errand)
  | chat (text : String)
  /-- The media engine changes by itself. -/
  | engine (f : σ → σ)
  | wait (d : Duration)

/-- What an act makes of a world with one call. -/
def act (w : World σ) : Act σ → World σ
  | .bind channel => w.bind 0 channel
  | .hangUp => w.hangUp 0
  | .arrive channel ms => w.arrive channel ms
  | .set channel state => w.onChannel channel (.setState state)
  | .turn errand => ((w.take? 0 errand).map (·.2)).getD w
  | .chat text => w.tell 0 fun _ c => c.chat text
  | .engine f => w.onEngine 0 f
  | .wait d => { w with now := w.now + d }

/-- The world after acts. -/
def after (w : World σ) (acts : List (Act σ)) : World σ := acts.foldl act w

/-- A world with one call over channels that lead nowhere. -/
def world (now : Instant) (ls : List Loopback) (p : Party σ) (c : Call σ) : World σ :=
  ⟨now, ls, fun _ => none, true, [(p, c)]⟩

/-- A call before its first binding. -/
def start (p : Party σ) (media : σ) (ls : List Loopback) : World σ := world 0 ls p (.start media)

/-- A channel to which messages were passed. -/
def record (ms : List Message) (l : Loopback) : Loopback := { l with sent := l.sent ++ ms }

/-- The state that a channel reports. -/
def stateOf (channel : Nat) (ls : List Loopback) : Watched ChannelState :=
  (ls[channel]?.map (·.state)).getD (.start .idle)

variable {p : Party σ} {c c' : Call σ} {now : Instant} {ls ls' : List Loopback} {channel i : Nat}
  {ms : List Message}

/-! ## Channels -/

theorem stateOf_modify_ne {f : Loopback → Loopback} (h : channel ≠ i) :
    stateOf i (ls.modify channel f) = stateOf i ls := by
  rw [stateOf, List.getElem?_modify, stateOf]
  simp [h]

theorem stateOf_record (channel i : Nat) (ms : List Message) (ls : List Loopback) :
    stateOf i (ls.modify channel (record ms)) = stateOf i ls := by
  by_cases h : channel = i
  · subst h
    rw [stateOf, List.getElem?_modify_eq, stateOf]
    cases ls[channel]? <;> rfl
  · exact stateOf_modify_ne h

theorem stateOf_setState {state : ChannelState} (h : channel < ls.length) :
    stateOf channel (ls.modify channel (.setState state)) = (stateOf channel ls).set state := by
  rw [stateOf, List.getElem?_modify_eq, stateOf, List.getElem?_eq_getElem h]
  rfl

/-- A channel that is asked to connect is connected, if there is one. -/
theorem value_stateOf_connect (channel : Nat) (ls : List Loopback) :
    (stateOf channel (ls.modify channel .connect)).value =
      if channel < ls.length then .connected else .idle := by
  rw [stateOf, List.getElem?_modify_eq]
  by_cases h : channel < ls.length
  · simp [h, Loopback.connect, Loopback.setState]
  · rw [if_neg h, List.getElem?_eq_none (Nat.le_of_not_lt h)]
    rfl

theorem sent_modify {f : Loopback → Loopback} (hf : ∀ l, (f l).sent = l.sent) (channel : Nat)
    (ls : List Loopback) : (ls.modify channel f).map (·.sent) = ls.map (·.sent) := by
  apply List.ext_getElem?
  intro i
  rw [List.getElem?_map, List.getElem?_map, List.getElem?_modify]
  by_cases h : channel = i
  · cases ls[i]? <;> simp [h, hf]
  · cases ls[i]? <;> simp [h]

theorem sent_record (channel : Nat) (ms : List Message) (ls : List Loopback) :
    (ls.modify channel (record ms)).map (·.sent) =
      (ls.map (·.sent)).modify channel (· ++ ms) := by
  apply List.ext_getElem?
  intro i
  rw [List.getElem?_map, List.getElem?_modify, List.getElem?_modify, List.getElem?_map]
  by_cases h : channel = i
  · cases ls[i]? <;> simp [h, record]
  · cases ls[i]? <;> simp [h]

theorem sent_setState (state : ChannelState) (l : Loopback) : (l.setState state).sent = l.sent :=
  rfl

theorem sent_disconnect (l : Loopback) : l.disconnect.sent = l.sent := by
  rw [Loopback.disconnect]
  split <;> rfl

/-! ## What acts make of channels and call -/

theorem foldl_record (channel : Nat) (ms : List Message) (ls : List Loopback) :
    ms.foldl (fun ls m => ls.modify channel (.record m)) ls = ls.modify channel (record ms) := by
  induction ms generalizing ls with
  | nil =>
      have hrecord : record [] = id := by
        funext l
        simp [record]
      rw [hrecord, List.modify_id]
      rfl
  | cons m ms ih =>
      have hrecord : record ms ∘ Loopback.record m = record (m :: ms) := by
        funext l
        simp [record, Loopback.record]
      rw [List.foldl_cons, ih, List.modify_modify_eq, hrecord]

/-- Deeds that keep to a channel pass their messages to it. -/
theorem foldl_perform_world {entries : List (Stage × Deed)}
    (h : ∀ x ∈ entries, x.2.KeepsTo channel) :
    (entries.map (·.2)).foldl World.perform (world now ls p c) =
      world now (ls.modify channel (record (entries.filterMap fun x => x.2.message?))) p c := by
  rw [World.foldl_perform h, ← foldl_record]
  generalize entries.filterMap (fun x => x.2.message?) = ms
  induction ms generalizing ls with
  | nil => rfl
  | cons m ms ih =>
      have hcarry : (world now ls p c).carry channel m =
          world now (ls.modify channel (.record m)) p c := by
        simp [World.carry, World.onChannel, world]
      rw [List.foldl_cons, hcarry, ih, List.foldl_cons]

/-- The messages that a session has sent since another one. -/
def sentSince (s s' : Session σ) : List Message :=
  (s'.log.drop s.log.length).filterMap fun x => x.2.message?

/-- What binding makes of the channels. -/
def channelsBound (p : Party σ) (now : Instant) (channel : Nat) (c : Call σ)
    (ls : List Loopback) : List Loopback :=
  let connected := (ls.modify channel
    (record (sentSince c.session (c.session.bind p now channel)))).modify channel .connect
  if c.binding.isSome && c.session.channel ≠ channel then
    connected.modify c.session.channel .disconnect
  else connected

/-- A call changes, and its new deeds take effect. -/
theorem onCall_world {f : Party σ → Call σ → Option (Call σ)} (hf : f p c = some c') :
    (world now ls p c).onCall 0 f = some (((c'.session.log.drop c.session.log.length).map
      (·.2)).foldl World.perform (world now ls p c')) := by
  simp [World.onCall, world, hf]

theorem act_bind (now : Instant) (ls : List Loopback) (p : Party σ) (c : Call σ) (channel : Nat) :
    act (world now ls p c) (.bind channel) =
      world now (channelsBound p now channel c ls) p (c.bind p now channel) := by
  have haddressed : Addressed { c.session with channel } (c.session.bind p now channel) :=
    addressed_bind c.session channel
  obtain ⟨entries, hlog, hentries⟩ := haddressed.deeds
  have hlog' : (c.session.bind p now channel).log = c.session.log ++ entries := hlog
  have hsince : sentSince c.session (c.session.bind p now channel) =
      entries.filterMap fun x => x.2.message? := by
    rw [sentSince, hlog', List.drop_left]
  have hact : act (world now ls p c) (.bind channel) =
      ((((c.bind p now channel).session.log.drop c.session.log.length).map (·.2)).foldl
        World.perform (world now ls p (c.bind p now channel))) := by
    rw [act, World.bind, World.tell, onCall_world rfl]
    rfl
  rw [hact, channelsBound, hsince]
  by_cases hother : (c.binding.isSome && c.session.channel ≠ channel) = true
  · have hbound : (c.bind p now channel).session.log = c.session.log ++ (entries ++
        [((c.session.bind p now channel).stage, .connect channel),
          ((c.session.bind p now channel).stage, .disconnect c.session.channel)]) := by
      rw [← List.append_assoc, ← hlog']
      simp only [Call.bind, hother, if_true]
      exact List.append_assoc _ _ _
    rw [if_pos hother, hbound, List.drop_left, List.map_append, List.foldl_append,
      foldl_perform_world hentries]
    rfl
  · have hbound : (c.bind p now channel).session.log = c.session.log ++ (entries ++
        [((c.session.bind p now channel).stage, .connect channel)]) := by
      rw [← List.append_assoc, ← hlog']
      simp only [Call.bind, hother]
      rfl
    rw [if_neg hother, hbound, List.drop_left, List.map_append, List.foldl_append,
      foldl_perform_world hentries]
    rfl

theorem sent_channelsBound (p : Party σ) (now : Instant) (channel : Nat) (c : Call σ)
    (ls : List Loopback) : (channelsBound p now channel c ls).map (·.sent) =
      (ls.map (·.sent)).modify channel
        (· ++ sentSince c.session (c.session.bind p now channel)) := by
  have hconnect := sent_modify (f := Loopback.connect) (sent_setState .connected)
  simp only [channelsBound]
  split
  · rw [sent_modify sent_disconnect, hconnect, sent_record]
  · rw [hconnect, sent_record]

/-- The channel is connected, if there is one. -/
theorem value_channelsBound (p : Party σ) (now : Instant) (channel : Nat) (c : Call σ)
    (ls : List Loopback) : (stateOf channel (channelsBound p now channel c ls)).value =
      if channel < ls.length then .connected else .idle := by
  have hconnected : (stateOf channel ((ls.modify channel
      (record (sentSince c.session (c.session.bind p now channel)))).modify channel
        .connect)).value = if channel < ls.length then .connected else .idle := by
    rw [value_stateOf_connect, List.length_modify]
  simp only [channelsBound]
  split
  · rename_i hother
    rw [Bool.and_eq_true, decide_eq_true_eq] at hother
    rw [stateOf_modify_ne hother.2, hconnected]
  · exact hconnected

theorem channel_bind (p : Party σ) (now : Instant) (channel : Nat) (c : Call σ) :
    (c.bind p now channel).session.channel = channel := by
  have hchannel : (c.session.bind p now channel).channel = channel :=
    (addressed_bind c.session channel).channel
  simp only [Call.bind]
  split <;> exact hchannel

/-- What hanging up makes of the channels. -/
def channelsHungUp (p : Party σ) (c : Call σ) (ls : List Loopback) : List Loopback :=
  if c.binding.isSome then
    (ls.modify c.session.channel (record [⟨p.sender, .bye⟩])).modify c.session.channel .disconnect
  else ls

theorem act_hangUp (now : Instant) (ls : List Loopback) (p : Party σ) (c : Call σ) :
    act (world now ls p c) .hangUp = world now (channelsHungUp p c ls) p (c.hangUp p) := by
  have hact : act (world now ls p c) .hangUp =
      ((((c.hangUp p).session.log.drop c.session.log.length).map (·.2)).foldl
        World.perform (world now ls p (c.hangUp p))) := by
    rw [act, World.hangUp, World.tell, onCall_world rfl]
    rfl
  rw [hact, channelsHungUp]
  cases hbinding : c.binding with
  | none =>
      have hlog : (c.hangUp p).session.log =
          c.session.log ++ [(c.session.stage, .engine .close)] := by
        simp only [Call.hangUp, hbinding]
        rfl
      rw [hlog, List.drop_left]
      rfl
  | some b =>
      have hlog : (c.hangUp p).session.log = c.session.log ++
          [(c.session.stage, .send c.session.channel false ⟨p.sender, .bye⟩),
            (c.session.stage, .disconnect c.session.channel),
            (c.session.stage, .engine .close)] := by
        calc (c.hangUp p).session.log
            = c.session.log ++
                [(c.session.stage, .send c.session.channel false ⟨p.sender, .bye⟩)] ++
                [(c.session.stage, .disconnect c.session.channel)] ++
                [(c.session.stage, .engine .close)] := by
              simp only [Call.hangUp, hbinding]
              rfl
          _ = _ := by simp
      rw [hlog, List.drop_left]
      simp [World.perform, World.carry, World.onChannel, world]
      rfl

/-- What taking something up makes of channels and call. -/
theorem act_turn (now : Instant) (ls : List Loopback) (p : Party σ) (c : Call σ)
    (errand : Errand) : act (world now ls p c) (.turn errand) =
      match c.take? p now (stateOf c.session.channel ls) errand with
      | none => world now ls p c
      | some (_, c') => world now
          (ls.modify c.session.channel (record (sentSince c.session c'.session))) p c' := by
  have hcall : (world now ls p c).calls[0]? = some (p, c) := rfl
  have hstate : (world now ls p c).channelState c.session.channel = stateOf c.session.channel ls :=
    rfl
  have hnow : (world now ls p c).now = now := rfl
  simp only [act, World.take?, hcall, hstate, hnow, Option.bind_eq_bind, Option.bind_some]
  cases htake : c.take? p now (stateOf c.session.channel ls) errand with
  | none => rfl
  | some taken =>
      obtain ⟨e, c'⟩ := taken
      obtain ⟨entries, hlog, hentries⟩ := (Call.addressed_take htake).deeds
      have hcall' : (world now ls p c).onCall 0 (fun _ _ => some c') = _ := onCall_world rfl
      rw [hlog, List.drop_left, foldl_perform_world hentries] at hcall'
      simp only [Option.bind_some, hcall', sentSince, hlog, List.drop_left]
      rfl

theorem act_chat (now : Instant) (ls : List Loopback) (p : Party σ) (c : Call σ) (text : String) :
    act (world now ls p c) (.chat text) = world now ls p (c.chat text) := by
  have hlog : (c.chat text).session.log.drop c.session.log.length = [] := List.drop_length
  rw [act, World.tell, onCall_world rfl, hlog]
  rfl

end Alone

end PeerCall.Rehearsal
