import PeerCall.Proofs.Handshake.Watchdog
import PeerCall.Proofs.Rehearsal.Alone

/-!
# Only the bound channel matters

A call is bound to one channel after another, or hangs up, over channels that lead nowhere. What
happens on a channel while it is not bound is lost on the call: the same run without it goes the
same way, with the same stages, deeds and messages. Only how often a channel has reported a state
may differ, and no session asks for more than whether there is news since its first look.
-/
namespace PeerCall.Rehearsal

open Handshake

namespace Alone

variable {σ : Type} {p : Party σ} {c c' : Call σ} {now : Instant} {ls ls' : List Loopback}
  {channel : Nat}

/-- The channel that is bound. -/
def boundTo? (w : World σ) : Option Nat := do
  let (_, c) ← w.calls[0]?
  if c.binding.isSome then some c.session.channel else none

/-- All that was passed to each of the channels. -/
def sent (w : World σ) : List (List Message) := w.channels.map (·.sent)

/-- Whether an act is traffic on a channel that is not bound. -/
def isElsewhere (w : World σ) : Act σ → Bool
  | .arrive channel _ | .set channel _ => boundTo? w ≠ some channel
  | _ => false

/-- Acts without the traffic on channels that are not bound at that moment. -/
def pruned : World σ → List (Act σ) → List (Act σ)
  | _, [] => []
  | w, a :: acts => if isElsewhere w a then pruned (act w a) acts else a :: pruned (act w a) acts

/-! ## Runs that differ elsewhere -/

/-- What two bindings know of the states of their channels: these are the same, and once a session
has taken its first look there have been as many news since the last one. -/
inductive SameNews (l l' : Watched ChannelState) : Option Binding → Option Binding → Prop
  | unbound : SameNews l l' none none
  | bound {b : Binding} {seen' : Nat} (value : l'.value = l.value)
      (news : b.started = true → ∃ k, l.version = b.channelSeen + k ∧ l'.version = seen' + k) :
      SameNews l l' (some b) (some { b with channelSeen := seen' })

/-- Two calls are the same but for what has happened to channels that they are not bound to. -/
structure Alike (ls ls' : List Loopback) (c c' : Call σ) : Prop where
  session : c'.session = c.session
  sent : ls'.map (·.sent) = ls.map (·.sent)
  news : SameNews (stateOf c.session.channel ls) (stateOf c.session.channel ls') c.binding
    c'.binding

variable {l l' : Watched ChannelState} {b b' : Option Binding} {errand : Errand}

namespace SameNews

theorem isSome_eq (h : SameNews l l' b b') : b'.isSome = b.isSome := by
  cases h <;> rfl

/-- Before its first look a session has seen nothing. -/
theorem of_not_started {b : Binding} (value : l'.value = l.value) (hstarted : b.started = false) :
    SameNews l l' (some b) (some b) := by
  have hbound : SameNews l l' (some b) (some { b with channelSeen := b.channelSeen }) := by
    refine bound value fun h => ?_
    rw [hstarted] at h
    cases h
  exact hbound

/-- The channel reports a state. -/
theorem set (h : SameNews l l' b b') (state : ChannelState) :
    SameNews (l.set state) (l'.set state) b b' := by
  cases h with
  | unbound => exact unbound
  | bound value news =>
      rw [Watched.set, Watched.set, value]
      by_cases hsame : l.value = state
      · rw [if_pos hsame, if_pos hsame]
        exact bound value news
      · rw [if_neg hsame, if_neg hsame]
        refine bound rfl fun hstarted => ?_
        obtain ⟨k, hl, hl'⟩ := news hstarted
        exact ⟨k + 1, by simp [Watched.publish, hl, Nat.add_assoc],
          by simp [Watched.publish, hl', Nat.add_assoc]⟩

/-- What waits with a binding beside news of the channel may change. -/
theorem map (h : SameNews l l' b b') {f : Binding → Binding}
    (hstarted : ∀ b, (f b).started = b.started) (hseen : ∀ b, (f b).channelSeen = b.channelSeen)
    (hf : ∀ b seen, f { b with channelSeen := seen } = { f b with channelSeen := seen }) :
    SameNews l l' (b.map f) (b'.map f) := by
  cases h with
  | unbound => exact unbound
  | bound value news =>
      rename_i b seen'
      have hboth := hf b seen'
      rw [Option.map_some, Option.map_some, hboth]
      refine bound value ?_
      rw [hstarted, hseen]
      exact news

/-- The same is taken up. -/
theorem take (h : SameNews l l' b b') (p : Party σ) (now : Instant) (s : Session σ)
    (errand : Errand) :
    (Call.take? p now l errand ⟨s, b⟩ = none ∧ Call.take? p now l' errand ⟨s, b'⟩ = none) ∨
      ∃ e s' d d', Call.take? p now l errand ⟨s, b⟩ = some (e, ⟨s', d⟩) ∧
        Call.take? p now l' errand ⟨s, b'⟩ = some (e, ⟨s', d'⟩) ∧ SameNews l l' d d' := by
  cases h with
  | unbound => exact Or.inl ⟨rfl, rfl⟩
  | @bound b seen' value news =>
      obtain ⟨started, seen, engineSeen, candidatesSeen, messages, chats⟩ := b
      cases started with
      | false =>
          right
          simp only [Call.take?, Option.bind_eq_bind, Option.bind_some, Bool.false_eq_true,
            if_false, Call.firstLook, value]
          exact ⟨_, _, _, _, rfl, rfl, bound value fun _ => ⟨0, rfl, rfl⟩⟩
      | true =>
          obtain ⟨k, hl, hl'⟩ := news rfl
          have hchanged : l'.changedSince seen' = l.changedSince seen := by
            have hiff : l'.version = seen' ↔ l.version = seen := by
              dsimp only at hl
              omega
            rw [Bool.eq_iff_iff]
            simp [Watched.changedSince, hiff]
          -- Whatever is taken up but news of the channel leaves these as they are.
          have hkept : ∀ {engineSeen candidatesSeen messages chats},
              SameNews l l' (some ⟨true, seen, engineSeen, candidatesSeen, messages, chats⟩)
                (some ⟨true, seen', engineSeen, candidatesSeen, messages, chats⟩) :=
            bound value fun _ => ⟨k, hl, hl'⟩
          simp only [Call.take?, Option.bind_eq_bind, Option.bind_some, if_true]
          cases errand with
          | channel =>
              simp only [Binding.take?, hchanged, value]
              split
              · exact Or.inr ⟨_, _, _, _, rfl, rfl, bound value fun _ => ⟨0, rfl, rfl⟩⟩
              · exact Or.inl ⟨rfl, rfl⟩
          | message =>
              obtain ⟨capacity, waiting, lost⟩ := messages
              cases waiting with
              | nil => exact Or.inl ⟨rfl, rfl⟩
              | cons m rest => exact Or.inr ⟨_, _, _, _, rfl, rfl, hkept⟩
          | engine =>
              simp only [Binding.take?]
              split
              · exact Or.inr ⟨_, _, _, _, rfl, rfl, hkept⟩
              · exact Or.inl ⟨rfl, rfl⟩
          | candidate =>
              simp only [Binding.take?]
              cases waitingCandidate? p.engine.gatheredCapacity candidatesSeen
                  (p.engine.gathered s.media) with
              | none => exact Or.inl ⟨rfl, rfl⟩
              | some found => exact Or.inr ⟨_, _, _, _, rfl, rfl, hkept⟩
          | chat =>
              cases chats with
              | nil => exact Or.inl ⟨rfl, rfl⟩
              | cons text chats => exact Or.inr ⟨_, _, _, _, rfl, rfl, hkept⟩
          | watchdog =>
              simp only [Binding.take?]
              split
              · exact Or.inr ⟨_, _, _, _, rfl, rfl, hkept⟩
              · exact Or.inl ⟨rfl, rfl⟩

end SameNews

namespace Alike

/-- A session acts: it keeps to its channel, and what it sends is kept there. -/
theorem acted (h : Alike ls ls' c c') {s : Session σ} {b b' : Option Binding}
    (hchannel : s.channel = c.session.channel) (ms : List Message)
    (hnews : SameNews (stateOf c.session.channel ls) (stateOf c.session.channel ls') b b') :
    Alike (ls.modify c.session.channel (record ms)) (ls'.modify c.session.channel (record ms))
      ⟨s, b⟩ ⟨s, b'⟩ := by
  refine ⟨rfl, ?_, ?_⟩
  · rw [sent_record, sent_record, h.sent]
  · rw [hchannel, stateOf_record, stateOf_record]
    exact hnews

theorem length_eq (h : Alike ls ls' c c') : ls'.length = ls.length := by
  simpa using congrArg List.length h.sent

/-- The call is bound to a channel. -/
theorem bind (h : Alike ls ls' c c') (p : Party σ) (now : Instant) (channel : Nat) :
    Alike (channelsBound p now channel c ls) (channelsBound p now channel c' ls')
      (c.bind p now channel) (c'.bind p now channel) := by
  have hsame : c'.bind p now channel = c.bind p now channel := by
    simp only [Call.bind, h.session, h.news.isSome_eq]
  have hvalue : (stateOf channel (channelsBound p now channel c' ls')).value =
      (stateOf channel (channelsBound p now channel c ls)).value := by
    rw [value_channelsBound, value_channelsBound, h.length_eq]
  rw [hsame]
  refine ⟨rfl, ?_, ?_⟩
  · rw [sent_channelsBound, sent_channelsBound, h.session, h.sent]
  · rw [channel_bind]
    exact SameNews.of_not_started hvalue rfl

/-- The call hangs up. -/
theorem hangUp (h : Alike ls ls' c c') (p : Party σ) :
    Alike (channelsHungUp p c ls) (channelsHungUp p c' ls') (c.hangUp p) (c'.hangUp p) := by
  have hsame : c'.hangUp p = c.hangUp p := by
    simp only [Call.hangUp, h.session, h.news.isSome_eq]
  rw [hsame]
  refine ⟨rfl, ?_, SameNews.unbound⟩
  · simp only [channelsHungUp, h.session, h.news.isSome_eq]
    split
    · rw [sent_modify sent_disconnect, sent_modify sent_disconnect, sent_record, sent_record,
        h.sent]
    · exact h.sent

/-- A channel reports a state to both. -/
theorem set (h : Alike ls ls' c c') (channel : Nat) (state : ChannelState) :
    Alike (ls.modify channel (.setState state)) (ls'.modify channel (.setState state)) c c' := by
  refine ⟨h.session, ?_, ?_⟩
  · rw [sent_modify (sent_setState state), sent_modify (sent_setState state), h.sent]
  · by_cases hchannel : channel = c.session.channel
    · subst hchannel
      rcases Nat.lt_or_ge c.session.channel ls.length with hlt | hge
      · rw [stateOf_setState hlt, stateOf_setState (h.length_eq ▸ hlt)]
        exact h.news.set state
      · rw [List.modify_eq_self hge, List.modify_eq_self (h.length_eq ▸ hge)]
        exact h.news
    · rw [stateOf_modify_ne hchannel, stateOf_modify_ne hchannel]
      exact h.news

/-- A channel that the call is not bound to reports a state. -/
theorem set_elsewhere (h : Alike ls ls' c c') (state : ChannelState)
    (helse : c.isBoundTo channel = false) :
    Alike (ls.modify channel (.setState state)) ls' c c' := by
  refine ⟨h.session, ?_, ?_⟩
  · rw [sent_modify (sent_setState state), h.sent]
  · have hnews := h.news
    obtain ⟨session, binding⟩ := c
    cases binding with
    | none =>
        generalize c'.binding = b' at hnews
        cases hnews
        exact SameNews.unbound
    | some b =>
        have hne : channel ≠ session.channel := by
          rintro rfl
          simp [Call.isBoundTo] at helse
        rw [stateOf_modify_ne hne]
        exact hnews

end Alike

/-- Two worlds with the same call, but for what has happened to channels that it is not bound to. -/
inductive Twins (p : Party σ) : World σ → World σ → Prop
  | intro {now : Instant} {ls ls' : List Loopback} {c c' : Call σ} (alike : Alike ls ls' c c') :
      Twins p (world now ls p c) (world now ls' p c')

theorem boundTo?_world (now : Instant) (ls : List Loopback) (p : Party σ) (c : Call σ) :
    boundTo? (world now ls p c) = if c.binding.isSome then some c.session.channel else none := rfl

theorem isBoundTo_of_elsewhere (h : decide (boundTo? (world now ls p c) ≠ some channel) = true) :
    c.isBoundTo channel = false := by
  rw [boundTo?_world] at h
  cases hbound : c.binding.isSome with
  | false => rw [Call.isBoundTo, hbound, Bool.false_and]
  | true =>
      rw [hbound] at h
      simpa [Call.isBoundTo, hbound] using h

namespace Twins

variable {w w' : World σ}

/-- The same act on both. -/
theorem act (h : Twins p w w') (a : Act σ) : Twins p (act w a) (act w' a) := by
  obtain ⟨h⟩ := h
  rename_i now ls ls' c c'
  cases a with
  | bind channel =>
      rw [act_bind, act_bind]
      exact intro (h.bind p now channel)
  | hangUp =>
      rw [act_hangUp, act_hangUp]
      exact intro (h.hangUp p)
  | arrive channel ms =>
      have hbound : c'.isBoundTo channel = c.isBoundTo channel := by
        rw [Call.isBoundTo, h.news.isSome_eq, h.session, Call.isBoundTo]
      have hact : ∀ ls (c : Call σ), Alone.act (world now ls p c) (.arrive channel ms) =
          world now ls p (if c.isBoundTo channel then c.arrive ms else c) := fun _ _ => rfl
      rw [hact, hact, hbound]
      split
      · have hnews := h.news.map (f := fun b => { b with messages := b.messages.append ms })
          (fun _ => rfl) (fun _ => rfl) fun _ _ => rfl
        exact intro ⟨h.session, h.sent, hnews⟩
      · exact intro h
  | set channel state => exact intro (h.set channel state)
  | turn errand =>
      obtain ⟨session, b⟩ := c
      obtain ⟨session', b'⟩ := c'
      obtain rfl : session' = session := h.session
      rw [act_turn, act_turn]
      rcases h.news.take p now session' errand with
        ⟨hnone, hnone'⟩ | ⟨e, s, d, d', htake, htake', hnews⟩
      · rw [hnone, hnone']
        exact intro h
      · rw [htake, htake']
        exact intro (h.acted (Call.addressed_take htake).channel _ hnews)
  | chat text =>
      rw [act_chat, act_chat]
      have hnews := h.news.map (f := fun b => { b with chats := b.chats ++ [text] })
        (fun _ => rfl) (fun _ => rfl) fun _ _ => rfl
      exact intro ⟨h.session, h.sent, hnews⟩
  | engine f =>
      obtain ⟨session, b⟩ := c
      obtain ⟨session', b'⟩ := c'
      obtain rfl : session' = session := h.session
      exact intro ⟨rfl, h.sent, h.news⟩
  | wait d => exact intro h

/-- What happens elsewhere may be left out. -/
theorem act_elsewhere {a : Act σ} (h : Twins p w w') (ha : isElsewhere w a = true) :
    Twins p (Alone.act w a) w' := by
  obtain ⟨h⟩ := h
  rename_i now ls ls' c c'
  cases a with
  | arrive channel ms =>
      have hfree := isBoundTo_of_elsewhere ha
      have hact : Alone.act (world now ls p c) (.arrive channel ms) =
          world now ls p (if c.isBoundTo channel then c.arrive ms else c) := rfl
      rw [hact, hfree]
      exact intro h
  | set channel state => exact intro (h.set_elsewhere state (isBoundTo_of_elsewhere ha))
  | bind _ | hangUp | turn _ | chat _ | engine _ | wait _ => cases ha

theorem after (h : Twins p w w') (acts : List (Act σ)) :
    Twins p (Alone.after w acts) (Alone.after w' (pruned w acts)) := by
  induction acts generalizing w w' with
  | nil => exact h
  | cons a acts ih =>
      rw [pruned]
      split
      · rename_i ha
        exact ih (h.act_elsewhere ha)
      · exact ih (h.act a)

end Twins

/-! ## A call that is not bound -/

/-- What an act makes of a session whose call is not bound: to hang up closes the media engine once
more, and the engine may change by itself. -/
def rest (p : Party σ) (s : Session σ) : Act σ → Session σ
  | .hangUp => { s with
    stage := .idle
    media := p.engine.close s.media
    log := s.log ++ [(s.stage, .engine .close)] }
  | .engine f => { s with media := f s.media }
  | _ => s

end Alone

end PeerCall.Rehearsal
