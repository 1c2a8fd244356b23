import PeerCall.Proofs.Handshake.Addressing
import PeerCall.Proofs.Handshake.Speaking
import PeerCall.Rehearsal.Duet

/-!
# A turn of one side of a duet

A session may take up whatever waits for it first; the order in which a call looks is one of many.

The world of a duet is told from one side, which is near, to the other one, which is far. When the
near side takes a turn, what it sends is kept in the record of its channel and, if both ends are
connected and the far side is bound, waits there in the same order. Binding connects the channel of
the near side. Nothing else changes.
-/
namespace PeerCall.Handshake

variable {σ : Type}

/-! ## What can be taken up -/

/-- The kinds of things that wait for a session, in the order in which a call looks for them. -/
inductive Errand
  | channel
  | message
  | engine
  | candidate
  | chat
  | watchdog
  deriving DecidableEq

/-- All of them. -/
def Errand.all : List Errand := [.channel, .message, .engine, .candidate, .chat, .watchdog]

section
variable (p : Party σ) (now : Instant) (channel : Watched ChannelState)

/-- The event of a kind that waits for a session, and what waits behind it. -/
def Binding.take? (s : Session σ) (b : Binding) : Errand → Option (Event × Binding)
  | .channel =>
    if channel.changedSince b.channelSeen then
      some (.channel channel.value, { b with channelSeen := channel.version })
    else none
  | .message => match b.messages.waiting with
    | m :: rest =>
      some (.message m, { b with messages := { b.messages with waiting := rest, lost := 0 } })
    | [] => none
  | .engine =>
    let report := p.engine.report s.media
    if report.changedSince b.engineSeen then
      some (.engine report.value, { b with engineSeen := report.version })
    else none
  | .candidate =>
    (waitingCandidate? p.engine.gatheredCapacity b.candidatesSeen (p.engine.gathered s.media)).map
      fun (c, seen) => (.candidate c, { b with candidatesSeen := seen })
  | .chat => match b.chats with
    | text :: chats => some (.chat text, { b with chats })
    | [] => none
  | .watchdog => if s.watchdog.any (· ≤ now) then some (.watchdog, b) else none

/-- A turn of a call that takes up a thing of some kind, with the event; its first look is none. -/
def Call.take? (errand : Errand) (c : Call σ) : Option (Option Event × Call σ) := do
  let b ← c.binding
  if b.started then
    let (e, b) ← b.take? p now channel c.session errand
    pure (some e, ⟨c.session.handle p now e, some b⟩)
  else pure (none, firstLook p now channel b c.session)

theorem Binding.next?_eq (s : Session σ) (b : Binding) :
    b.next? p now channel s = Errand.all.findSome? (b.take? p now channel s) := by
  simp only [Binding.next?, Errand.all, List.findSome?_cons, List.findSome?_nil, Binding.take?]
  by_cases hchannel : channel.changedSince b.channelSeen = true
  · simp only [hchannel, if_true]
  simp only [hchannel, Bool.false_eq_true, if_false]
  cases b.messages.waiting with
  | cons m rest => rfl
  | nil =>
      dsimp only
      split
      · rfl
      cases waitingCandidate? p.engine.gatheredCapacity b.candidatesSeen
          (p.engine.gathered s.media) with
      | some found => rfl
      | none =>
          cases b.chats with
          | cons text chats => rfl
          | nil =>
              dsimp only [Option.map_none]
              split <;> rfl

/-- **A call that runs takes the first of the turns that it can take.** -/
theorem Call.turn?_eq (c : Call σ) : c.turn? p now channel =
    Errand.all.findSome? fun errand => (c.take? p now channel errand).map (·.2) := by
  obtain ⟨session, binding⟩ := c
  cases binding with
  | none => rfl
  | some b =>
      by_cases hstarted : b.started = true
      · have hturn : ∀ found : Option (Event × Binding),
            (found.bind fun x => some (⟨session.handle p now x.1, some x.2⟩ : Call σ)) =
              found.map fun x => ⟨session.handle p now x.1, some x.2⟩ :=
          fun found => by cases found <;> rfl
        have htake : ∀ found : Option (Event × Binding),
            (found.bind fun x => some (some x.1,
              (⟨session.handle p now x.1, some x.2⟩ : Call σ))).map (·.2) =
              found.map fun x => ⟨session.handle p now x.1, some x.2⟩ :=
          fun found => by cases found <;> rfl
        simp only [Call.turn?, Call.take?, Option.bind_eq_bind, Option.bind_some, hstarted,
          if_true, Binding.next?_eq, Option.pure_def, hturn, htake, List.map_findSome?]
        rfl
      · simp only [Call.turn?, Call.take?, Option.bind_eq_bind, Option.bind_some, hstarted,
          Bool.false_eq_true, if_false]
        rfl

/-- **A turn of a call keeps to its channel.** -/
theorem Call.addressed_take {p : Party σ} {now : Instant} {channel : Watched ChannelState}
    {errand : Errand} {c c' : Call σ} {e : Option Event}
    (h : c.take? p now channel errand = some (e, c')) : Addressed c.session c'.session := by
  obtain ⟨session, binding⟩ := c
  cases binding with
  | none => cases h
  | some b =>
      simp only [Call.take?, Option.bind_eq_bind, Option.bind_some] at h
      split at h
      · obtain ⟨⟨e, b'⟩, -, h⟩ := Option.bind_eq_some_iff.mp h
        cases h
        exact addressed_handle session e
      · cases h
        exact addressed_firstLook channel b session

end

end PeerCall.Handshake

namespace PeerCall.Handshake.Call

variable {σ : Type} {c : Call σ} {b : Binding} {ms : List Message}

/-- Messages arrive one by one. -/
def hear (ms : List Message) (c : Call σ) : Call σ := ms.foldl (fun c m => c.arrive [m]) c

theorem hear_cons (m : Message) (ms : List Message) (c : Call σ) :
    c.hear (m :: ms) = (c.arrive [m]).hear ms := rfl

@[simp] theorem session_hear (ms : List Message) (c : Call σ) :
    (c.hear ms).session = c.session := by
  induction ms generalizing c with
  | nil => rfl
  | cons m ms ih => exact ih (c.arrive [m])

@[simp] theorem isBoundTo_arrive (channel : Nat) (ms : List Message) (c : Call σ) :
    (c.arrive ms).isBoundTo channel = c.isBoundTo channel := by
  obtain ⟨session, binding⟩ := c
  cases binding <;> rfl

/-- Messages that there is room for wait behind the others. -/
theorem binding_hear (h : c.binding = some b)
    (hroom : b.messages.waiting.length + ms.length ≤ b.messages.capacity) :
    (c.hear ms).binding = some { b with messages :=
      { b.messages with waiting := b.messages.waiting ++ ms } } := by
  induction ms generalizing c b with
  | nil =>
      rw [List.append_nil]
      exact h
  | cons m ms ih =>
      rw [List.length_cons] at hroom
      let b' : Binding := { b with messages :=
        { b.messages with waiting := b.messages.waiting ++ [m] } }
      have harrive : (c.arrive [m]).binding = some b' := by
        have hexcess : b.messages.waiting.length + 1 - b.messages.capacity = 0 := by omega
        simp only [arrive, h, Option.map_some, Inbox.append, List.length_append, List.length_cons,
          List.length_nil, Nat.zero_add, hexcess, List.drop_zero, Nat.add_zero, b']
      have hlater := ih harrive (by
        simp only [b', List.length_append, List.length_cons, List.length_nil]
        omega)
      refine hlater.trans ?_
      simp only [b', List.append_assoc, List.singleton_append]

end PeerCall.Handshake.Call

namespace PeerCall.Rehearsal

open Handshake

namespace World

variable {σ : Type} {w : World σ}

/-- A turn of a call that takes up a thing of some kind, with the event. -/
def take? (i : Nat) (errand : Errand) (w : World σ) : Option (Option Event × World σ) := do
  let (p, c) ← w.calls[i]?
  let (e, after) ← c.take? p w.now (w.channelState c.session.channel) errand
  let w ← w.onCall i fun _ _ => some after
  pure (e, w)

/-- Deeds that keep to a channel pass their messages to it, and do nothing else in the world. -/
theorem foldl_perform {channel : Nat} {entries : List (Stage × Deed)}
    (h : ∀ x ∈ entries, x.2.KeepsTo channel) :
    (entries.map (·.2)).foldl perform w =
      (entries.filterMap fun x => x.2.message?).foldl (fun w m => w.carry channel m) w := by
  induction entries generalizing w with
  | nil => rfl
  | cons x entries ih =>
      obtain ⟨stage, d⟩ := x
      have hd : d.KeepsTo channel := h (stage, d) (List.mem_cons_self ..)
      have hrest := ih (w := w.perform d) fun x hx => h x (List.mem_cons_of_mem _ hx)
      rw [List.map_cons, List.foldl_cons, hrest]
      cases d with
      | engine call => rfl
      | notice n => rfl
      | connect c => exact absurd hd id
      | disconnect c => exact absurd hd id
      | send c everywhere m =>
          cases hd
          rfl

end World

namespace Duet

variable {p q : Party Probe} {c c' d : Call Probe} {now : Instant} {a b : Loopback}

/-- The number of a side. -/
def number : Role → Nat
  | .host => 0
  | .joiner => 1

/-- The other side. -/
def facing : Role → Role
  | .host => .joiner
  | .joiner => .host

/-- The world of a duet, with the channel and the call of one side in front. -/
def world (near : Role) (now : Instant) (a b : Loopback) (x y : Party Probe × Call Probe) :
    World Probe :=
  match near with
  | .host => ⟨now, [a, b], far, true, [x, y]⟩
  | .joiner => ⟨now, [b, a], far, true, [y, x]⟩

/-- A side is not bound to the channel of the other one. -/
theorem isBoundTo_facing {near : Role} (h : c.session.channel = number near) :
    c.isBoundTo (number (facing near)) = false := by
  have hne : c.session.channel ≠ number (facing near) := by
    rw [h]
    cases near <;> decide
  rw [Call.isBoundTo, decide_eq_false hne, Bool.and_false]

/-- A message of the near side reaches the far one while both ends are connected. -/
theorem carry_world {near : Role} (hnear : c.session.channel = number near) (m : Message) :
    (world near now a b (p, c) (q, d)).carry (number near) m =
      world near now (a.record m) b (p, c) (q,
        if a.reaches (some b) && d.isBoundTo (number (facing near)) then d.arrive [m]
        else d) := by
  have hown := isBoundTo_facing hnear
  cases near with
  | host =>
      cases hreaches : a.reaches (some b) with
      | true =>
          simp only [number, facing] at hown
          simp [World.carry, World.onChannel, World.arrive, world, far, number, facing, hreaches,
            hown]
      | false => simp [World.carry, World.onChannel, world, far, number, hreaches]
  | joiner =>
      cases hreaches : a.reaches (some b) with
      | true =>
          simp only [number, facing] at hown
          simp [World.carry, World.onChannel, World.arrive, world, far, number, facing, hreaches,
            hown]
      | false => simp [World.carry, World.onChannel, world, far, number, hreaches]

theorem foldl_carry {near : Role} (hnear : c.session.channel = number near) (ms : List Message) :
    ms.foldl (fun w m => w.carry (number near) m) (world near now a b (p, c) (q, d)) =
      world near now { a with sent := a.sent ++ ms } b (p, c)
        (q, if a.reaches (some b) && d.isBoundTo (number (facing near)) then d.hear ms else d) := by
  induction ms generalizing a d with
  | nil => simp only [List.foldl_nil, List.append_nil, Call.hear, ite_self]
  | cons m ms ih =>
      have hreaches : (a.record m).reaches (some b) = a.reaches (some b) := rfl
      have hsent : { a.record m with sent := (a.record m).sent ++ ms } =
          { a with sent := a.sent ++ m :: ms } := by
        simp only [Loopback.record, List.append_assoc, List.singleton_append]
      rw [List.foldl_cons, carry_world hnear, ih, hreaches, hsent]
      split
      · rename_i hlinked
        rw [Call.isBoundTo_arrive, if_pos hlinked, Call.hear_cons]
      · rfl

/-- **A turn of the near side.** -/
theorem take_world {near : Role} {errand : Errand} (hnear : c.session.channel = number near) :
    (world near now a b (p, c) (q, d)).take? (number near) errand =
      (c.take? p now a.state errand).map fun (e, c') =>
        let ms := (c'.session.log.drop c.session.log.length).filterMap fun x => x.2.message?
        (e, world near now { a with sent := a.sent ++ ms } b (p, c')
          (q, if a.reaches (some b) && d.isBoundTo (number (facing near)) then d.hear ms
            else d)) := by
  have hcall : (world near now a b (p, c) (q, d)).calls[number near]? = some (p, c) := by
    cases near <;> rfl
  have hstate : (world near now a b (p, c) (q, d)).channelState c.session.channel = a.state := by
    rw [hnear]
    cases near <;> rfl
  have hnow : (world near now a b (p, c) (q, d)).now = now := by cases near <;> rfl
  cases htake : c.take? p now a.state errand with
  | none =>
      simp only [World.take?, hcall, hstate, hnow, htake, Option.bind_eq_bind, Option.bind_some,
        Option.bind_none, Option.map_none]
  | some taken =>
      obtain ⟨e, c'⟩ := taken
      have haddressed := Call.addressed_take htake
      obtain ⟨entries, hlog, hentries⟩ := haddressed.deeds
      have hnear' : c'.session.channel = number near := haddressed.channel.trans hnear
      rw [hnear] at hentries
      simp only [World.take?, World.onCall, hcall, hstate, hnow, htake, Option.bind_eq_bind,
        Option.bind_some, Option.map_some, hlog, List.drop_left]
      rw [World.foldl_perform hentries]
      refine congrArg (fun w => some (e, w)) ?_
      cases near with
      | host => exact foldl_carry hnear' _
      | joiner => exact foldl_carry hnear' _

/-- Nothing waits for the near side of a world where nothing waits for its call. -/
theorem turn_of_world {near : Role} (hnear : c.session.channel = number near)
    (h : (world near now a b (p, c) (q, d)).turn? (number near) = none) :
    c.turn? p now a.state = none := by
  have hcall : (world near now a b (p, c) (q, d)).calls[number near]? = some (p, c) := by
    cases near <;> rfl
  have hstate : (world near now a b (p, c) (q, d)).channelState c.session.channel = a.state := by
    rw [hnear]
    cases near <;> rfl
  have hnow : (world near now a b (p, c) (q, d)).now = now := by cases near <;> rfl
  cases hturn : c.turn? p now a.state with
  | none => rfl
  | some c' =>
      simp only [World.turn?, World.onCall, hcall, hstate, hnow, hturn, Option.bind_eq_bind,
        Option.bind_some] at h
      cases h

/-- **Binding the near side.** Its channel connects; what setting the media up does stays inside. -/
theorem bind_world {near : Role} (hfree : c.binding = none)
    (hsilent : (c.session.bind p now (number near)).sent = c.session.sent) :
    (world near now a b (p, c) (q, d)).bind (number near) (number near) =
      world near now a.connect b (p, c.bind p now (number near)) (q, d) := by
  have haddressed : Addressed { c.session with channel := number near }
      (c.session.bind p now (number near)) := addressed_bind c.session (number near)
  obtain ⟨entries, hlog, hentries⟩ := haddressed.deeds
  have hlog' : (c.session.bind p now (number near)).log = c.session.log ++ entries := hlog
  have hmessages : entries.filterMap (fun x => x.2.message?) = [] := by
    rw [Session.sent, hlog', List.filterMap_append] at hsilent
    exact List.append_right_eq_self.mp hsilent
  have hbound : (c.bind p now (number near)).session.log = c.session.log ++
      (entries ++ [((c.session.bind p now (number near)).stage, .connect (number near))]) := by
    rw [← List.append_assoc, ← hlog']
    simp only [Call.bind, hfree, Option.isSome_none, Bool.false_and, Bool.false_eq_true, if_false]
    rfl
  have hcall : (world near now a b (p, c) (q, d)).calls[number near]? = some (p, c) := by
    cases near <;> rfl
  have hnow : (world near now a b (p, c) (q, d)).now = now := by cases near <;> rfl
  simp only [World.bind, World.tell, World.onCall, hcall, hnow, Option.bind_eq_bind,
    Option.bind_some, hbound, List.drop_left, List.map_append, List.foldl_append]
  rw [World.foldl_perform hentries, hmessages]
  cases near <;> rfl

end Duet

end PeerCall.Rehearsal
