import Mathlib.Data.Finset.Lattice.Fold
import Mathlib.Data.Finset.Max
import Mathlib.Data.Fintype.Card
import Mathlib.Data.List.FinRange
import PeerCall.Proofs.Handshake.Introductions
import PeerCall.Proofs.Queues

/-!
# Rooms

Several sessions on a channel that brings each message to everybody but its sender. All have
introduced themselves. The introductions arrive in any order, and whoever hears of another key than
the one it knows introduces itself anew.

Two sessions know each other's key after that, and it ends. With three or more it never does. Order
them by their last introductions: whoever spoke earlier knows the key of whoever spoke later, or
will hear it. The one that has been silent for longest would have to know the keys of all others at
once, so it will hear one.
-/
namespace PeerCall.Handshake

open Crypto

/-- Sessions that hear each other. -/
structure Room (σ : Type) (n : Nat) where
  sessions : Fin n → Session σ
  /-- The introductions on their way, each with the session that it gets to. -/
  waiting : List (Fin n × Message)
  /-- How many introductions were sent. -/
  sent : Nat

namespace Room

variable {σ : Type} {n : Nat}

/-- The key that a session knows. -/
def known (room : Room σ n) (i : Fin n) : Option PublicKey := (room.sessions i).peerKey

/-- A message on its way from one session to all others. -/
def copies (i : Fin n) (m : Message) : List (Fin n × Message) :=
  ((List.finRange n).erase i).map fun j => (j, m)

section
variable (parties : Fin n → Party σ) (now : Instant)

/-- A session reacts to an event, and the introductions that it sends are on their way. -/
def react (i : Fin n) (e : Event) (room : Room σ n) : Room σ n :=
  let words := introductions (parties i) now e (room.sessions i)
  ⟨Function.update room.sessions i ((room.sessions i).handle (parties i) now e),
    room.waiting ++ words.flatMap (copies i), room.sent + words.length⟩

/-- One of the introductions arrives. -/
def deliver (place : Nat) (room : Room σ n) : Room σ n :=
  match room.waiting[place]? with
  | none => room
  | some (i, m) =>
    react parties now i (.message m) { room with waiting := room.waiting.eraseIdx place }

/-- All sessions are told that their channel is connected, so all introduce themselves. -/
def opened (sessions : Fin n → Session σ) : Room σ n :=
  (List.finRange n).foldl (fun room i => react parties now i (.channel .connected) room)
    ⟨sessions, [], 0⟩

end

/-- The rooms that come about by so many arrivals of introductions in some order. Meanwhile anything
may happen to the sessions but that their channel connects again or that a key is told to them from
elsewhere. -/
inductive Exchange (parties : Fin n → Party σ) (sessions : Fin n → Session σ) :
    Nat → Room σ n → Prop
  | opened (now : Instant) : Exchange parties sessions 0 (opened parties now sessions)
  | deliver {k : Nat} {room : Room σ n} (now : Instant) (place : Nat)
      (h : Exchange parties sessions k room) (hplace : place < room.waiting.length) :
      Exchange parties sessions (k + 1) (room.deliver parties now place)
  | other {k : Nat} {room : Room σ n} (now : Instant) (i : Fin n) (e : Event)
      (h : Exchange parties sessions k room) (he : e ≠ .channel .connected)
      (hm : ∀ m, e = .message m → (parties i).toldKey? m = none) :
      Exchange parties sessions k (room.react parties now i e)

/-! ## What a step makes of a room -/

/-- A session comes to know a key, and sends these introductions. -/
structure Becomes (room : Room σ n) (i : Fin n) (key : Option PublicKey) (words : List Message)
    (room' : Room σ n) : Prop where
  self : room'.known i = key
  others : ∀ j, j ≠ i → room'.known j = room.known j
  waiting : room'.waiting = room.waiting ++ words.flatMap (copies i)
  sent : room'.sent = room.sent + words.length

variable {parties : Fin n → Party σ} {sessions : Fin n → Session σ} {room room' : Room σ n}
  {now : Instant} {e : Event} {i j : Fin n} {k place : Nat} {m : Message} {key : Option PublicKey}
  {words : List Message}

/-- If one session comes to know what it knows, nobody's knowledge changes. -/
theorem Becomes.known_eq (h : Becomes room i key words room') (hkey : room.known i = key) :
    room'.known = room.known := by
  funext j
  by_cases hj : j = i
  · rw [hj, h.self, hkey]
  · exact h.others j hj

theorem mem_copies {x : Fin n × Message} : x ∈ copies i m ↔ x.1 ≠ i ∧ x.2 = m := by
  rw [copies, List.mem_map]
  constructor
  · rintro ⟨j, hj, rfl⟩
    exact ⟨((List.nodup_finRange n).mem_erase_iff.mp hj).1, rfl⟩
  · rintro ⟨hne, rfl⟩
    exact ⟨x.1, (List.nodup_finRange n).mem_erase_iff.mpr ⟨hne, List.mem_finRange _⟩, rfl⟩

theorem length_copies (i : Fin n) (m : Message) : (copies i m).length = n - 1 := by
  rw [copies, List.length_map, List.length_erase_of_mem (List.mem_finRange i), List.length_finRange]

theorem becomes_react (hkey : ((room.sessions i).handle (parties i) now e).peerKey = key)
    (hwords : introductions (parties i) now e (room.sessions i) = words) :
    Becomes room i key words (room.react parties now i e) where
  self := by simp only [known, react, Function.update_self, hkey]
  others j hj := by simp only [known, react, Function.update_of_ne hj]
  waiting := by rw [react, hwords]
  sent := by rw [react, hwords]

theorem becomes_other (he : e ≠ .channel .connected)
    (hm : ∀ m, e = .message m → (parties i).toldKey? m = none) :
    Becomes room i (room.known i) [] (room.react parties now i e) :=
  have htells := tells_other he hm now (room.sessions i)
  becomes_react htells.peerKey htells.introductions_eq

theorem becomes_connected (hsealing : (parties i).config.encryptSignaling = true) :
    Becomes room i (room.known i) [(parties i).introduction]
      (room.react parties now i (.channel .connected)) :=
  have htells := tells_connected hsealing now (room.sessions i)
  becomes_react htells.peerKey htells.introductions_eq

theorem toldKey?_introduction (hne : (parties j).sender ≠ (parties i).sender) :
    (parties i).toldKey? (parties j).introduction = some (parties j).keypair.publicKey :=
  Party.toldKey?_of_read? hne rfl rfl

/-- An introduction arrives: its key is known from then on, and if it was not, the session
introduces itself. -/
theorem becomes_deliver (now : Instant)
    (hsealing : (parties i).config.encryptSignaling = true)
    (hne : (parties j).sender ≠ (parties i).sender)
    (hplace : room.waiting[place]? = some (i, (parties j).introduction)) :
    Becomes { room with waiting := room.waiting.eraseIdx place } i
      (some (parties j).keypair.publicKey)
      (if room.known i = some (parties j).keypair.publicKey then [] else [(parties i).introduction])
      (room.deliver parties now place) := by
  obtain ⟨hkey, hwords⟩ := tells_identity hsealing now (toldKey?_introduction hne) (room.sessions i)
  rw [deliver, hplace]
  exact becomes_react hkey hwords

/-- What room there is when all have introduced themselves. -/
theorem opened_spec (hsealing : ∀ i, (parties i).config.encryptSignaling = true) (now : Instant)
    (sessions : Fin n → Session σ) :
    (∀ i, (opened parties now sessions).known i = (sessions i).peerKey) ∧
      (opened parties now sessions).waiting =
        (List.finRange n).flatMap (fun i => copies i (parties i).introduction) ∧
      (opened parties now sessions).sent = n := by
  have hfold : ∀ (l : List (Fin n)) (room : Room σ n),
      let room' := l.foldl (fun room i => react parties now i (.channel .connected) room) room
      (∀ i, room'.known i = room.known i) ∧
        room'.waiting = room.waiting ++ l.flatMap (fun i => copies i (parties i).introduction) ∧
        room'.sent = room.sent + l.length := by
    intro l
    induction l with
    | nil => exact fun room => ⟨fun _ => rfl, (List.append_nil _).symm, rfl⟩
    | cons a l ih =>
        intro room
        have hfirst : Becomes room a (room.known a) [(parties a).introduction]
            (room.react parties now a (.channel .connected)) := becomes_connected (hsealing a)
        obtain ⟨hknown, hwaiting, hsent⟩ := ih (room.react parties now a (.channel .connected))
        refine ⟨fun i => ?_, ?_, ?_⟩
        · rw [List.foldl_cons, hknown, hfirst.known_eq rfl]
        · rw [List.foldl_cons, hwaiting, hfirst.waiting, List.flatMap_singleton, List.flatMap_cons,
            List.append_assoc]
        · rw [List.foldl_cons, hsent, hfirst.sent]
          simp only [List.length_cons, List.length_nil]
          omega
  obtain ⟨hknown, hwaiting, hsent⟩ := hfold (List.finRange n) ⟨sessions, [], 0⟩
  refine ⟨hknown, hwaiting, ?_⟩
  rw [List.length_finRange, Nat.zero_add] at hsent
  exact hsent

/-! ## Every introduction gets to all others -/

/-- What waits is somebody else's introduction, and all copies of all introductions have arrived or
wait. -/
structure Sound (parties : Fin n → Party σ) (k : Nat) (room : Room σ n) : Prop where
  waiting : ∀ x ∈ room.waiting, ∃ j, j ≠ x.1 ∧ x.2 = (parties j).introduction
  count : room.sent * (n - 1) = k + room.waiting.length

theorem Sound.becomes (h : Sound parties k room) (hbecomes : Becomes room i key words room')
    (hwords : ∀ w ∈ words, w = (parties i).introduction) : Sound parties k room' where
  waiting x hx := by
    rw [hbecomes.waiting, List.mem_append, List.mem_flatMap] at hx
    rcases hx with hx | ⟨w, hw, hx⟩
    · exact h.waiting x hx
    · obtain ⟨hne, hm⟩ := mem_copies.mp hx
      exact ⟨i, hne.symm, hm.trans (hwords w hw)⟩
  count := by
    have hlength : (words.flatMap (copies i)).length = words.length * (n - 1) := by
      simp [List.length_flatMap, length_copies]
    rw [hbecomes.waiting, hbecomes.sent, List.length_append, hlength, Nat.add_mul, h.count,
      Nat.add_assoc]

theorem Sound.eraseIdx (h : Sound parties k room) (hplace : place < room.waiting.length) :
    Sound parties (k + 1) { room with waiting := room.waiting.eraseIdx place } where
  waiting x hx := h.waiting x (List.mem_of_mem_eraseIdx hx)
  count := by
    have herase := List.length_eraseIdx_add_one hplace
    have hcount := h.count
    dsimp only
    omega

theorem sound_opened (hsealing : ∀ i, (parties i).config.encryptSignaling = true) (now : Instant)
    (sessions : Fin n → Session σ) : Sound parties 0 (opened parties now sessions) := by
  obtain ⟨-, hwaiting, hsent⟩ := opened_spec hsealing now sessions
  refine ⟨fun x hx => ?_, ?_⟩
  · rw [hwaiting, List.mem_flatMap] at hx
    obtain ⟨i, -, hx⟩ := hx
    obtain ⟨hne, hm⟩ := mem_copies.mp hx
    exact ⟨i, hne.symm, hm⟩
  · rw [hwaiting, hsent]
    simp [List.length_flatMap, length_copies]

/-- What arrives is somebody else's introduction. -/
theorem Sound.exists_introduction (h : Sound parties k room)
    (hplace : place < room.waiting.length) :
    ∃ i j, j ≠ i ∧ room.waiting[place]? = some (i, (parties j).introduction) := by
  obtain ⟨j, hne, hm⟩ := h.waiting _ (List.getElem_mem hplace)
  refine ⟨room.waiting[place].1, j, hne, ?_⟩
  rw [List.getElem?_eq_getElem hplace, ← hm]

section
variable (hsealing : ∀ i, (parties i).config.encryptSignaling = true)
  (hsenders : Function.Injective fun i => (parties i).sender)
include hsealing hsenders

/-- What an exchange keeps: it holds when all have introduced themselves, it is told by what waits
and what is known, and it stays when an introduction arrives. -/
theorem Exchange.induction {P : Room σ n → Prop}
    (hopened : ∀ now, P (Room.opened parties now sessions))
    (hcongr : ∀ room room', room'.known = room.known → room'.waiting = room.waiting →
      room'.sent = room.sent → P room → P room')
    (hdeliver : ∀ room room' place i j, j ≠ i →
      room.waiting[place]? = some (i, (parties j).introduction) →
      Becomes { room with waiting := room.waiting.eraseIdx place } i
        (some (parties j).keypair.publicKey)
        (if room.known i = some (parties j).keypair.publicKey then []
          else [(parties i).introduction]) room' → P room → P room')
    (h : Exchange parties sessions k room) : Sound parties k room ∧ P room := by
  induction h with
  | opened now => exact ⟨sound_opened hsealing now sessions, hopened now⟩
  | @deliver k room now place h hplace ih =>
      obtain ⟨hsound, hP⟩ := ih
      obtain ⟨i, j, hne, hwaits⟩ := hsound.exists_introduction hplace
      have hbecomes := becomes_deliver now (hsealing i) (hsenders.ne hne) hwaits
      refine ⟨(hsound.eraseIdx hplace).becomes hbecomes fun w hw => ?_,
        hdeliver room _ place i j hne hwaits hbecomes hP⟩
      split at hw
      · cases hw
      · exact List.mem_singleton.mp hw
  | @other k room now i e h he hm ih =>
      obtain ⟨hsound, hP⟩ := ih
      have hbecomes : Becomes room i (room.known i) [] (room.react parties now i e) :=
        becomes_other he hm
      refine ⟨hsound.becomes hbecomes fun w hw => absurd hw List.not_mem_nil,
        hcongr room _ (hbecomes.known_eq rfl) ?_ hbecomes.sent hP⟩
      rw [hbecomes.waiting, List.flatMap_nil, List.append_nil]

end

/-! ## Three or more -/

/-- Whoever introduced itself earlier than somebody else knows the other one's key, or will hear
it. -/
def Unsettled (parties : Fin n → Party σ) (room : Room σ n) : Prop :=
  ∃ rank : Fin n → Nat, Function.Injective rank ∧ ∀ i j, rank i < rank j →
    (i, (parties j).introduction) ∈ room.waiting ∨
      room.known i = some (parties j).keypair.publicKey

theorem unsettled_opened (hsealing : ∀ i, (parties i).config.encryptSignaling = true)
    (now : Instant) (sessions : Fin n → Session σ) :
    Unsettled parties (opened parties now sessions) := by
  obtain ⟨-, hwaiting, -⟩ := opened_spec hsealing now sessions
  refine ⟨fun i => i, Fin.val_injective, fun i j hlt => Or.inl ?_⟩
  rw [hwaiting, List.mem_flatMap]
  exact ⟨j, List.mem_finRange j, mem_copies.mpr ⟨Fin.ne_of_lt hlt, rfl⟩⟩

/-- An introduction that tells what is known takes away no more than itself. -/
theorem Unsettled.heard (h : Unsettled parties room)
    (hwaits : room.waiting[place]? = some (i, (parties j).introduction))
    (hknown : room.known i = some (parties j).keypair.publicKey)
    (hsame : room'.known = room.known) (hwaiting : room'.waiting = room.waiting.eraseIdx place) :
    Unsettled parties room' := by
  obtain ⟨rank, hrank, hordered⟩ := h
  refine ⟨rank, hrank, fun a b hlt => ?_⟩
  rw [hsame, hwaiting]
  rcases hordered a b hlt with hmem | hkey
  · by_cases heq : (a, (parties b).introduction) = (i, (parties j).introduction)
    · obtain ⟨rfl, hm⟩ := Prod.mk.inj heq
      have hkeys : (parties b).keypair.publicKey = (parties j).keypair.publicKey := by
        simpa [Party.introduction] using (Message.mk.inj hm).2
      exact Or.inr (hkeys ▸ hknown)
    · exact Or.inl (mem_eraseIdx_of_ne hwaits hmem heq)
  · exact Or.inr hkey

/-- A session that introduces itself anew is the last one to have done so. -/
theorem Unsettled.spoken (h : Unsettled parties room)
    (hbecomes : Becomes { room with waiting := room.waiting.eraseIdx place } i key
      [(parties i).introduction] room')
    (hwaits : room.waiting[place]? = some (i, m)) : Unsettled parties room' := by
  obtain ⟨rank, hrank, hordered⟩ := h
  have hlast : ∀ a, rank a < Finset.univ.sup rank + 1 := fun a =>
    Nat.lt_succ_of_le (Finset.le_sup (Finset.mem_univ a))
  refine ⟨Function.update rank i (Finset.univ.sup rank + 1), ?_, fun a b hlt => ?_⟩
  · intro a b hab
    have ha := hlast a
    have hb := hlast b
    by_cases hai : a = i <;> by_cases hbi : b = i <;>
      simp only [hai, hbi, Function.update_self, ne_eq, not_false_eq_true,
        Function.update_of_ne] at hab ⊢
    · omega
    · omega
    · exact hrank hab
  · rw [hbecomes.waiting, List.flatMap_singleton]
    by_cases hai : a = i
    · -- Nobody has spoken after it.
      have hb := hlast b
      rw [hai, Function.update_self] at hlt
      by_cases hbi : b = i
      · rw [hbi, Function.update_self] at hlt
        omega
      · rw [Function.update_of_ne hbi] at hlt
        omega
    · rw [Function.update_of_ne hai] at hlt
      by_cases hbi : b = i
      · rw [hbi]
        exact Or.inl (List.mem_append_right _ (mem_copies.mpr ⟨hai, rfl⟩))
      · rw [Function.update_of_ne hbi] at hlt
        rw [hbecomes.others a hai]
        refine (hordered a b hlt).imp_left fun hmem => List.mem_append_left _ ?_
        exact mem_eraseIdx_of_ne hwaits hmem fun heq => hai (Prod.mk.inj heq).1

/-- The session that has been silent for longest knows one key at most, so it will hear another
one. -/
theorem Unsettled.waiting_ne_nil (h : Unsettled parties room) (hn : 3 ≤ n)
    (hkeys : Function.Injective fun i => (parties i).keypair.publicKey) : room.waiting ≠ [] := by
  obtain ⟨rank, hrank, hordered⟩ := h
  intro hnone
  obtain ⟨i, -, hmin⟩ := Finset.exists_min_image Finset.univ rank ⟨⟨0, by omega⟩, Finset.mem_univ _⟩
  have hcard : 1 < (Finset.univ.erase i).card := by
    rw [Finset.card_erase_of_mem (Finset.mem_univ i), Finset.card_univ, Fintype.card_fin]
    omega
  obtain ⟨a, ha, b, hb, hab⟩ := Finset.one_lt_card.mp hcard
  have hknown : ∀ j ∈ Finset.univ.erase i, room.known i = some (parties j).keypair.publicKey := by
    intro j hj
    have hne : rank i ≠ rank j := fun heq => (Finset.ne_of_mem_erase hj) (hrank heq).symm
    have hlt : rank i < rank j := Nat.lt_of_le_of_ne (hmin j (Finset.mem_univ j)) hne
    refine (hordered i j hlt).resolve_left ?_
    rw [hnone]
    exact List.not_mem_nil
  have hsame := (hknown a ha).symm.trans (hknown b hb)
  exact hab (hkeys (Option.some.inj hsame))

/-! ## Two or fewer -/

/-- The sessions that know a key. -/
def informed (room : Room σ n) : Finset (Fin n) := Finset.univ.filter fun i => (room.known i).isSome

/-- All have introduced themselves once, and once more when they heard of somebody. -/
structure Settling (parties : Fin n → Party σ) (room : Room σ n) : Prop where
  sent : room.sent = n + room.informed.card
  known : ∀ i key, room.known i = some key → ∃ j, j ≠ i ∧ key = (parties j).keypair.publicKey

theorem settling_opened (hsealing : ∀ i, (parties i).config.encryptSignaling = true)
    (hfresh : ∀ i, (sessions i).peerKey = none) (now : Instant) :
    Settling parties (opened parties now sessions) := by
  obtain ⟨hknown, -, hsent⟩ := opened_spec hsealing now sessions
  have hnone : ∀ i, (opened parties now sessions).known i = none := fun i =>
    (hknown i).trans (hfresh i)
  refine ⟨?_, fun i key hi => ?_⟩
  · simp [hsent, informed, hnone]
  · rw [hnone] at hi
    cases hi

/-- With one other session only, it is always the same key that is told. -/
theorem Settling.becomes (h : Settling parties room) (hn : n ≤ 2) (hne : j ≠ i)
    (hbecomes : Becomes { room with waiting := room.waiting.eraseIdx place } i
      (some (parties j).keypair.publicKey)
      (if room.known i = some (parties j).keypair.publicKey then []
        else [(parties i).introduction]) room') : Settling parties room' := by
  have honly : ∀ j', j' ≠ i → j' = j := by
    intro j' hne'
    have hi := i.isLt
    have hj := j.isLt
    have hj' := j'.isLt
    have hvals : (j : Nat) ≠ i ∧ (j' : Nat) ≠ i := ⟨Fin.val_ne_of_ne hne, Fin.val_ne_of_ne hne'⟩
    exact Fin.ext (by omega)
  have hinformed : room'.informed = insert i room.informed := by
    ext a
    by_cases ha : a = i
    · simp [informed, ha, hbecomes.self]
    · have hother : room'.known a = room.known a := hbecomes.others a ha
      simp [informed, ha, hother]
  refine ⟨?_, fun a key ha => ?_⟩
  · rw [hinformed, hbecomes.sent, h.sent]
    cases hknown : room.known i with
    | none =>
        have hnew : i ∉ room.informed := by simp [informed, hknown]
        rw [Finset.card_insert_of_notMem hnew, if_neg nofun]
        rfl
    | some key =>
        obtain ⟨j', hne', rfl⟩ := h.known i key hknown
        have hold : i ∈ room.informed := by simp [informed, hknown]
        rw [Finset.insert_eq_of_mem hold, honly j' hne', if_pos rfl]
        rfl
  · by_cases hai : a = i
    · rw [hai, hbecomes.self, Option.some.injEq] at ha
      exact ⟨j, hai ▸ hne, ha.symm⟩
    · rw [hbecomes.others a hai] at ha
      exact h.known a key ha

/-! ## The whole -/

section
variable (hsealing : ∀ i, (parties i).config.encryptSignaling = true)
  (hsenders : Function.Injective fun i => (parties i).sender)
include hsealing hsenders

theorem Exchange.unsettled (h : Exchange parties sessions k room) :
    Sound parties k room ∧ Unsettled parties room := by
  refine Exchange.induction hsealing hsenders
    (fun now => unsettled_opened hsealing now sessions) ?_ ?_ h
  · rintro room room' hknown hwaiting - hunsettled
    rwa [Unsettled, hknown, hwaiting]
  · intro room room' place i j hne hwaits hbecomes hunsettled
    by_cases hknown : room.known i = some (parties j).keypair.publicKey
    · rw [if_pos hknown] at hbecomes
      refine hunsettled.heard hwaits hknown (hbecomes.known_eq hknown) ?_
      rw [hbecomes.waiting, List.flatMap_nil, List.append_nil]
    · rw [if_neg hknown] at hbecomes
      exact hunsettled.spoken hbecomes hwaits

theorem Exchange.settling (hn : n ≤ 2) (hfresh : ∀ i, (sessions i).peerKey = none)
    (h : Exchange parties sessions k room) : Settling parties room := by
  refine (Exchange.induction hsealing hsenders
    (fun now => settling_opened hsealing hfresh now) ?_ ?_ h).2
  · rintro room room' hknown - hsent hsettling
    constructor
    · rw [hsent, informed, hknown]
      exact hsettling.sent
    · rw [hknown]
      exact hsettling.known
  · intro room room' place i j hne hwaits hbecomes hsettling
    exact hsettling.becomes hn hne hbecomes

/-- With three sessions an introduction always waits, so any number of them can arrive. -/
theorem exists_exchange (hkeys : Function.Injective fun i => (parties i).keypair.publicKey)
    (sessions : Fin n → Session σ) (hn : 3 ≤ n) (k : Nat) :
    ∃ room, Exchange parties sessions k room := by
  induction k with
  | zero => exact ⟨_, .opened 0⟩
  | succ k ih =>
      obtain ⟨room, hroom⟩ := ih
      have hwaiting := (hroom.unsettled hsealing hsenders).2.waiting_ne_nil hn hkeys
      exact ⟨_, hroom.deliver 0 0 (List.length_pos_of_ne_nil hwaiting)⟩

/-- So any number of them is sent. -/
theorem exists_lt_sent (hkeys : Function.Injective fun i => (parties i).keypair.publicKey)
    (sessions : Fin n → Session σ) (hn : 3 ≤ n) (bound : Nat) :
    ∃ k room, Exchange parties sessions k room ∧ bound < room.sent := by
  obtain ⟨room, hroom⟩ := exists_exchange hsealing hsenders hkeys sessions hn (bound * (n - 1))
  obtain ⟨hsound, hunsettled⟩ := hroom.unsettled hsealing hsenders
  have hpos := List.length_pos_of_ne_nil (hunsettled.waiting_ne_nil hn hkeys)
  refine ⟨_, room, hroom, Nat.lt_of_mul_lt_mul_right (a := n - 1) ?_⟩
  rw [hsound.count]
  omega

end

/-- **An exchange of introductions ends with two sessions, and never with three.** Each introduction
arrives at all others in some order. Two sessions, or one, send no more than two introductions each.
With three sessions or more, one is always on its way, whatever the order, so the exchange has no
end and any number of introductions is sent. -/
theorem exchange_ends_only_in_pairs (parties : Fin n → Party σ)
    (hsealing : ∀ i, (parties i).config.encryptSignaling = true)
    (hsenders : Function.Injective fun i => (parties i).sender)
    (hkeys : Function.Injective fun i => (parties i).keypair.publicKey)
    (sessions : Fin n → Session σ) (hfresh : ∀ i, (sessions i).peerKey = none) :
    (∀ k room, Exchange parties sessions k room →
      room.sent * (n - 1) = k + room.waiting.length) ∧
    (n ≤ 2 → ∀ k room, Exchange parties sessions k room → room.sent ≤ 2 * n) ∧
    (3 ≤ n → (∀ k room, Exchange parties sessions k room → room.waiting ≠ []) ∧
      ∀ bound, ∃ k room, Exchange parties sessions k room ∧ bound < room.sent) := by
  refine ⟨fun k room h => (h.unsettled hsealing hsenders).1.count, fun hn k room h => ?_,
    fun hn => ⟨fun k room h => ?_, exists_lt_sent hsealing hsenders hkeys sessions hn⟩⟩
  · have hcard : room.informed.card ≤ n := by
      simpa using Finset.card_le_univ room.informed
    rw [(h.settling hsealing hsenders hn hfresh).sent]
    omega
  · exact (h.unsettled hsealing hsenders).2.waiting_ne_nil hn hkeys

/-- Three devices with keys of their own. -/
def threeParties (i : Fin 3) : Party Probe :=
  { sealingHost with
    sender := ["a", "b", "c"].getD i ""
    keypair := .ofSecret .standard ⟨List.replicate 32 (UInt8.ofNat i), List.length_replicate⟩ }

theorem injective_sender_threeParties : Function.Injective fun i => (threeParties i).sender := by
  decide

theorem injective_key_threeParties :
    Function.Injective fun i => (threeParties i).keypair.publicKey := by
  decide +kernel

/-- Three devices send more than a hundred introductions. -/
theorem exchange_of_three :
    (∀ i, (threeParties i).config.encryptSignaling = true) ∧
      ∃ k room, Exchange threeParties (fun _ => .start (.start 1)) k room ∧ 100 < room.sent := by
  have hsealing : ∀ i, (threeParties i).config.encryptSignaling = true := fun _ => rfl
  obtain ⟨-, -, hthree⟩ := exchange_ends_only_in_pairs threeParties hsealing
    injective_sender_threeParties injective_key_threeParties (fun _ => .start (.start 1))
    fun _ => rfl
  exact ⟨hsealing, (hthree (Nat.le_refl 3)).2 100⟩

/-- **No number bounds the introductions of three devices.** -/
theorem introductions_unbounded :
    (∀ i, (threeParties i).config.encryptSignaling = true) ∧
      Function.Injective (fun i => (threeParties i).keypair.publicKey) ∧
      ¬ ∃ bound, ∀ k room, Exchange threeParties (fun _ => .start (.start 1)) k room →
        room.sent ≤ bound := by
  have hsealing : ∀ i, (threeParties i).config.encryptSignaling = true := fun _ => rfl
  refine ⟨hsealing, injective_key_threeParties, ?_⟩
  rintro ⟨bound, hbound⟩
  obtain ⟨k, room, hroom, hlt⟩ := exists_lt_sent hsealing injective_sender_threeParties
    injective_key_threeParties (fun _ => .start (.start 1)) (Nat.le_refl 3) bound
  exact absurd (hbound k room hroom) (Nat.not_le.mpr hlt)

end Room

end PeerCall.Handshake
