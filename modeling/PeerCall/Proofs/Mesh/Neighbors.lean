import Mathlib.Data.List.Induction
import PeerCall.Mesh.Neighborhood
import PeerCall.Proofs.Entries

/-!
# No neighbour outlives its silence

A node learns of a neighbour by its advert, by its subscription or by linking to it first, and notes
the time in each case. So whoever is linked or subscribed is noted too, and what is noted is when it
was last heard. To prune is to forget those that were last heard too long ago: nobody else goes, and
none of them stays in any table. All other datagrams change nothing, and what a neighbour notifies
goes to the stream that was opened to it, whoever else is linked.
-/
namespace PeerCall.Mesh.Neighborhood

open Net

/-! ## Signs of life -/

/-- Whether a datagram on the data socket is a subscription. -/
def isSubscription (bytes : Bytes) : Bool :=
  match Frame.decode Datagram.format bytes with
  | .ok (.subscribe, _) => true
  | _ => false

/-- The neighbour that an event shows to be there: by its subscription, by its advert, or by a link
to it when nothing is noted of it. -/
def heardBy (n : Neighborhood) : NeighborhoodEvent → Option Endpoint
  | .datagram sender bytes => if isSubscription bytes then some sender else none
  | .advert sender bytes => (Advert.hear? n.node sender bytes).map (·.2)
  | .connect neighbor => if (n.heard.lookup neighbor).isSome then none else some neighbor
  | .listen | .prune => none

/-- The tables after a run of events, each at a reading of the clock. -/
def afterRun (n : Neighborhood) (run : List (Instant × NeighborhoodEvent)) : Neighborhood :=
  run.foldl (fun n s => n.after s.1 s.2) n

/-- The readings of a run at which a neighbour is heard. -/
def heardAt (e : Endpoint) : Neighborhood → List (Instant × NeighborhoodEvent) → List Instant
  | _, [] => []
  | n, (now, event) :: run =>
    (if n.heardBy event = some e then [now] else []) ++ heardAt e (n.after now event) run

/-- When a neighbour was last heard in a run of a node that had met nobody. -/
def lastHeard (node : String) (run : List (Instant × NeighborhoodEvent)) (e : Endpoint) :
    Option Instant := (heardAt e (empty node) run).getLast?

/-- A neighbour was last heard a shorter time ago than it may be silent. -/
def HeardLately (node : String) (run : List (Instant × NeighborhoodEvent)) (now : Instant)
    (e : Endpoint) : Prop :=
  ∃ t, lastHeard node run e = some t ∧ t ≤ now ∧ now < t + neighborTimeout

/-- The neighbour to which an event opens a stream. -/
def openedBy : NeighborhoodEvent → List Endpoint
  | .connect neighbor => [neighbor]
  | .datagram .. | .advert .. | .listen | .prune => []

/-- The neighbours to which a run opens streams, one after another. -/
def opened (run : List (Instant × NeighborhoodEvent)) : List Endpoint :=
  run.flatMap fun s => openedBy s.2

/-- The neighbours linked to. -/
def linked (n : Neighborhood) : List Endpoint := n.links.map (·.1)

variable {node : String} {n : Neighborhood} {e : Endpoint} {now t : Instant}
  {event : NeighborhoodEvent} {run : List (Instant × NeighborhoodEvent)}

theorem afterRun_concat (n : Neighborhood) (run : List (Instant × NeighborhoodEvent))
    (now : Instant) (event : NeighborhoodEvent) :
    n.afterRun (run ++ [(now, event)]) = (n.afterRun run).after now event := by
  rw [afterRun, List.foldl_append]
  rfl

theorem heardAt_concat (e : Endpoint) (n : Neighborhood)
    (run : List (Instant × NeighborhoodEvent)) (now : Instant) (event : NeighborhoodEvent) :
    heardAt e n (run ++ [(now, event)]) =
      heardAt e n run ++ if (n.afterRun run).heardBy event = some e then [now] else [] := by
  induction run generalizing n with
  | nil =>
      rw [List.nil_append, heardAt, heardAt, heardAt, List.append_nil, List.nil_append]
      rfl
  | cons s run ih =>
      rw [List.cons_append, heardAt, heardAt, ih, List.append_assoc]
      rfl

theorem lastHeard_concat (node : String) (run : List (Instant × NeighborhoodEvent))
    (now : Instant) (event : NeighborhoodEvent) (e : Endpoint) :
    lastHeard node (run ++ [(now, event)]) e =
      if ((empty node).afterRun run).heardBy event = some e then some now
      else lastHeard node run e := by
  rw [lastHeard, heardAt_concat]
  split
  · exact List.getLast?_concat
  · rw [List.append_nil]
    rfl

/-- A neighbour is heard at readings of the run. -/
theorem mem_of_lastHeard (h : lastHeard node run e = some t) : ∃ s ∈ run, s.1 = t := by
  induction run using List.reverseRecOn with
  | nil => cases h
  | append_singleton run s ih =>
      rw [lastHeard_concat] at h
      split at h
      · cases h
        exact ⟨s, List.mem_concat_self, rfl⟩
      · obtain ⟨s', hs', ht⟩ := ih h
        exact ⟨s', List.mem_append_left _ hs', ht⟩

theorem opened_concat (run : List (Instant × NeighborhoodEvent)) (now : Instant)
    (event : NeighborhoodEvent) :
    opened (run ++ [(now, event)]) = opened run ++ openedBy event := by
  rw [opened, List.flatMap_append, List.flatMap_singleton]
  rfl

/-! ## What an event does to the tables -/

/-- The tables once a neighbour has subscribed. -/
def subscribe (e : Endpoint) (now : Instant) (n : Neighborhood) : Neighborhood :=
  hear e now { n with
    subscribers := if n.subscribers.contains e then n.subscribers else n.subscribers ++ [e] }

/-- A datagram on the data socket changes the tables only if it is a subscription. -/
theorem after_datagram (n : Neighborhood) (now : Instant) (sender : Endpoint) (bytes : Bytes) :
    n.after now (.datagram sender bytes) =
      if isSubscription bytes then n.subscribe sender now else n := by
  rw [after, onDatagram]
  cases hdecode : Frame.decode Datagram.format bytes with
  | error fault =>
      have hnone : isSubscription bytes = false := by rw [isSubscription, hdecode]
      rw [hnone]
      rfl
  | ok result =>
      obtain ⟨datagram, used⟩ := result
      have hkind : isSubscription bytes = decide (datagram = .subscribe) := by
        rw [isSubscription, hdecode]
        cases datagram <;> rfl
      rw [hkind]
      cases datagram <;> rfl

theorem after_advert (n : Neighborhood) (now : Instant) (sender : Endpoint) (bytes : Bytes) :
    n.after now (.advert sender bytes) =
      match Advert.hear? n.node sender bytes with
      | some (_, e) => n.hear e now
      | none => n := by
  simp only [after, onAdvert]
  cases Advert.hear? n.node sender bytes <;> rfl

theorem lookup_hear (e other : Endpoint) (now : Instant) (n : Neighborhood) :
    (n.hear e now).heard.lookup other = if e = other then some now else n.heard.lookup other := by
  have hfilter := lookup_filter_key (fun k => decide (k ≠ e)) n.heard other
  rw [hear, List.lookup_append, hfilter]
  by_cases he : e = other
  · subst he
    simp
  · simp [he, Ne.symm he, List.lookup_cons, beq_false_of_ne (Ne.symm he)]

theorem lookup_connect (e other : Endpoint) (now : Instant) (n : Neighborhood) :
    (n.connect e now).2.heard.lookup other =
      if (n.heard.lookup e).isSome = false ∧ e = other then some now
      else n.heard.lookup other := by
  simp only [connect]
  cases hknown : (n.heard.lookup e).isSome with
  | true => simp
  | false =>
      have hnone : n.heard.lookup e = none := by simpa using hknown
      rw [if_neg Bool.false_ne_true, List.lookup_append]
      by_cases he : e = other
      · subst he
        simp [hnone]
      · simp [he, List.lookup_cons, beq_false_of_ne (Ne.symm he)]

/-- All events but pruning note whom they show to be there, and leave what else is noted. -/
theorem lookup_after (hprune : event ≠ .prune) (e : Endpoint) :
    (n.after now event).heard.lookup e =
      if n.heardBy event = some e then some now else n.heard.lookup e := by
  cases event with
  | datagram sender bytes =>
      rw [after_datagram, heardBy]
      cases isSubscription bytes with
      | true => simp [subscribe, lookup_hear]
      | false => simp
  | advert sender bytes =>
      rw [after_advert, heardBy]
      cases Advert.hear? n.node sender bytes with
      | none => simp
      | some found => simp [lookup_hear]
  | connect neighbor =>
      rw [after, lookup_connect, heardBy]
      cases (n.heard.lookup neighbor).isSome <;> simp
  | listen => simp [after, listen, heardBy]
  | prune => exact absurd rfl hprune

theorem lookup_prune (n : Neighborhood) (now : Instant) (e : Endpoint) :
    (n.prune now).heard.lookup e = if e ∈ n.stale now then none else n.heard.lookup e := by
  have hfilter := lookup_filter_key (fun k => !(n.stale now).contains k) n.heard e
  by_cases he : e ∈ n.stale now
  · simpa [prune, he] using hfilter
  · simpa [prune, he] using hfilter

theorem mem_linked_prune : e ∈ (n.prune now).linked ↔ e ∈ n.linked ∧ e ∉ n.stale now := by
  simp only [prune, linked, List.mem_map, List.mem_filter]
  constructor
  · rintro ⟨l, ⟨hl, hfresh⟩, rfl⟩
    exact ⟨⟨l, hl, rfl⟩, by simpa using hfresh⟩
  · rintro ⟨⟨l, hl, rfl⟩, hfresh⟩
    exact ⟨l, ⟨hl, by simpa using hfresh⟩, rfl⟩

theorem mem_subscribers_prune :
    e ∈ (n.prune now).subscribers ↔ e ∈ n.subscribers ∧ e ∉ n.stale now := by
  simp [prune, List.mem_filter]

/-- What an event makes of everything but the times. -/
structure TablesAfter (now : Instant) (n : Neighborhood) (event : NeighborhoodEvent)
    (after : Neighborhood) : Prop where
  node : after.node = n.node
  links : after.links = match event with
    | .connect e => n.links.filter (·.1 ≠ e) ++ [(e, n.streams)]
    | .prune => n.links.filter fun l => !(n.stale now).contains l.1
    | _ => n.links
  streams : after.streams = n.streams + (openedBy event).length
  subscribers : ∀ e ∈ after.subscribers, e ∈ n.subscribers ∨ n.heardBy event = some e
  keys : (n.heard.map Prod.fst).Nodup → (after.heard.map Prod.fst).Nodup

theorem tablesAfter_after (now : Instant) (n : Neighborhood) (event : NeighborhoodEvent) :
    TablesAfter now n event (n.after now event) := by
  cases event with
  | datagram sender bytes =>
      rw [after_datagram]
      split
      · rename_i hsub
        refine ⟨rfl, rfl, rfl, ?_, fun h => nodup_replaced h sender now⟩
        intro e he
        rw [heardBy, if_pos hsub]
        simp only [subscribe, hear] at he
        split at he
        · exact Or.inl he
        · rcases List.mem_append.mp he with he | he
          · exact Or.inl he
          · exact Or.inr (congrArg some (List.mem_singleton.mp he).symm)
      · exact ⟨rfl, rfl, rfl, fun _ he => Or.inl he, id⟩
  | advert sender bytes =>
      rw [after_advert]
      split
      · exact ⟨rfl, rfl, rfl, fun _ he => Or.inl he, fun h => nodup_replaced h _ now⟩
      · exact ⟨rfl, rfl, rfl, fun _ he => Or.inl he, id⟩
  | connect e =>
      refine ⟨rfl, rfl, rfl, fun _ he => Or.inl he, fun h => ?_⟩
      simp only [after, connect]
      split
      · exact h
      · rename_i hnew
        exact nodup_concat h (fun hmem => hnew (isSome_lookup_iff.mpr hmem)) now
  | listen => exact ⟨rfl, rfl, rfl, fun _ he => Or.inl he, id⟩
  | prune =>
      refine ⟨rfl, rfl, rfl, fun _ he => Or.inl (mem_subscribers_prune.mp he).1, fun h => ?_⟩
      exact h.sublist (List.filter_sublist.map _)

/-- Who is linked after an event was so before, or it is a link to it. -/
theorem mem_linked_after (he : e ∈ (n.after now event).linked) :
    e ∈ n.linked ∨ event = .connect e := by
  obtain ⟨l, hl, rfl⟩ := List.mem_map.mp he
  rw [(tablesAfter_after now n event).links] at hl
  cases event with
  | connect neighbor =>
      rcases List.mem_append.mp hl with hl | hl
      · exact Or.inl (List.mem_map_of_mem (List.mem_of_mem_filter hl))
      · rw [List.mem_singleton.mp hl]
        exact Or.inr rfl
  | prune => exact Or.inl (List.mem_map_of_mem (List.mem_of_mem_filter hl))
  | datagram _ _ | advert _ _ | listen => exact Or.inl (List.mem_map_of_mem hl)

/-! ## What a run keeps -/

/-- The tables that a run leads to: each is a map, whoever is linked or subscribed is noted, what is
noted is when it was last heard, and each link goes to the stream that was opened for it. -/
structure Sound (node : String) (run : List (Instant × NeighborhoodEvent)) (n : Neighborhood) :
    Prop where
  reached : n = (empty node).afterRun run
  node_eq : n.node = node
  keys : (n.heard.map Prod.fst).Nodup
  heard : ∀ e t, n.heard.lookup e = some t → lastHeard node run e = some t
  known : ∀ e, e ∈ n.linked ∨ e ∈ n.subscribers → (n.heard.lookup e).isSome = true
  names : n.linked.Nodup
  streams : n.streams = (opened run).length
  opened : ∀ e i, (e, i) ∈ n.links → (opened run)[i]? = some e

theorem sound_empty (node : String) : Sound node [] (empty node) where
  reached := rfl
  node_eq := rfl
  keys := List.nodup_nil
  heard _ _ h := nomatch h
  known _ h := by rcases h with h | h <;> cases h
  names := List.nodup_nil
  streams := rfl
  opened _ _ h := nomatch h

namespace Sound

theorem heard_after (h : Sound node run n) (now : Instant) (event : NeighborhoodEvent) :
    ∀ e t, (n.after now event).heard.lookup e = some t →
      lastHeard node (run ++ [(now, event)]) e = some t := by
  intro e t ht
  rw [lastHeard_concat, ← h.reached]
  by_cases hprune : event = .prune
  · subst hprune
    rw [Neighborhood.after, lookup_prune] at ht
    split at ht
    · cases ht
    · exact h.heard e t ht
  · rw [lookup_after hprune] at ht
    by_cases hheard : n.heardBy event = some e
    · rw [if_pos hheard] at ht ⊢
      exact ht
    · rw [if_neg hheard] at ht ⊢
      exact h.heard e t ht

/-- Whoever gets into a table is noted by then, and whoever is forgotten leaves both. -/
theorem known_after (h : Sound node run n) (now : Instant) (event : NeighborhoodEvent) :
    ∀ e, e ∈ (n.after now event).linked ∨ e ∈ (n.after now event).subscribers →
      ((n.after now event).heard.lookup e).isSome = true := by
  intro e he
  by_cases hprune : event = .prune
  · subst hprune
    rw [after, mem_linked_prune, mem_subscribers_prune, ← or_and_right] at he
    rw [after, lookup_prune, if_neg he.2]
    exact h.known e he.1
  · have hbefore : (e ∈ n.linked ∨ e ∈ n.subscribers) ∨ event = .connect e ∨
        n.heardBy event = some e := by
      rcases he with he | he
      · exact (mem_linked_after he).imp Or.inl Or.inl
      · exact ((tablesAfter_after now n event).subscribers e he).imp Or.inr Or.inr
    rw [lookup_after hprune]
    split
    · rfl
    · rename_i hunheard
      rcases hbefore with hbefore | rfl | hheard
      · exact h.known e hbefore
      · by_contra hnone
        exact hunheard (by rw [heardBy, if_neg hnone])
      · exact absurd hheard hunheard

theorem names_after (h : Sound node run n) (now : Instant) (event : NeighborhoodEvent) :
    (n.after now event).linked.Nodup := by
  rw [linked, (tablesAfter_after now n event).links]
  cases event with
  | connect e => exact nodup_replaced h.names e n.streams
  | prune => exact h.names.sublist (List.filter_sublist.map _)
  | datagram _ _ | advert _ _ | listen => exact h.names

/-- A stream once opened is the same neighbour's for good. -/
theorem opened_after (h : Sound node run n) (now : Instant) (event : NeighborhoodEvent) :
    ∀ e i, (e, i) ∈ (n.after now event).links →
      (Neighborhood.opened (run ++ [(now, event)]))[i]? = some e := by
  intro e i hlink
  rw [(tablesAfter_after now n event).links] at hlink
  rw [opened_concat]
  have hold : (e, i) ∈ n.links → ∀ more, (Neighborhood.opened run ++ more)[i]? = some e := by
    intro hlink more
    have hi := h.opened e i hlink
    rw [List.getElem?_append_left (List.getElem?_eq_some_iff.mp hi).1]
    exact hi
  cases event with
  | connect neighbor =>
      rcases List.mem_append.mp hlink with hlink | hlink
      · exact hold (List.mem_of_mem_filter hlink) _
      · obtain ⟨rfl, rfl⟩ := Prod.mk.inj (List.mem_singleton.mp hlink)
        rw [h.streams]
        exact List.getElem?_concat_length
  | prune => exact hold (List.mem_of_mem_filter hlink) _
  | datagram _ _ | advert _ _ | listen => exact hold hlink _

theorem after (h : Sound node run n) (now : Instant) (event : NeighborhoodEvent) :
    Sound node (run ++ [(now, event)]) (n.after now event) where
  reached := by rw [afterRun_concat, ← h.reached]
  node_eq := (tablesAfter_after now n event).node.trans h.node_eq
  keys := (tablesAfter_after now n event).keys h.keys
  heard := h.heard_after now event
  known := h.known_after now event
  names := h.names_after now event
  streams := by
    rw [(tablesAfter_after now n event).streams, opened_concat, List.length_append, h.streams]
  opened := h.opened_after now event

/-- Whoever is noted is not stale exactly if it was heard lately. -/
theorem not_mem_stale_iff (h : Sound node run n) (hclock : ∀ s ∈ run, s.1 ≤ now)
    (hknown : (n.heard.lookup e).isSome = true) :
    e ∉ n.stale now ↔ HeardLately node run now e := by
  obtain ⟨t, ht⟩ := Option.isSome_iff_exists.mp hknown
  have hlast := h.heard e t ht
  obtain ⟨s, hs, rfl⟩ := mem_of_lastHeard hlast
  have hpast := hclock s hs
  have hstale : e ∈ n.stale now ↔ neighborTimeout ≤ now - s.1 := by
    simp only [stale, List.mem_map, List.mem_filter, decide_eq_true_eq]
    constructor
    · rintro ⟨⟨e', t'⟩, ⟨hmem, hlong⟩, rfl⟩
      rw [← lookup_eq_some_iff_mem h.keys, ht, Option.some.injEq] at hmem
      exact hmem ▸ hlong
    · intro hlong
      exact ⟨(e, s.1), ⟨(lookup_eq_some_iff_mem h.keys).mp ht, hlong⟩, rfl⟩
  have hage : ∀ t d now : Nat, t ≤ now → (¬ d ≤ now - t ↔ now < t + d) := by omega
  rw [hstale, HeardLately]
  constructor
  · intro hshort
    exact ⟨s.1, hlast, hpast, (hage _ _ _ hpast).mp hshort⟩
  · rintro ⟨t', hlast', -, hshort⟩
    obtain rfl : s.1 = t' := Option.some.inj (hlast.symm.trans hlast')
    exact (hage _ _ _ hpast).mpr hshort

end Sound

theorem sound_afterRun (node : String) (run : List (Instant × NeighborhoodEvent)) :
    Sound node run ((empty node).afterRun run) := by
  induction run using List.reverseRecOn with
  | nil => exact sound_empty node
  | append_singleton run s ih =>
      rw [afterRun_concat]
      exact ih.after s.1 s.2

/-! ## Neighbours and their silence -/

theorem isSubscription_iff {bytes : Bytes} : isSubscription bytes = true ↔
    ∃ used, Frame.decode Datagram.format bytes = .ok (.subscribe, used) := by
  rw [isSubscription]
  split
  · rename_i used hdecode
    exact ⟨fun _ => ⟨used, hdecode⟩, fun _ => rfl⟩
  · rename_i hother
    refine ⟨fun h => absurd h Bool.false_ne_true, ?_⟩
    rintro ⟨used, hdecode⟩
    exact absurd hdecode (hother used)

/-- A notification is handed on if its sender is linked, and then to the sender's stream. -/
theorem Sound.notification_iff (h : Sound node run n) (now : Instant) (sender : Endpoint)
    (bytes : Bytes) (stream : Nat) (payload : Bytes) :
    (n.onDatagram sender bytes now).1 = some (.notification stream payload) ↔
      (∃ used, Frame.decode Datagram.format bytes = .ok (.notify payload, used)) ∧
        (sender, stream) ∈ n.links := by
  rw [← lookup_eq_some_iff_mem h.names, onDatagram]
  split
  · rename_i fault hdecode
    simp [hdecode]
  · rename_i used hdecode
    simp [hdecode]
  · rename_i written used hdecode
    simp [hdecode]
  · rename_i notified used hdecode
    simp only [hdecode, Option.map_eq_some_iff, Delivery.notification.injEq]
    constructor
    · rintro ⟨i, hlookup, rfl, rfl⟩
      exact ⟨⟨used, rfl⟩, hlookup⟩
    · rintro ⟨⟨used', heq⟩, hlookup⟩
      cases heq
      exact ⟨stream, hlookup, rfl, rfl⟩

/-- **No neighbour outlives its silence.** After any run whoever is linked or subscribed is noted
with the time it was last heard. To prune, at a reading not before those of the run, keeps just
those links and subscribers that were last heard less than the timeout ago. What a neighbour
notifies is handed on if it is linked, to the one stream that was opened to it last. Nothing is
changed by a datagram that is no subscription, nor by an advert that is the node's own or none. -/
theorem neighbors_heard_lately (node : String) (run : List (Instant × NeighborhoodEvent)) :
    let n := (empty node).afterRun run
    (∀ e, e ∈ n.linked ∨ e ∈ n.subscribers →
      ∃ t, n.heard.lookup e = some t ∧ lastHeard node run e = some t) ∧
    (∀ now, (∀ s ∈ run, s.1 ≤ now) → ∀ e,
      (e ∈ (n.after now .prune).linked ↔ e ∈ n.linked ∧ HeardLately node run now e) ∧
      (e ∈ (n.after now .prune).subscribers ↔
        e ∈ n.subscribers ∧ HeardLately node run now e)) ∧
    (∀ now sender bytes stream payload,
      (n.onDatagram sender bytes now).1 = some (.notification stream payload) ↔
        (∃ used, Frame.decode Datagram.format bytes = .ok (.notify payload, used)) ∧
          (sender, stream) ∈ n.links) ∧
    (∀ e stream, (e, stream) ∈ n.links → (opened run)[stream]? = some e ∧
      ∀ other, (e, other) ∈ n.links → other = stream) ∧
    (∀ now sender bytes, (∀ used, Frame.decode Datagram.format bytes ≠ .ok (.subscribe, used)) →
      n.after now (.datagram sender bytes) = n) ∧
    (∀ now sender bytes, (∀ advert used, Frame.decode Advert.format bytes = .ok (advert, used) →
        advert.node = node) → n.after now (.advert sender bytes) = n) := by
  have h := sound_afterRun node run
  refine ⟨?_, ?_, h.notification_iff, ?_, ?_, ?_⟩
  · intro e he
    obtain ⟨t, ht⟩ := Option.isSome_iff_exists.mp (h.known e he)
    exact ⟨t, ht, h.heard e t ht⟩
  · intro now hclock e
    rw [after, mem_linked_prune, mem_subscribers_prune]
    constructor
    · exact and_congr_right fun he => h.not_mem_stale_iff hclock (h.known e (Or.inl he))
    · exact and_congr_right fun he => h.not_mem_stale_iff hclock (h.known e (Or.inr he))
  · intro e stream hlink
    refine ⟨h.opened e stream hlink, fun other hother => ?_⟩
    rw [← lookup_eq_some_iff_mem h.names] at hlink hother
    exact Option.some.inj (hother.symm.trans hlink)
  · intro now sender bytes hother
    have hsub : ¬ isSubscription bytes = true := by
      rw [isSubscription_iff]
      rintro ⟨used, hdecode⟩
      exact hother used hdecode
    rw [after_datagram, if_neg hsub]
  · intro now sender bytes hown
    have hnone : Advert.hear? node sender bytes = none := by
      rw [Advert.hear?]
      split
      · rfl
      · rename_i advert used hdecode
        rw [if_pos (hown advert used hdecode)]
    rw [after_advert, h.node_eq, hnone]

/-- A subscriber at the start and a link one second later. -/
def firstMeetings : List (Instant × NeighborhoodEvent) :=
  [(0, .datagram ⟨.v4 10 0 0 1, 0, 4000⟩ [4, 0, 0, 0, 0, 0, 0, 0]),
    (Duration.ofSecs 1, .connect ⟨.v4 10 0 0 2, 0, 4000⟩)]

/-- Fifteen seconds after the start the subscriber is forgotten and the link is not; until then the
linked neighbour's notifications reach its stream, and no noise changes anything. -/
theorem neighbors_heard_lately_first :
    let subscriber : Endpoint := ⟨.v4 10 0 0 1, 0, 4000⟩
    let neighbor : Endpoint := ⟨.v4 10 0 0 2, 0, 4000⟩
    let n := (empty "me").afterRun firstMeetings
    (∃ t, n.heard.lookup subscriber = some t ∧ lastHeard "me" firstMeetings subscriber = some t) ∧
      subscriber ∉ (n.after (Duration.ofSecs 15) .prune).subscribers ∧
      neighbor ∈ (n.after (Duration.ofSecs 15) .prune).linked ∧
      (n.onDatagram neighbor [13, 0, 0, 0, 2, 0, 0, 0, 1, 0, 0, 0, 0, 0, 0, 0, 7] 0).1 =
        some (.notification 0 [7]) ∧
      n.after 0 (.datagram subscriber [1, 2, 3]) = n ∧
      n.after 0 (.advert subscriber
        [21, 0, 0, 0, 1, 0, 0, 0, 0, 0, 0, 0, 115, 2, 0, 0, 0, 0, 0, 0, 0, 109, 101, 160, 15]) =
        n := by
  obtain ⟨hnoted, hprune, hnotify, -, hnoise, hown⟩ := neighbors_heard_lately "me" firstMeetings
  have hclock : ∀ s ∈ firstMeetings, s.1 ≤ Duration.ofSecs 15 := by decide
  refine ⟨hnoted _ (Or.inr (by decide +kernel)), ?_, ?_, ?_, ?_, ?_⟩
  · rw [(hprune _ hclock _).2]
    rintro ⟨-, t, hlast, -, hshort⟩
    obtain rfl : 0 = t := Option.some.inj (Eq.trans (by decide +kernel) hlast)
    exact absurd hshort (by decide)
  · exact (hprune _ hclock _).1.mpr ⟨by decide +kernel, Duration.ofSecs 1, by decide +kernel, by decide,
      by decide⟩
  · exact (hnotify _ _ _ _ _).mpr ⟨⟨17, by rfl⟩, by decide +kernel⟩
  · exact hnoise _ _ _ fun used hdecode => by cases hdecode
  · refine hown _ _ _ fun advert used hdecode => ?_
    have howns : Frame.decode Advert.format
        [21, 0, 0, 0, 1, 0, 0, 0, 0, 0, 0, 0, 115, 2, 0, 0, 0, 0, 0, 0, 0, 109, 101, 160, 15] =
        .ok (⟨"s", "me", 4000⟩, 25) := by rfl
    rw [howns] at hdecode
    cases hdecode
    rfl

end PeerCall.Mesh.Neighborhood
