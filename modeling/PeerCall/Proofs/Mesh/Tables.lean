import PeerCall.Proofs.Mesh.Writers

/-!
# What an event does to the tables

Besides its links a relay knows who is about to be linked, who has written to it, and whether a scan
is under way. What an event makes of each of them is told here, and what it starts: a link task is
started only for a neighbour that is neither linked nor about to be, and a scan only if there is
none.
-/
namespace PeerCall.Mesh

deriving instance DecidableEq for RelayRequest

namespace Relay

variable {r : Relay} {now : Instant} {e : RelayEvent} {n m : String}

/-- The neighbours that a link is under way to after an event. -/
def pendingAfter (r : Relay) : RelayEvent → List String
  | .discovered neighbor =>
    if r.isLinked neighbor || r.pending.contains neighbor then r.pending
    else r.pending ++ [neighbor]
  | .linked neighbor | .linkFailed neighbor => r.pending.filter (· ≠ neighbor)
  | _ => r.pending

/-- The neighbours that have written to us after an event. -/
def acceptedAfter (now : Instant) (r : Relay) : RelayEvent → List (String × Instant)
  | .inbound neighbor _ =>
    if r.isLinked neighbor then r.accepted
    else r.accepted.filter (·.1 ≠ neighbor) ++ [(neighbor, now)]
  | .sweep => writtenWithin now (acceptedFor? r.config) r.accepted
  | _ => r.accepted

/-- Whether a scan is under way after an event. -/
def scanningAfter (r : Relay) : RelayEvent → Bool
  | .scanEnded => false
  | .rescan scans => r.scanning || scans
  | _ => r.scanning

/-- What the relay has to say of its neighbours. -/
def honestState (r : Relay) : ChannelState :=
  if r.links = [] ∧ r.accepted = [] then .connecting else .connected

/-- Of all requests, those for links and scans start something. -/
def starts (requests : List RelayRequest) : List RelayRequest :=
  requests.filter fun
    | .link _ | .scan => true
    | .deliver _ | .advertise => false

/-- What an event makes the relay start. -/
def startsAfter (r : Relay) : RelayEvent → List RelayRequest
  | .discovered neighbor =>
    if r.isLinked neighbor || r.pending.contains neighbor then [] else [.link neighbor]
  | .rescan scans => if scans && !r.scanning then [.scan] else []
  | _ => []

theorem starts_applyAll (actions : List RelayAction) (r : Relay) :
    starts (applyAll actions r).1 = [] := by
  induction actions generalizing r with
  | nil => rfl
  | cons a actions ih =>
      cases a with
      | deliver m => exact ih r
      | transmit frame => exact ih (r.transmit frame)

theorem starts_handle (now : Instant) (r : Relay) (e : RelayEvent) :
    starts (r.handle now e).1 = r.startsAfter e := by
  cases e with
  | outbound id timestamp m => exact starts_applyAll _ _
  | inbound neighbor bytes => exact starts_applyAll _ _
  | discovered neighbor =>
      simp only [handle, startsAfter]
      split <;> rfl
  | rescan scans =>
      simp only [handle, startsAfter]
      cases scans <;> cases r.scanning <;> rfl
  | linked _ | linkFailed _ | linkClosed _ | scanEnded | sweep => rfl

theorem updateState_eq (r : Relay) : r.updateState = { r with state := r.honestState } := by
  simp [updateState, honestState]

theorem writtenWithin_sublist (now : Instant) (limit? : Option Duration)
    (accepted : List (String × Instant)) :
    (writtenWithin now limit? accepted).Sublist accepted := by
  cases limit? with
  | none => exact List.Sublist.refl _
  | some limit => exact List.filter_sublist

/-- What an event makes of the tables, and that the state goes on to tell what they hold. -/
structure TablesAfter (now : Instant) (r : Relay) (e : RelayEvent) (after : Relay) : Prop where
  config : after.config = r.config
  pending : after.pending = r.pendingAfter e
  accepted : after.accepted = acceptedAfter now r e
  scanning : after.scanning = r.scanningAfter e
  state : r.state = r.honestState → after.state = after.honestState

theorem tablesAfter_handle (now : Instant) (r : Relay) (e : RelayEvent) :
    TablesAfter now r e (r.handle now e).2 := by
  cases e with
  | outbound id timestamp m =>
      simp only [handle, applyAll_eq]
      exact ⟨rfl, rfl, rfl, rfl, fun hstate => hstate⟩
  | inbound neighbor bytes =>
      simp only [handle, applyAll_eq]
      cases hlinked : r.isLinked neighbor with
      | true => exact ⟨rfl, rfl, by simp [acceptedAfter, hlinked], rfl, id⟩
      | false =>
          simp only [accept, updateState_eq]
          exact ⟨rfl, rfl, by simp [acceptedAfter, hlinked], rfl, fun _ => rfl⟩
  | discovered neighbor =>
      simp only [handle]
      split
      · rename_i hknown
        exact ⟨rfl, by rw [pendingAfter, if_pos hknown], rfl, rfl, id⟩
      · rename_i hnew
        exact ⟨rfl, by rw [pendingAfter, if_neg hnew], rfl, rfl, id⟩
  | rescan scans =>
      simp only [handle]
      cases hscanning : r.scanning with
      | true => exact ⟨rfl, rfl, rfl, by simp [scanningAfter, hscanning], id⟩
      | false => cases scans <;> exact ⟨rfl, rfl, rfl, by simp [scanningAfter, hscanning], id⟩
  | sweep =>
      simp only [handle, sweep, updateState_eq]
      split
      · rename_i hlength
        have hkept := (writtenWithin_sublist now _ r.accepted).eq_of_length hlength
        refine ⟨rfl, rfl, rfl, rfl, fun hstate => ?_⟩
        simpa only [honestState, hkept] using hstate
      · exact ⟨rfl, rfl, rfl, rfl, fun _ => rfl⟩
  | linked neighbor =>
      simp only [handle, addLink, updateState_eq]
      exact ⟨rfl, rfl, rfl, rfl, fun _ => rfl⟩
  | linkClosed neighbor =>
      simp only [handle, updateState_eq]
      exact ⟨rfl, rfl, rfl, rfl, fun _ => rfl⟩
  | linkFailed _ | scanEnded => exact ⟨rfl, rfl, rfl, rfl, id⟩

theorem count_filter_ne (l : List String) (m n : String) :
    (l.filter (· ≠ m)).count n = if m = n then 0 else l.count n := by
  by_cases hm : m = n
  · rw [if_pos hm, List.count_eq_zero]
    intro hmem
    have hne := (List.mem_filter.mp hmem).2
    simp [hm] at hne
  · rw [if_neg hm]
    exact List.count_filter (by simpa using Ne.symm hm)

/-- How many links a neighbour has. -/
def linkCount (n : String) (r : Relay) : Nat := (r.links.map (·.1)).count n

theorem isLinked_iff : r.isLinked n = true ↔ 0 < r.linkCount n := by
  simp [linkCount, List.count_pos_iff, isLinked]

theorem linkCount_handle (n : String) (now : Instant) (r : Relay) (e : RelayEvent) :
    (r.handle now e).2.linkCount n =
      if e = .linked n then 1 else if e = .linkClosed n then 0 else r.linkCount n := by
  have hfilter : ∀ m, ((r.links.filter (·.1 ≠ m)).map (·.1)).count n =
      if m = n then 0 else r.linkCount n := by
    intro m
    rw [linkCount, ← count_filter_ne, List.filter_map]
    rfl
  rw [linkCount, links_handle]
  cases e with
  | linked m =>
      simp only [linksAfter, List.map_append, List.count_append, hfilter]
      by_cases hm : m = n <;> simp [hm]
  | linkClosed m =>
      simp only [linksAfter, hfilter]
      by_cases hm : m = n <;> simp [hm]
  | outbound _ _ _ | inbound _ _ | discovered _ | linkFailed _ | scanEnded | rescan _ | sweep =>
      simp [linksAfter, linkCount]

theorem pendingCount_handle (n : String) (now : Instant) (r : Relay) (e : RelayEvent) :
    (r.handle now e).2.pending.count n =
      if e = .linked n ∨ e = .linkFailed n then 0
      else r.pending.count n + (r.startsAfter e).count (.link n) := by
  rw [(tablesAfter_handle now r e).pending]
  cases e with
  | discovered m =>
      simp only [pendingAfter, startsAfter]
      by_cases hknown : (r.isLinked m || r.pending.contains m) = true
      · rw [if_pos hknown, if_pos hknown]
        simp
      · rw [if_neg hknown, if_neg hknown, List.count_append]
        by_cases hm : m = n <;> simp [hm]
  | linked m =>
      simp only [pendingAfter, startsAfter, count_filter_ne]
      by_cases hm : m = n <;> simp [hm]
  | linkFailed m =>
      simp only [pendingAfter, startsAfter, count_filter_ne]
      by_cases hm : m = n <;> simp [hm]
  | rescan scans =>
      simp only [pendingAfter, startsAfter]
      by_cases hscans : (scans && !r.scanning) = true <;> simp [hscans]
  | outbound _ _ _ | inbound _ _ | linkClosed _ | scanEnded | sweep =>
      simp [pendingAfter, startsAfter]

/-- Scans that are under way, as a number. -/
theorem scanning_handle (now : Instant) (r : Relay) (e : RelayEvent) :
    (r.handle now e).2.scanning.toNat =
      if e = .scanEnded then 0 else r.scanning.toNat + (r.startsAfter e).count .scan := by
  rw [(tablesAfter_handle now r e).scanning]
  cases e with
  | rescan scans =>
      simp only [scanningAfter, startsAfter]
      cases scans <;> cases r.scanning <;> rfl
  | discovered m =>
      rw [if_neg nofun]
      simp only [scanningAfter, startsAfter]
      split <;> rfl
  | scanEnded => rfl
  | outbound _ _ _ | inbound _ _ | linked _ | linkFailed _ | linkClosed _ | sweep => rfl

end Relay

end PeerCall.Mesh
