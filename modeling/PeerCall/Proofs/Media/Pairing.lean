import PeerCall.Proofs.Media.Probe

/-!
# Any calls to the probe engine

Whatever is asked of a probe engine, in whatever order, what it reports tells what it has in place:
it has a session unless it is idle or closed, a fresh session has no description, and a connection
is reported only of an offer of one side and an answer of the other. A call that fails changes
nothing.
-/
namespace PeerCall

/-- How a call to a media engine ends, with the text if it makes a description, and the state that
it leaves. -/
def MediaEngine.perform {σ : Type} (e : MediaEngine σ) (call : EngineCall) (s : σ) :
    Except MediaError (Option String) × σ :=
  match call with
  | .setUp video => (e.setUp video s).map (·.map fun _ => none) id
  | .createOffer => (e.createOffer s).map (·.map some) id
  | .createAnswer => (e.createAnswer s).map (·.map some) id
  | .setRemote kind sdp => (e.setRemote kind sdp s).map (·.map fun _ => none) id
  | .addIce candidate => (e.addIce candidate s).map (·.map fun _ => none) id
  | .close => (.ok none, e.close s)
  | .restartIce => (e.restartIce?.getD e.createOffer s).map (·.map some) id

namespace Probe

/-- What can be asked of a probe engine. -/
inductive Request
  | call (call : EngineCall)
  | bitrate (kbps : Nat)

/-- How a request ends that is made when the clock has this id for a new session. -/
def respond (host : Net.Address) (p : Probe) (id : UInt64) :
    Request → Except MediaError (Option String) × Probe
  | .call call => (engine host).perform call { p with nextId := id }
  | .bitrate kbps => (.ok none, allowBitrate kbps { p with nextId := id })

/-- The engine after requests, each made at an id of the clock. -/
def afterRequests (host : Net.Address) (p : Probe) (requests : List (UInt64 × Request)) : Probe :=
  requests.foldl (fun p x => (p.respond host x.1 x.2).2) p

/-- An offer of one side and an answer of the other are in place. -/
def Paired (p : Probe) : Prop :=
  ∃ s, p.session = some s ∧
    (s.ours = some .offer ∧ s.theirs = some .answer ∨
      s.ours = some .answer ∧ s.theirs = some .offer)

/-- What an engine reports fits what it has in place, and a connection is one of a pair. -/
structure Sound (p : Probe) : Prop where
  coherent : p.Coherent
  paired : p.report.value = .connected → p.Paired

variable {host : Net.Address} {p p' : Probe} {s s' : ProbeSession}

/-! ## One call -/

theorem paired_settle {paired : Bool} (h : paired = true → p.Paired) :
    (settle paired p).report.value = .connected → (settle paired p).Paired := by
  rw [settle, Watched.value_set]
  cases paired with
  | true => exact fun _ => h rfl
  | false => exact fun hconnected => absurd hconnected (by decide)

/-- Only the descriptions matter for a pair. -/
theorem Paired.of_eq (h : p.Paired) (hp : p.session = some s) (hp' : p'.session = some s')
    (hours : s'.ours = s.ours) (htheirs : s'.theirs = s.theirs) : p'.Paired := by
  obtain ⟨t, ht, hpair⟩ := h
  cases hp.symm.trans ht
  exact ⟨s', hp', by rwa [hours, htheirs]⟩

theorem Sound.makeDescription (hp : p.Sound) (kind : SdpKind) (s : ProbeSession) :
    (p.makeDescription host kind s).2.Sound := by
  refine ⟨hp.coherent.describes (describes_makeDescription host kind s p), ?_⟩
  unfold Probe.makeDescription
  split
  · exact hp.paired
  · rename_i htheirs
    refine paired_settle fun hpaired => ⟨_, rfl, Or.inr ?_⟩
    cases kind with
    | offer => cases hpaired
    | answer => exact ⟨rfl, by simpa using htheirs⟩

theorem Sound.describe (hp : p.Sound) (kind : SdpKind) : (describe host kind p).2.Sound := by
  unfold Probe.describe
  split
  · exact hp.makeDescription kind _
  · exact hp

theorem Sound.restart (hp : p.Sound) : (restart host p).2.Sound := by
  unfold Probe.restart
  split
  · exact hp.makeDescription .offer _
  · exact hp

theorem Sound.setRemote (hp : p.Sound) (kind : SdpKind) (sdp : String) :
    (setRemote kind sdp p).2.Sound := by
  refine ⟨hp.coherent.describes (describes_setRemote kind sdp p), ?_⟩
  unfold Probe.setRemote
  split
  · exact hp.paired
  · split
    · exact hp.paired
    · split
      · exact hp.paired
      · rename_i hours
        refine paired_settle fun hpaired => ⟨_, rfl, Or.inl ?_⟩
        have hkind : kind = .answer := of_decide_eq_true hpaired
        exact ⟨by simpa [hkind] using hours, by rw [hkind]⟩

theorem Sound.setUp (hp : p.Sound) (video : Bool) : (setUp video p).2.Sound := by
  refine ⟨hp.coherent.setUp video, ?_⟩
  cases h : p.session with
  | none =>
      obtain ⟨s, hs, -⟩ := setUp_of_none h video
      rw [hs, Watched.value_set]
      exact fun hready => absurd hready (by decide)
  | some s =>
      rw [setUp_of_session h]
      exact fun hconnected => (hp.paired hconnected).of_eq h rfl rfl rfl

theorem Sound.addIce (hp : p.Sound) : (addIce p).2.Sound := by
  refine ⟨hp.coherent.addIce, ?_⟩
  unfold Probe.addIce
  split
  · rename_i s h
    exact fun hconnected => (hp.paired hconnected).of_eq h rfl rfl rfl
  · exact hp.paired

theorem Sound.allowBitrate (hp : p.Sound) (kbps : Nat) : (allowBitrate kbps p).Sound := by
  refine ⟨hp.coherent.of_eq (negotiating?_allowBitrate kbps p) rfl, fun hconnected => ?_⟩
  have hpaired := hp.paired hconnected
  obtain ⟨s, hs, -⟩ := id hpaired
  have hallowed : (Probe.allowBitrate kbps p).session = some { s with bitrate := some kbps } := by
    rw [Probe.allowBitrate, hs]
    rfl
  exact hpaired.of_eq hs hallowed rfl rfl

theorem sound_close (p : Probe) : (close p).Sound := by
  refine ⟨coherent_close p, ?_⟩
  rw [close, Watched.value_set]
  exact fun hclosed => absurd hclosed (by decide)

theorem Sound.nextId (hp : p.Sound) (nextId : UInt64) : Sound { p with nextId } :=
  ⟨hp.coherent.of_eq rfl rfl, hp.paired⟩

/-- **A call keeps an engine sound.** -/
theorem Sound.perform (hp : p.Sound) (call : EngineCall) :
    ((engine host).perform call p).2.Sound := by
  cases call with
  | setUp video => exact hp.setUp video
  | createOffer => exact hp.describe .offer
  | createAnswer => exact hp.describe .answer
  | setRemote kind sdp => exact hp.setRemote kind sdp
  | addIce candidate => exact hp.addIce
  | close => exact sound_close p
  | restartIce => exact hp.restart

/-! ## Calls that fail -/

/-- Where a call fails, nothing has changed. -/
def Atomic {α : Type} (p : Probe) (result : Except MediaError α × Probe) : Prop :=
  ∀ cause, result.1 = .error cause → result.2 = p

section
variable {α β : Type} {result : Except MediaError α × Probe}

theorem Atomic.map (h : p.Atomic result) (g : α → β) : p.Atomic (result.map (·.map g) id) := by
  rcases result with ⟨_ | _, q⟩
  · exact fun _ _ => h _ rfl
  · exact fun _ herror => nomatch herror

theorem Describes.atomic (h : p.Describes result) : p.Atomic result := by
  rcases result with ⟨_ | _, q⟩
  · exact fun _ _ => h
  · exact fun _ herror => nomatch herror

end

theorem atomic_setUp (video : Bool) (p : Probe) : p.Atomic (setUp video p) := by
  unfold setUp
  split <;> exact fun _ herror => nomatch herror

theorem atomic_addIce (p : Probe) : p.Atomic (addIce p) := by
  unfold addIce
  split
  · exact fun _ herror => nomatch herror
  · exact fun _ _ => rfl

/-- **A call that fails changes nothing.** -/
theorem atomic_perform (host : Net.Address) (call : EngineCall) (p : Probe) :
    p.Atomic ((engine host).perform call p) := by
  cases call with
  | setUp video => exact (atomic_setUp video p).map _
  | createOffer => exact (describes_describe host .offer p).atomic.map _
  | createAnswer => exact (describes_describe host .answer p).atomic.map _
  | setRemote kind sdp => exact (describes_setRemote kind sdp p).atomic.map _
  | addIce candidate => exact (atomic_addIce p).map _
  | close => exact fun _ herror => nomatch herror
  | restartIce => exact (describes_restart host p).atomic.map _

/-! ## Any requests -/

theorem Sound.respond (hp : p.Sound) (id : UInt64) (request : Request) :
    (p.respond host id request).2.Sound := by
  cases request with
  | call call => exact (hp.nextId id).perform call
  | bitrate kbps => exact (hp.nextId id).allowBitrate kbps

theorem sound_afterRequests (hp : p.Sound) (requests : List (UInt64 × Request)) :
    (p.afterRequests host requests).Sound := by
  induction requests generalizing p with
  | nil => exact hp
  | cons x requests ih => exact ih (hp.respond x.1 x.2)

theorem sound_start (nextId : UInt64) : (start nextId).Sound :=
  ⟨coherent_start nextId, nofun⟩

theorem Coherent.isSome_iff (h : p.Coherent) :
    p.session.isSome = true ↔ p.report.value ≠ .idle ∧ p.report.value ≠ .closed := by
  have hsession : p.negotiating?.isSome = p.session.isSome := Option.isSome_map
  cases h with
  | absent h hreport => rcases hreport with hreport | hreport <;> simp [← hsession, h, hreport]
  | fresh h hreport => simp [← hsession, h, hreport]
  | negotiates h =>
      rcases h.report with hreport | hreport <;> simp [← hsession, h.described, hreport]

/-- A fresh session has no description. -/
theorem Coherent.fresh_of_ready (h : p.Coherent) (hready : p.report.value = .ready) :
    ∃ s, p.session = some s ∧ s.ours = none ∧ s.theirs = none := by
  cases h with
  | absent _ hreport => simp [hready] at hreport
  | negotiates h => simpa [hready] using h.report
  | fresh h _ =>
      obtain ⟨s, hs, hnone⟩ := Option.map_eq_some_iff.mp h
      exact ⟨s, hs, by simpa using hnone⟩

/-- **What a probe engine reports tells what it has in place**, whatever was asked of it: it has a
session unless it is idle or closed; a fresh session has no description; and a connection is
reported only of an offer of one side and an answer of the other. Whatever is asked next, if that
fails the session, the report and the network paths told are as they were. -/
theorem report_tells_session (host : Net.Address) (nextId : UInt64)
    (requests : List (UInt64 × Request)) :
    let p := (start nextId).afterRequests host requests
    (p.session.isSome = true ↔ p.report.value ≠ .idle ∧ p.report.value ≠ .closed) ∧
    (p.report.value = .ready → ∃ s, p.session = some s ∧ s.ours = none ∧ s.theirs = none) ∧
    (p.report.value = .connected → p.Paired) ∧
    ∀ id request cause, (p.respond host id request).1 = .error cause →
      (p.respond host id request).2.session = p.session ∧
      (p.respond host id request).2.report = p.report ∧
      (p.respond host id request).2.gathered = p.gathered := by
  intro p
  have hp : p.Sound := sound_afterRequests (sound_start nextId) requests
  refine ⟨hp.coherent.isSome_iff, hp.coherent.fresh_of_ready, hp.paired, ?_⟩
  intro id request cause herror
  cases request with
  | call call =>
      have hsame := atomic_perform host call { p with nextId := id } cause herror
      rw [respond, hsame]
      exact ⟨rfl, rfl, rfl⟩
  | bitrate kbps => cases herror

/-- Both sides offer, and this one gives in: the connection is reported of its answer. -/
def crossing : List (UInt64 × Request) :=
  [(7, .call (.setUp true)), (8, .call .createOffer), (9, .call (.setRemote .offer "v=0")),
    (9, .bitrate 300), (9, .call .createAnswer)]

/-- The engine that gave in. -/
def crossed : Probe := (start 0).afterRequests (.v4 127 0 0 1) crossing

/-- The two offers that cross are settled, and an answer to the offer given up is refused. -/
theorem report_tells_session_crossing :
    crossed.report.value = .connected ∧ crossed.Paired ∧
      (crossed.respond (.v4 127 0 0 1) 9 (.call (.setRemote .answer "v=0"))).2.session =
        crossed.session := by
  obtain ⟨-, -, hpaired, hfails⟩ := report_tells_session (.v4 127 0 0 1) 0 crossing
  have hconnected : crossed.report.value = .connected := by decide +kernel
  have hrefused : (crossed.respond (.v4 127 0 0 1) 9 (.call (.setRemote .answer "v=0"))).1.isOk =
      false := by decide +kernel
  cases hresult : (crossed.respond (.v4 127 0 0 1) 9 (.call (.setRemote .answer "v=0"))).1 with
  | ok text =>
      rw [hresult] at hrefused
      cases hrefused
  | error cause => exact ⟨hconnected, hpaired hconnected, (hfails 9 _ cause hresult).1⟩

end Probe

end PeerCall
