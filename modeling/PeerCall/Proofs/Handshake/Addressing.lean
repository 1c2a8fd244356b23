import PeerCall.Handshake.Call
import PeerCall.Proofs.Handshake.Parts

/-!
# Where a session sends

Whatever happens to a session, all that it sends goes to its own channel, and it neither connects
nor gives up a channel: that is for the call to do when it is bound or hangs up.
-/
namespace PeerCall.Handshake

variable {σ : Type} {s s' t u : Session σ} {p : Party σ} {now : Instant}

/-- A deed that concerns no channel but one, by sending on it. -/
def Deed.KeepsTo (channel : Nat) : Deed → Prop
  | .engine _ | .notice _ => True
  | .send c _ _ => c = channel
  | .connect _ | .disconnect _ => False

/-- The channel is the same, and all deeds keep to it. -/
structure Addressed (s s' : Session σ) : Prop where
  channel : s'.channel = s.channel
  deeds : ∃ entries, s'.log = s.log ++ entries ∧ ∀ x ∈ entries, x.2.KeepsTo s.channel

theorem addressed_of_eq (hchannel : s'.channel = s.channel) (hlog : s'.log = s.log) :
    Addressed s s' :=
  ⟨hchannel, [], by rw [hlog, List.append_nil], fun _ h => absurd h List.not_mem_nil⟩

theorem Addressed.refl (s : Session σ) : Addressed s s := addressed_of_eq rfl rfl

theorem Addressed.trans (h : Addressed s t) (h' : Addressed t u) : Addressed s u := by
  obtain ⟨entries, hlog, hentries⟩ := h.deeds
  obtain ⟨entries', hlog', hentries'⟩ := h'.deeds
  refine ⟨h'.channel.trans h.channel, entries ++ entries', ?_, ?_⟩
  · rw [hlog', hlog, List.append_assoc]
  · intro x hx
    rcases List.mem_append.mp hx with hx | hx
    · exact hentries x hx
    · rw [← h.channel]
      exact hentries' x hx

theorem addressed_does {d : Deed} (s : Session σ) (h : d.KeepsTo s.channel) :
    Addressed s (outcome (does d) s).2 := by
  refine ⟨rfl, [(s.stage, d)], rfl, ?_⟩
  intro x hx
  rw [List.mem_singleton.mp hx]
  exact h

theorem addressed_dress (signal : Signal) : Within Addressed (dress p signal) := by
  intro s
  rw [outcome_dress]
  split
  · split
    · split <;> exact addressed_of_eq rfl rfl
    · exact Addressed.refl s
  · exact Addressed.refl s

/-- What is sent goes to the session's channel. -/
theorem addressed_post (everywhere : Bool) (signal : Signal) :
    Within Addressed (post p everywhere signal) :=
  (addressed_dress signal).bind Addressed.trans fun m s =>
    addressed_does (d := .send s.channel everywhere m) s rfl

theorem kept_addressed (p : Party σ) : Kept p (fun _ => True) Addressed where
  trans := Addressed.trans
  aside _ hchannel _ _ hlog := addressed_of_eq hchannel hlog
  moves _ := addressed_of_eq rfl rfl
  engine _ s := addressed_does s trivial
  tell _ s := addressed_does s trivial
  post _ everywhere := addressed_post everywhere _

theorem addressed_onIdentity (sender : String) (key : PublicKey) :
    Within Addressed (onIdentity p now sender key) := by
  have hkept := kept_addressed p
  refine hkept.get_bind fun s => ?_
  split
  · refine hkept.bind (within_modify fun _ => addressed_of_eq rfl rfl) fun _ =>
      hkept.bind (hkept.tell _) fun _ => ?_
    split
    · exact hkept.sendGuarded trivial
    · exact hkept.pure _
  · exact hkept.pure _

/-- **A session keeps to its channel**, whatever it reacts to. -/
theorem addressed_handle (s : Session σ) (e : Event) : Addressed s (s.handle p now e) :=
  (kept_addressed p).react e (fun _ _ => trivial) (fun _ _ _ _ _ _ _ => addressed_onIdentity _ _) s

/-- Binding keeps to the new channel. -/
theorem addressed_bind (s : Session σ) (channel : Nat) :
    Addressed { s with channel } (s.bind p now channel) := by
  let fresh : Session σ := { s with
    channel, mode := if p.config.video then CallMode.video else .voice
    peerKey := none, offerSentAt := none, lastJoin := none, watchdog := none }
  have hfresh : Addressed { s with channel } fresh := addressed_of_eq rfl rfl
  exact hfresh.trans ((kept_addressed p).setUpForBinding fresh)

theorem addressed_firstLook (channel : Watched ChannelState) (b : Binding) (s : Session σ) :
    Addressed s (Call.firstLook p now channel b s).session := by
  have hengine : Addressed s (if (p.engine.report s.media).value = .connected then
      s.handle p now (.engine .connected) else s) := by
    split
    · exact addressed_handle s _
    · exact Addressed.refl s
  rw [Call.firstLook]
  dsimp only
  split
  · exact hengine.trans (addressed_handle _ _)
  · exact hengine

end PeerCall.Handshake
