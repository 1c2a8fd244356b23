import PeerCall.Handshake.Session

/-!
# What comes of a reaction

A reaction ends well or with a failure, and either way it leaves a session. The outcomes of the
parts of a reaction are put together here, and with them whatever holds between a session before and
after: what every part keeps, the whole keeps, also if it fails half-way.
-/
namespace PeerCall.Handshake

variable {σ α β : Type} {s s' t : Session σ}

/-- How a reaction ends, and the session that it leaves. -/
def outcome (r : Reaction σ α) (s : Session σ) : Except Failure α × Session σ := r.run.run s

theorem after_eq (r : Reaction σ α) (s : Session σ) : s.after r = (outcome r s).2 := rfl

@[simp] theorem outcome_pure (a : α) (s : Session σ) :
    outcome (pure a : Reaction σ α) s = (.ok a, s) := rfl

@[simp] theorem outcome_throw (e : Failure) (s : Session σ) :
    outcome (throw e : Reaction σ α) s = (.error e, s) := rfl

@[simp] theorem outcome_get (s : Session σ) :
    outcome (get : Reaction σ (Session σ)) s = (.ok s, s) := rfl

@[simp] theorem outcome_set (t s : Session σ) :
    outcome (set t : Reaction σ PUnit) s = (.ok PUnit.unit, t) := rfl

@[simp] theorem outcome_modify (g : Session σ → Session σ) (s : Session σ) :
    outcome (modify g : Reaction σ PUnit) s = (.ok PUnit.unit, g s) := rfl

@[simp] theorem outcome_does (d : Deed) (s : Session σ) :
    outcome (does d) s = (.ok (), { s with log := s.log ++ [(s.stage, d)] }) := rfl

@[simp] theorem outcome_tell (n : Notice) (s : Session σ) :
    outcome (tell n) s = (.ok (), { s with log := s.log ++ [(s.stage, .notice n)] }) := rfl

@[simp] theorem outcome_enter (stage : Stage) (s : Session σ) :
    outcome (enter stage) s = (.ok (), { s with stage }) := rfl

/-- One reaction behind the other: the second one starts where the first one ended well. -/
theorem outcome_bind (r : Reaction σ α) (f : α → Reaction σ β) (s : Session σ) :
    outcome (r >>= f) s =
      match outcome r s with
      | (.ok a, s') => outcome (f a) s'
      | (.error e, s') => (.error e, s') := by
  simp only [outcome, ExceptT.run_bind, StateT.run_bind]
  rcases h : r.run.run s with ⟨o, s'⟩
  cases o <;> rfl

/-- A sequence that ends well has a first part that ends well, and goes on from there. -/
theorem outcome_bind_eq_ok {r : Reaction σ α} {f : α → Reaction σ β} {b : β}
    (h : outcome (r >>= f) s = (.ok b, s')) :
    ∃ a t, outcome r s = (.ok a, t) ∧ outcome (f a) t = (.ok b, s') := by
  rw [outcome_bind] at h
  rcases hr : outcome r s with ⟨_ | a, t⟩
  · rw [hr] at h
    cases h
  · rw [hr] at h
    exact ⟨a, t, rfl, h⟩

/-- A failure is handled where it left the session. -/
theorem outcome_tryCatch (r : Reaction σ α) (handle : Failure → Reaction σ α) (s : Session σ) :
    outcome (tryCatch r handle) s =
      match outcome r s with
      | (.ok a, s') => (.ok a, s')
      | (.error e, s') => outcome (handle e) s' := by
  change ((ExceptT.tryCatch r handle).run.run s) = _
  simp only [outcome, ExceptT.tryCatch, ExceptT.run, ExceptT.mk, StateT.run_bind]
  rcases h : StateT.run (ExceptT.run r) s with ⟨o, s'⟩
  simp only [ExceptT.run] at h
  cases o <;> simp [h] <;> rfl

/-- A call to the media engine ends as the engine says, and the engine keeps what it did. -/
theorem outcome_engage (call : EngineCall) (during : Activity) (run : σ → Except MediaError α × σ)
    (s : Session σ) :
    outcome (engage call during run) s =
      match run s.media with
      | (.ok a, media) => (.ok a, { s with media, log := s.log ++ [(s.stage, .engine call)] })
      | (.error cause, media) => (.error (.media during cause),
          { s with media, log := s.log ++ [(s.stage, .engine call)] }) := by
  rcases hrun : run s.media with ⟨_ | _, media⟩ <;>
    simp only [engage, outcome_bind, outcome_does, outcome_get, hrun, outcome_modify,
      outcome_throw, outcome_pure]

/-- The form in which a signal goes out. Only sealing counts anything, and only sealing can fail. -/
theorem outcome_dress (p : Party σ) (signal : Signal) (s : Session σ) :
    outcome (dress p signal) s =
      match s.peerKey with
      | some key =>
        if isConfidential signal && p.config.encryptSignaling then
          match Message.sealFor p.suite key (p.ephemeral s.sealedCount) ⟨p.sender, signal⟩ with
          | .ok envelope => (.ok envelope, { s with sealedCount := s.sealedCount + 1 })
          | .error cause => (.error (.sealing cause), { s with sealedCount := s.sealedCount + 1 })
        else (.ok ⟨p.sender, signal⟩, s)
      | none => (.ok ⟨p.sender, signal⟩, s) := by
  rw [dress, outcome_bind, outcome_get]
  cases hkey : s.peerKey with
  | none => simp only [hkey, outcome_pure]
  | some key =>
      by_cases hseal : (isConfidential signal && p.config.encryptSignaling) = true
      · simp only [hkey, hseal, if_true, outcome_bind, outcome_set]
        cases Message.sealFor p.suite key (p.ephemeral s.sealedCount) ⟨p.sender, signal⟩ <;> rfl
      · simp only [hkey, hseal, Bool.false_eq_true, if_false, outcome_pure]

/-! ## When the channel connects -/

/-- The peer is found, if the session waits for it. -/
def findPeer : Reaction σ Unit := do
  let s ← get
  if s.stage.isPreNegotiation || s.stage = .reconnecting then enter .peerFound

/-- The session tells its key, if sealing is on. -/
def introduce (p : Party σ) (now : Instant) : Reaction σ Unit :=
  if p.config.encryptSignaling then sendIdentity p now else pure ()

/-- The session says that it is ready, if there is a text for that. -/
def declareReady (p : Party σ) (now : Instant) : Reaction σ Unit :=
  match p.config.readyMessage with
  | some text => sendGuarded p now (.chat text)
  | none => pure ()

/-- Only the first of the four parts looks at the session. -/
theorem onConnected_eq (p : Party σ) (now : Instant) : onConnected p now = (do
    findPeer
    introduce p now
    announce p now
    declareReady p now) := by
  unfold onConnected findPeer introduce declareReady
  rw [bind_assoc]
  refine bind_congr fun s => ?_
  dsimp only
  split <;> split <;> rfl

theorem outcome_findPeer (s : Session σ) :
    outcome findPeer s = (.ok (),
      if s.stage.isPreNegotiation || s.stage = .reconnecting then { s with stage := .peerFound }
      else s) := by
  rw [findPeer, outcome_bind, outcome_get]
  dsimp only
  split <;> rfl

/-! ## What reactions keep -/

/-- However a reaction ends, the session before and the session after are related. -/
def Within (R : Session σ → Session σ → Prop) (r : Reaction σ α) : Prop :=
  ∀ s, R s (outcome r s).2

section
variable {R R' : Session σ → Session σ → Prop} {r : Reaction σ α} {f : α → Reaction σ β}

theorem Within.result (h : Within R r) (s : Session σ) :
    ∃ o s', outcome r s = (o, s') ∧ R s s' := ⟨_, _, rfl, h s⟩

theorem Within.mono (h : Within R r) (hRR' : ∀ s s', R s s' → R' s s') : Within R' r :=
  fun s => hRR' _ _ (h s)

theorem within_pure (hrefl : ∀ s, R s s) (a : α) : Within R (pure a : Reaction σ α) := hrefl

theorem within_throw (hrefl : ∀ s, R s s) (e : Failure) : Within R (throw e : Reaction σ α) :=
  hrefl

theorem within_get (hrefl : ∀ s, R s s) : Within R (get : Reaction σ (Session σ)) := hrefl

theorem within_modify {g : Session σ → Session σ} (hg : ∀ s, R s (g s)) :
    Within R (modify g : Reaction σ PUnit) := hg

theorem Within.bind (htrans : ∀ {s t u}, R s t → R t u → R s u) (hr : Within R r)
    (hf : ∀ a, Within R (f a)) : Within R (r >>= f) := by
  intro s
  obtain ⟨o, s', ho, hfirst⟩ := hr.result s
  rw [outcome_bind, ho]
  cases o with
  | error e => exact hfirst
  | ok a => exact htrans hfirst (hf a s')

theorem Within.tryCatch {handle : Failure → Reaction σ α}
    (htrans : ∀ {s t u}, R s t → R t u → R s u) (hr : Within R r)
    (hhandle : ∀ e, Within R (handle e)) : Within R (tryCatch r handle) := by
  intro s
  obtain ⟨o, s', ho, hfirst⟩ := hr.result s
  rw [outcome_tryCatch, ho]
  cases o with
  | error e => exact htrans hfirst (hhandle e s')
  | ok a => exact hfirst

end

end PeerCall.Handshake
