import PeerCall.Proofs.Crypto.Envelopes
import PeerCall.Proofs.Handshake.Effects

/-!
# What a session says, and to whom

A device reads a message by opening it, if it is an envelope. What a reaction does is told by what
it makes of the session, apart from log and counters of envelopes, and by what it says: the signals
that the other device reads in the messages sent, in their order. Reactions told in this way do not
fail, and put together they say one thing behind the other.
-/
namespace PeerCall.Handshake

open Crypto

variable {σ α β : Type}

/-! ## Reading -/

/-- How a device reads a message: what an envelope for it holds, or the message itself. -/
def Party.read? (q : Party σ) (m : Message) : Option Message :=
  if m.signal.isEnvelope then (m.openWith q.suite q.keypair.secret).toOption else some m

section
variable {q : Party σ} {m n : Message} {now : Instant}

theorem Party.openWith_of_read? (h : q.read? m = some n) (henvelope : m.signal.isEnvelope = true) :
    m.openWith q.suite q.keypair.secret = .ok n := by
  rw [Party.read?, if_pos henvelope] at h
  cases hopen : m.openWith q.suite q.keypair.secret with
  | error cause =>
      rw [hopen] at h
      cases h
  | ok inner =>
      rw [hopen] at h
      cases h
      rfl

theorem Party.eq_of_read? (h : q.read? m = some n) (hplain : ¬ m.signal.isEnvelope = true) :
    m = n := by
  rw [Party.read?, if_neg hplain] at h
  exact Option.some.inj h

/-- A message that is read shows its true sender. -/
theorem Party.sender_of_read? (h : q.read? m = some n) : m.sender = n.sender := by
  by_cases henvelope : m.signal.isEnvelope = true
  · have hopen := q.openWith_of_read? h henvelope
    unfold Message.openWith at hopen
    split at hopen
    · split at hopen
      · cases hopen
      · split at hopen
        · cases hopen
        · split at hopen
          · cases hopen
          · rename_i hsender
            split at hopen
            · cases hopen
            · cases hopen
              exact (Decidable.not_not.mp hsender).symm
    · cases hopen
  · rw [q.eq_of_read? h henvelope]

/-- A device reacts to what it reads. -/
theorem dispatch_of_read? (h : q.read? m = some n) : dispatch q now m = onPlain q now n := by
  unfold dispatch
  by_cases henvelope : m.signal.isEnvelope = true
  · rw [if_pos henvelope, q.openWith_of_read? h henvelope]
  · rw [if_neg henvelope, q.eq_of_read? h henvelope]

end

/-! ## Saying -/

/-- The message that a deed sends. -/
def Deed.message? : Deed → Option Message
  | .send _ _ m => some m
  | _ => none

/-- All messages that a session has sent. -/
def Session.sent (s : Session σ) : List Message := s.log.filterMap fun x => x.2.message?

/-- A session apart from its log and its count of envelopes. -/
def Session.bare (s : Session σ) : Session σ := { s with sealedCount := 0, log := [] }

/-- The log grows by entries that note no failure, and the other device reads these signals in the
messages sent. -/
def Utters (p q : Party σ) (s s' : Session σ) (signals : List Signal) : Prop :=
  ∃ entries, s'.log = s.log ++ entries ∧ (∀ x ∈ entries, x.2.isFailure = false) ∧
    (entries.filterMap fun x => x.2.message?).map q.read? =
      signals.map fun signal => some ⟨p.sender, signal⟩

section
variable {p q : Party σ} {s t u : Session σ} {words words' : List Signal}

theorem utters_nil (h : t.log = s.log) : Utters p q s t [] :=
  ⟨[], by rw [h, List.append_nil], fun _ hx => absurd hx List.not_mem_nil, rfl⟩

theorem Utters.trans (h : Utters p q s t words) (h' : Utters p q t u words') :
    Utters p q s u (words ++ words') := by
  obtain ⟨entries, hlog, hfine, hread⟩ := h
  obtain ⟨entries', hlog', hfine', hread'⟩ := h'
  refine ⟨entries ++ entries', by rw [hlog', hlog, List.append_assoc], ?_, ?_⟩
  · intro x hx
    rcases List.mem_append.mp hx with hx | hx
    · exact hfine x hx
    · exact hfine' x hx
  · rw [List.filterMap_append, List.map_append, List.map_append, hread, hread']

theorem utters_does {d : Deed} (hfine : d.isFailure = false) (hsilent : d.message? = none)
    (h : t.log = s.log ++ [(s.stage, d)]) : Utters p q s t [] := by
  refine ⟨[(s.stage, d)], h, ?_, ?_⟩
  · intro x hx
    rw [List.mem_singleton.mp hx]
    exact hfine
  · simp only [List.filterMap_cons, hsilent, List.filterMap_nil, List.map_nil]

end

/-! ## Reactions that do not fail -/

/-- From a session of this kind a reaction ends well, with this result, in a session of that kind,
and says these signals. -/
def Runs (p q : Party σ) (r : Reaction σ α) (v : Session σ) (a : α) (w : Session σ)
    (words : List Signal) : Prop :=
  ∀ s, s.bare = v → ∃ t, outcome r s = (.ok a, t) ∧ t.bare = w ∧ Utters p q s t words

section
variable {p q : Party σ} {v w x : Session σ} {a : α} {b : β} {words words' : List Signal}
  {r : Reaction σ α} {f : α → Reaction σ β}

theorem runs_pure (a : α) : Runs p q (pure a) v a v [] :=
  fun s hs => ⟨s, rfl, hs, utters_nil rfl⟩

theorem Runs.bind (hr : Runs p q r v a w words) (hf : Runs p q (f a) w b x words') :
    Runs p q (r >>= f) v b x (words ++ words') := by
  intro s hs
  obtain ⟨t, ho, ht, hwords⟩ := hr s hs
  obtain ⟨u, ho', hu, hwords'⟩ := hf t ht
  refine ⟨u, ?_, hu, hwords.trans hwords'⟩
  rw [outcome_bind, ho]
  exact ho'

/-- A silent part in front. -/
theorem Runs.silent (hr : Runs p q r v a w []) (hf : Runs p q (f a) w b x words) :
    Runs p q (r >>= f) v b x words := hr.bind hf

theorem runs_get {f : Session σ → Reaction σ β}
    (hf : ∀ s, s.bare = v → Runs p q (f s) v b w words) :
    Runs p q (get >>= f) v b w words := by
  intro s hs
  exact hf s hs s hs

/-- A change that neither looks at the log and the count of envelopes nor changes them. -/
theorem runs_modify {g : Session σ → Session σ} (hbare : ∀ s, (g s).bare = g s.bare)
    (hlog : ∀ s, (g s).log = s.log) :
    Runs p q (modify g : Reaction σ PUnit) v PUnit.unit (g v) [] := by
  rintro s rfl
  exact ⟨g s, rfl, hbare s, utters_nil (hlog s)⟩

theorem runs_enter (stage : Stage) : Runs p q (enter stage) v () { v with stage } [] :=
  runs_modify (fun _ => rfl) fun _ => rfl

theorem runs_does {d : Deed} (hfine : d.isFailure = false) (hsilent : d.message? = none) :
    Runs p q (does d) v () v [] := by
  rintro s rfl
  exact ⟨_, rfl, rfl, utters_does hfine hsilent rfl⟩

theorem runs_tell {n : Notice} (hn : (Deed.notice n).isFailure = false) :
    Runs p q (tell n) v () v [] := runs_does hn rfl

/-- A call to the media engine that does not fail. -/
theorem runs_engage {call : EngineCall} {during : Activity} {run : σ → Except MediaError α × σ}
    {media : σ} (h : run v.media = (.ok a, media)) :
    Runs p q (engage call during run) v a { v with media } [] := by
  rintro s rfl
  have h' : run s.media = (.ok a, media) := h
  refine ⟨{ s with media, log := s.log ++ [(s.stage, .engine call)] }, ?_, rfl,
    utters_does rfl rfl rfl⟩
  rw [outcome_engage, h']

theorem Runs.guarded {r : Reaction σ Unit} {now : Instant} (h : Runs p q r v () w words) :
    Runs p q (guarded p now r) v () w words := by
  intro s hs
  obtain ⟨t, ho, ht, hwords⟩ := h s hs
  refine ⟨t, ?_, ht, hwords⟩
  rw [Handshake.guarded, outcome_tryCatch, ho]

/-- What a session becomes, and what it says on the way. -/
theorem Runs.after {s : Session σ} (h : Runs p q r s.bare a w words) :
    (s.after r).bare = w ∧ Utters p q s (s.after r) words := by
  obtain ⟨t, ho, ht, hwords⟩ := h s rfl
  rw [after_eq, ho]
  exact ⟨ht, hwords⟩

/-- A message of another device is reacted to as it is read. -/
theorem runs_onMessage {m n : Message} {now : Instant} (hread : p.read? m = some n)
    (hother : n.sender ≠ p.sender) (h : Runs p q (onPlain p now n) v () w words) :
    Runs p q (onMessage p now m) v () w words := by
  have hsender : ¬ m.sender = p.sender := by
    rw [p.sender_of_read? hread]
    exact hother
  rw [onMessage, if_neg hsender, dispatch_of_read? hread]
  exact h.guarded

end

/-! ## Sending -/

/-- What a device says another one understands: they are different, use the same suite, and what is
sealed to the other's public key, up to a size, the other can open. -/
structure Understood (limit : Nat) (p q : Party σ) : Prop where
  senders : p.sender ≠ q.sender
  suite : p.suite = q.suite
  key : q.keypair.publicKey = q.suite.publicKey q.keypair.secret
  agreement : q.suite.AgreementCommutes
  decrypts : q.suite.DecryptsUpTo limit
  limit_lt : limit < Bytes.bound 8

/-- A signal is small enough to be sealed, if it can come to that. -/
def Sendable (limit : Nat) (p : Party σ) (signal : Signal) : Prop :=
  p.config.encryptSignaling = true → isConfidential signal = true →
    Message.size ⟨p.sender, signal⟩ ≤ limit

/-- A session knows no key of its peer, or the true one. -/
def Trusts (q : Party σ) (s : Session σ) : Prop :=
  s.peerKey = none ∨ s.peerKey = some q.keypair.publicKey

section
variable {limit : Nat} {p q : Party σ} {v : Session σ} {signal : Signal} {now : Instant}

/-- What is not sealed can have any size. -/
theorem sendable_of_open (h : isConfidential signal = false) :
    Sendable limit p signal := by
  intro _ hconfidential
  rw [h] at hconfidential
  cases hconfidential

/-- A signal is dressed so that the other device reads it. -/
theorem dressed (h : Understood limit p q) {s : Session σ} (hkey : Trusts q s)
    (hsize : Sendable limit p signal) (hplain : signal.isEnvelope = false) :
    ∃ m t, outcome (dress p signal) s = (.ok m, t) ∧ t.bare = s.bare ∧ t.log = s.log ∧
      q.read? m = some ⟨p.sender, signal⟩ := by
  have hclear : q.read? ⟨p.sender, signal⟩ = some ⟨p.sender, signal⟩ :=
    if_neg (by rw [hplain]; exact Bool.false_ne_true)
  rw [outcome_dress]
  rcases hkey with hkey | hkey
  · simp only [hkey]
    exact ⟨_, s, rfl, rfl, rfl, hclear⟩
  · simp only [hkey]
    by_cases hseal : (isConfidential signal && p.config.encryptSignaling) = true
    · obtain ⟨hconfidential, hencrypts⟩ := Bool.and_eq_true_iff.mp hseal
      obtain ⟨envelope, hsealed, -, henvelope, hopen⟩ := Message.openWith_sealFor
        (m := ⟨p.sender, signal⟩) h.agreement h.decrypts h.limit_lt
        (hsize hencrypts hconfidential) hplain q.keypair.secret (p.ephemeral s.sealedCount)
      rw [← h.key, ← h.suite] at hsealed
      simp only [hseal, if_true, hsealed]
      refine ⟨envelope, _, rfl, by simp only [Session.bare, hkey], rfl, ?_⟩
      rw [Party.read?, if_pos henvelope, hopen]
      rfl
    · simp only [hseal, Bool.false_eq_true, if_false]
      exact ⟨_, s, rfl, rfl, rfl, hclear⟩

/-- **What is sent is understood.** -/
theorem runs_send (h : Understood limit p q) (hkey : Trusts q v)
    (hsize : Sendable limit p signal) (hplain : signal.isEnvelope = false) :
    Runs p q (send p signal) v () v [signal] := by
  rintro s rfl
  obtain ⟨m, t, ho, hbare, hlog, hread⟩ := dressed h (s := s) hkey hsize hplain
  refine ⟨{ t with log := t.log ++ [(t.stage, .send t.channel false m)] }, ?_, hbare,
    [(t.stage, .send t.channel false m)], by rw [← hlog], ?_, ?_⟩
  · rw [send, post, outcome_bind, ho]
    dsimp only
    rw [outcome_bind, outcome_get]
    exact outcome_does _ _
  · intro x hx
    rw [List.mem_singleton.mp hx]
    rfl
  · simp only [List.filterMap_cons, List.filterMap_nil, Deed.message?, List.map_cons,
      List.map_nil, hread]

theorem runs_sendGuarded (h : Understood limit p q) (hkey : Trusts q v)
    (hsize : Sendable limit p signal) (hplain : signal.isEnvelope = false) :
    Runs p q (sendGuarded p now signal) v () v [signal] :=
  (runs_send h hkey hsize hplain).guarded

end

end PeerCall.Handshake
