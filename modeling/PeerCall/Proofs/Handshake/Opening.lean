import PeerCall.Proofs.Handshake.Sealing

/-!
# What becomes of an envelope

Sealing makes no difference to a session that can open the envelope: it reacts to what is inside. An
envelope that does not decrypt is sealed for somebody else, and one whose sender is not the sender
of its content is not to be trusted; both are passed over. All else that can be wrong with an
envelope is noted as a failure, and that is all that comes of it.
-/
namespace PeerCall

namespace Message

variable {e : Message} {s : Crypto.Suite} {secret : Crypto.SecretKey}

/-- How the opening of an envelope can end. -/
inductive Unsealing (e : Message) : Except EnvelopeError Message → Prop
  | opened {m : Message} (hsender : m.sender = e.sender) (hplain : m.signal.isEnvelope = false) :
    Unsealing e (.ok m)
  | refused : Unsealing e (.error (.crypto .decrypt))
  | garbled (fault : Binary.Fault) : Unsealing e (.error (.encoding fault))
  | disguised : Unsealing e (.error .senderMismatch)
  | nested : Unsealing e (.error .nested)

/-- An envelope opens to a message of its own sender that is none itself, or not at all. -/
theorem unsealing (h : e.signal.isEnvelope = true) (s : Crypto.Suite) (secret : Crypto.SecretKey) :
    Unsealing e (e.openWith s secret) := by
  unfold openWith
  split
  · split
    · rename_i cause hdecrypt
      unfold decryptNumbered at hdecrypt
      split at hdecrypt
      · cases hdecrypt
      · cases hdecrypt
        exact .refused
    · split
      · exact .garbled _
      · split
        · exact .disguised
        · rename_i hsender
          split
          · exact .nested
          · rename_i hplain
            exact .opened (Decidable.not_not.mp hsender) (Bool.eq_false_iff.mpr hplain)
  · rename_i hsignal
    unfold Signal.isEnvelope at h
    split at h
    · rename_i key payload hencrypted
      exact absurd hencrypted (hsignal key payload)
    · cases h

/-- Only an envelope can be refused. -/
theorem isEnvelope_of_openWith {cause : EnvelopeError}
    (h : e.openWith s secret = .error cause) (hcause : cause ≠ .notAnEnvelope) :
    e.signal.isEnvelope = true := by
  unfold openWith at h
  split at h
  · rename_i hsignal
    rw [hsignal]
    rfl
  · cases h
    exact absurd rfl hcause

end Message

namespace Handshake

variable {σ : Type} {p : Party σ} {now : Instant} {s : Session σ} {e m n : Message}

/-! ## Reading -/

/-- What is read is no envelope. -/
theorem Party.isEnvelope_of_read? (h : p.read? m = some n) : n.signal.isEnvelope = false := by
  cases henvelope : m.signal.isEnvelope with
  | false =>
      rw [← p.eq_of_read? h (by rw [henvelope]; exact Bool.false_ne_true)]
      exact henvelope
  | true =>
      have hopen := p.openWith_of_read? h henvelope
      have hunsealing := m.unsealing henvelope p.suite p.keypair.secret
      rw [hopen] at hunsealing
      cases hunsealing with
      | opened _ hplain => exact hplain

theorem Party.read?_of_plain (h : n.signal.isEnvelope = false) : p.read? n = some n :=
  if_neg (by rw [h]; exact Bool.false_ne_true)

theorem Party.read?_of_openWith (h : e.openWith p.suite p.keypair.secret = .ok m)
    (henvelope : e.signal.isEnvelope = true) : p.read? e = some m := by
  rw [Party.read?, if_pos henvelope, h]
  rfl

/-- A message of another device is dispatched, and a failure is noted. -/
theorem handle_message (hother : m.sender ≠ p.sender) (now : Instant) (s : Session σ) :
    s.handle p now (.message m) = s.after (guarded p now (dispatch p now m)) := by
  rw [Session.handle, react, onMessage, if_neg hother]

/-- **A message has the effect of what is read in it**, whether it was sealed or not. -/
theorem handle_of_read? (hother : m.sender ≠ p.sender) (hread : p.read? m = some n)
    (now : Instant) (s : Session σ) :
    s.handle p now (.message m) = s.handle p now (.message n) := by
  have hother' : n.sender ≠ p.sender := by
    rw [← p.sender_of_read? hread]
    exact hother
  have hplain : p.read? n = some n := Party.read?_of_plain (Party.isEnvelope_of_read? hread)
  rw [handle_message hother, handle_message hother', dispatch_of_read? hread,
    dispatch_of_read? hplain]

/-! ## Envelopes that do not open -/

/-- A device passes over an envelope that is sealed for somebody else, or by one who is not its
sender. -/
def Party.PassesOver (p : Party σ) (e : Message) : Prop :=
  e.openWith p.suite p.keypair.secret = .error (.crypto .decrypt) ∨
    e.openWith p.suite p.keypair.secret = .error .senderMismatch

/-- An envelope for somebody else: what was sealed to another key does not decrypt under the key
that this device takes for it. -/
theorem Party.passesOver_of_sealFor {recipient : PublicKey} {ephemeral : Crypto.SecretKey}
    (hseal : m.sealFor p.suite recipient ephemeral = .ok e)
    (hrefused : ∀ payload,
      p.suite.encrypt (envelopeKey p.suite (p.suite.agree ephemeral recipient)) (counterNonce 0)
        (Message.format.encode m) = some payload →
      p.suite.decrypt (envelopeKey p.suite (p.suite.agree p.keypair.secret
        (p.suite.publicKey ephemeral))) (counterNonce 0) payload = none) :
    p.PassesOver e := by
  unfold Message.sealFor encryptNumbered at hseal
  split at hseal
  · cases hseal
  · cases hencrypt : p.suite.encrypt (envelopeKey p.suite (p.suite.agree ephemeral recipient))
        (counterNonce 0) (Message.format.encode m) with
    | none =>
        rw [hencrypt] at hseal
        cases hseal
    | some payload =>
        rw [hencrypt] at hseal
        cases hseal
        refine Or.inl ?_
        simp only [Message.openWith, decryptNumbered, hrefused payload hencrypt]

theorem handle_of_passesOver (hother : e.sender ≠ p.sender) (h : p.PassesOver e) (now : Instant)
    (s : Session σ) : s.handle p now (.message e) = s := by
  have henvelope : e.signal.isEnvelope = true := by
    rcases h with h | h
    · exact Message.isEnvelope_of_openWith h EnvelopeError.noConfusion
    · exact Message.isEnvelope_of_openWith h EnvelopeError.noConfusion
  rw [handle_message hother, dispatch, if_pos henvelope]
  rcases h with h | h <;> rw [h] <;> rfl

/-- The session after a failure was noted: the watchdog is armed if it was not. -/
def Session.noting (p : Party σ) (now : Instant) (failure : Failure) (s : Session σ) : Session σ :=
  { s with
    stage := .failed
    watchdog := some (s.watchdog.getD (now + p.config.watchdogGrace))
    log := s.log ++ [(.failed, .notice (.failed failure))] }

/-- A reaction that ends well needs no guard. -/
theorem after_guarded_of_ok {r : Reaction σ Unit} {t : Session σ}
    (h : outcome r s = (.ok (), t)) : s.after (guarded p now r) = t := by
  rw [after_eq, guarded, outcome_tryCatch, h]

/-- A failure is noted where the reaction left the session. -/
theorem after_guarded_of_error {r : Reaction σ Unit} {t : Session σ} {failure : Failure}
    (h : outcome r s = (.error failure, t)) :
    s.after (guarded p now r) = t.noting p now failure := by
  rw [after_eq, guarded, outcome_tryCatch, h]
  exact congrArg Prod.snd (outcome_fail p now failure t)

theorem handle_of_openWith_error {cause : EnvelopeError} (hother : e.sender ≠ p.sender)
    (h : e.openWith p.suite p.keypair.secret = .error cause)
    (hcause : cause = .nested ∨ ∃ fault, cause = .encoding fault) (now : Instant)
    (s : Session σ) :
    s.handle p now (.message e) = s.noting p now (.opening e.sender cause) := by
  have henvelope : e.signal.isEnvelope = true := by
    refine Message.isEnvelope_of_openWith h ?_
    rcases hcause with rfl | ⟨fault, rfl⟩ <;> exact EnvelopeError.noConfusion
  have hdispatch : dispatch p now e = throw (.opening e.sender cause) := by
    rw [dispatch, if_pos henvelope, h]
    rcases hcause with rfl | ⟨fault, rfl⟩ <;> rfl
  rw [handle_message hother, hdispatch, after_guarded_of_error (outcome_throw _ _)]

/-! ## The whole -/

/-- **Sealing is transparent.** In whatever state a session is, an envelope of another device that
opens has exactly the effect of the message in it, which is a message of the same sender and no
envelope itself. One that does not decrypt, or whose sender is not the sender of its content, has no
effect at all. Otherwise it holds another envelope or no message, and the only effect is that one
failure is noted. -/
theorem envelopes_transparent (p : Party σ) (now : Instant) (s : Session σ) {e : Message}
    (henvelope : e.signal.isEnvelope = true) (hother : e.sender ≠ p.sender) :
    (∀ m, e.openWith p.suite p.keypair.secret = .ok m →
      m.sender = e.sender ∧ m.signal.isEnvelope = false ∧
        s.handle p now (.message e) = s.handle p now (.message m)) ∧
    (p.PassesOver e → s.handle p now (.message e) = s) ∧
    (∀ cause, e.openWith p.suite p.keypair.secret = .error cause → ¬ p.PassesOver e →
      (cause = .nested ∨ ∃ fault, cause = .encoding fault) ∧
        s.handle p now (.message e) = s.noting p now (.opening e.sender cause)) := by
  have hunsealing := e.unsealing henvelope p.suite p.keypair.secret
  refine ⟨?_, fun h => handle_of_passesOver hother h now s, ?_⟩
  · intro m hopen
    have hread := Party.read?_of_openWith hopen henvelope
    exact ⟨(p.sender_of_read? hread).symm, Party.isEnvelope_of_read? hread,
      handle_of_read? hother hread now s⟩
  · intro cause hopen hours
    have hcause : cause = .nested ∨ ∃ fault, cause = .encoding fault := by
      rw [hopen] at hunsealing
      cases hunsealing with
      | nested => exact Or.inl rfl
      | garbled fault => exact Or.inr ⟨fault, rfl⟩
      | refused => exact absurd (Or.inl hopen) hours
      | disguised => exact absurd (Or.inr hopen) hours
    exact ⟨hcause, handle_of_openWith_error hother hopen hcause now s⟩

/-- A host that is bound takes the joiner's announcement, sealed to the host's key, as it takes the
announcement in the clear. -/
theorem envelopes_transparent_join :
    ∃ e, Message.sealFor .standard plainHost.keypair.publicKey peerSecret ⟨"joiner", .join⟩ =
        .ok e ∧
      e.signal.isEnvelope = true ∧ e.sender ≠ plainHost.sender ∧
      (sessionAt plainHost (.start 1) recovery 1).handle plainHost 2 (.message e) =
        (sessionAt plainHost (.start 1) recovery 1).handle plainHost 2
          (.message ⟨"joiner", .join⟩) := by
  have hagree : Crypto.Suite.standard.AgreeOn plainHost.keypair.secret peerSecret := by
    unfold Crypto.Suite.AgreeOn
    decide +kernel
  have hsmall : Message.size ⟨"joiner", .join⟩ ≤ Crypto.Suite.maxPlaintext := by decide +kernel
  obtain ⟨e, hseal⟩ := Message.exists_sealFor Crypto.Suite.decryptsUpTo_standard hsmall rfl
    plainHost.keypair.publicKey peerSecret
  obtain ⟨henvelope, hopens⟩ := Message.openWith_of_sealFor Crypto.Suite.invertible_standard hseal
  have hopen := hopens plainHost.keypair.secret rfl hagree
  have hsender : e.sender = "joiner" :=
    plainHost.sender_of_read? (Party.read?_of_openWith hopen henvelope)
  have hother : e.sender ≠ plainHost.sender := by
    rw [hsender]
    decide
  obtain ⟨htransparent, -, -⟩ := envelopes_transparent plainHost 2
    (sessionAt plainHost (.start 1) recovery 1) henvelope hother
  exact ⟨e, hseal, henvelope, hother, (htransparent _ hopen).2.2⟩

end Handshake

end PeerCall
