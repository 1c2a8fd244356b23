import PeerCall.Identity
import PeerCall.Proofs.Binary.Canonical
import PeerCall.Proofs.Binary.Messages
import PeerCall.Proofs.Crypto.Ciphers

/-!
# Envelopes are opened by whom they are sealed for

All that is asked of the suite is that agreement commutes and that plaintexts up to a size decrypt
to themselves. The size of a message is that of its binary form.

The sender is written twice, outside for the relays and inside for the recipient. An envelope under
another label than its content's does not open, and nothing that opens holds another envelope,
whoever made up the plaintext and whatever follows the message in it.
-/
namespace PeerCall

open Binary Binary.Format Crypto

/-- Two secrets agree: each has the same in common with the other's public key. -/
def Crypto.Suite.AgreeOn (s : Suite) (a b : SecretKey) : Prop :=
  s.agree a (s.publicKey b) = s.agree b (s.publicKey a)

namespace Message

variable {m envelope : Message} {s : Suite} {limit : Nat} {recipient key : PublicKey}
  {secret ephemeral : SecretKey} {payload : Bytes}

/-- What comes of a plaintext that starts with the binary form of a message, under any label. -/
theorem openWith_of_plaintext (hfits : m.Fits) (sender : String) {spare : Bytes}
    (hdecrypt : s.decrypt (envelopeKey s (s.agree secret key)) (counterNonce 0) payload =
      some (format.encode m ++ spare)) :
    openWith s secret ⟨sender, .encrypted key payload⟩ =
      if m.sender ≠ sender then .error .senderMismatch
      else if m.signal.isEnvelope then .error .nested
      else .ok m := by
  simp only [openWith, decryptNumbered, hdecrypt, Message.reads hfits spare]

/-- An envelope with the message's binary form in it opens to the message. -/
theorem openWith_of_decrypt (hsize : m.size < Bytes.bound 8) (hplain : m.signal.isEnvelope = false)
    (hdecrypt : s.decrypt (envelopeKey s (s.agree secret key)) (counterNonce 0) payload =
      some (format.encode m)) :
    openWith s secret ⟨m.sender, .encrypted key payload⟩ = .ok m := by
  rw [← List.append_nil (format.encode m)] at hdecrypt
  simp [openWith_of_plaintext (fits_of_size hsize) m.sender hdecrypt, hplain]

/-- Under another label it does not open. -/
theorem openWith_relabelled (hsize : m.size < Bytes.bound 8) {sender : String}
    (hsender : sender ≠ m.sender)
    (hdecrypt : s.decrypt (envelopeKey s (s.agree secret key)) (counterNonce 0) payload =
      some (format.encode m)) :
    openWith s secret ⟨sender, .encrypted key payload⟩ = .error .senderMismatch := by
  rw [← List.append_nil (format.encode m)] at hdecrypt
  simp [openWith_of_plaintext (fits_of_size hsize) sender hdecrypt, Ne.symm hsender]

/-- Whatever is small enough is sealed, to whatever key. -/
theorem exists_sealFor (hdecrypts : s.DecryptsUpTo limit) (hsize : m.size ≤ limit)
    (hplain : m.signal.isEnvelope = false) (recipient : PublicKey) (ephemeral : SecretKey) :
    ∃ envelope, m.sealFor s recipient ephemeral = .ok envelope := by
  obtain ⟨payload, hencrypt, -⟩ := hdecrypts (envelopeKey s (s.agree ephemeral recipient))
    (counterNonce 0) (format.encode m) hsize
  refine ⟨⟨m.sender, .encrypted (s.publicKey ephemeral) payload⟩, ?_⟩
  simp only [sealFor, hplain, encryptNumbered, hencrypt]
  rfl

/-- **An envelope is opened by whom it was sealed for**, whatever secret served for it. -/
theorem openWith_sealFor (hagree : s.AgreementCommutes) (hdecrypts : s.DecryptsUpTo limit)
    (hlimit : limit < Bytes.bound 8) (hsize : m.size ≤ limit)
    (hplain : m.signal.isEnvelope = false) (secret ephemeral : SecretKey) :
    ∃ envelope, m.sealFor s (s.publicKey secret) ephemeral = .ok envelope ∧
      envelope.sender = m.sender ∧ envelope.signal.isEnvelope = true ∧
      envelope.openWith s secret = .ok m := by
  obtain ⟨payload, hencrypt, hdecrypt⟩ := hdecrypts
    (envelopeKey s (s.agree ephemeral (s.publicKey secret))) (counterNonce 0) (format.encode m)
    hsize
  refine ⟨⟨m.sender, .encrypted (s.publicKey ephemeral) payload⟩, ?_, rfl, rfl, ?_⟩
  · simp only [sealFor, hplain, encryptNumbered, hencrypt]
    rfl
  · rw [hagree] at hdecrypt
    exact openWith_of_decrypt (Nat.lt_of_le_of_lt hsize hlimit) hplain hdecrypt

/-- What was sealed is an envelope, and whoever has the same in common with the secret that served
for it as the recipient's key opens it. -/
theorem openWith_of_sealFor (hs : s.Invertible)
    (h : m.sealFor s recipient ephemeral = .ok envelope) :
    envelope.signal.isEnvelope = true ∧
      ∀ secret, s.publicKey secret = recipient → s.AgreeOn secret ephemeral →
        envelope.openWith s secret = .ok m := by
  cases hplain : m.signal.isEnvelope with
  | true =>
      rw [sealFor, if_pos hplain] at h
      cases h
  | false =>
      simp only [sealFor, hplain, encryptNumbered, Bool.false_eq_true, if_false] at h
      cases hencrypt : s.encrypt (envelopeKey s (s.agree ephemeral recipient)) (counterNonce 0)
          (format.encode m) with
      | none =>
          rw [hencrypt] at h
          cases h
      | some payload =>
          rw [hencrypt] at h
          cases h
          refine ⟨rfl, ?_⟩
          rintro secret rfl hagree
          have hdecrypt := hs.decrypts hencrypt
          rw [← hagree] at hdecrypt
          exact openWith_of_decrypt (hs.length_lt hencrypt) hplain hdecrypt

/-- Two messages sealed to one key with the help of one secret are told apart. -/
theorem eq_of_sealFor (hs : s.Invertible) {n : Message}
    (h : m.sealFor s recipient ephemeral = .ok envelope)
    (h' : n.sealFor s recipient ephemeral = .ok envelope) : m = n := by
  have hsealed : ∀ {n : Message}, n.sealFor s recipient ephemeral = .ok envelope →
      ∃ payload, s.encrypt (envelopeKey s (s.agree ephemeral recipient)) (counterNonce 0)
        (format.encode n) = some payload ∧
          envelope = ⟨n.sender, .encrypted (s.publicKey ephemeral) payload⟩ := by
    intro n hn
    unfold sealFor encryptNumbered at hn
    split at hn
    · cases hn
    · cases hencrypt : s.encrypt (envelopeKey s (s.agree ephemeral recipient)) (counterNonce 0)
          (format.encode n) with
      | none =>
          rw [hencrypt] at hn
          cases hn
      | some payload =>
          rw [hencrypt] at hn
          cases hn
          exact ⟨payload, rfl, rfl⟩
  obtain ⟨payload, hencrypt, henvelope⟩ := hsealed h
  obtain ⟨payload', hencrypt', henvelope'⟩ := hsealed h'
  obtain ⟨-, hpayload⟩ := Message.mk.inj (henvelope.symm.trans henvelope')
  cases hpayload
  -- Both binary forms are what the payload decrypts to, and each is read as its message only.
  have hsame : format.encode m = format.encode n :=
    Option.some.inj ((hs.decrypts hencrypt).symm.trans (hs.decrypts hencrypt'))
  have hm := Message.reads (fits_of_size (hs.length_lt hencrypt)) []
  have hn := Message.reads (fits_of_size (hs.length_lt hencrypt')) []
  rw [hsame, hn] at hm
  cases hm
  rfl

/-! ## Labels -/

/-- Envelopes do not nest: none is sealed again. -/
theorem sealFor_of_isEnvelope (h : m.signal.isEnvelope = true) (recipient : PublicKey)
    (ephemeral : SecretKey) : m.sealFor s recipient ephemeral = .error .nested := by
  simp [sealFor, h]

/-- Whether a message can be sealed is up to the encryption of its binary form alone. -/
theorem sealFor_cases (hplain : m.signal.isEnvelope = false) (s : Suite) (recipient : PublicKey)
    (ephemeral : SecretKey) :
    (s.encrypt (envelopeKey s (s.agree ephemeral recipient)) (counterNonce 0) (format.encode m) =
        none ∧
      m.sealFor s recipient ephemeral = .error (.crypto .encrypt)) ∨
    ∃ payload, s.encrypt (envelopeKey s (s.agree ephemeral recipient)) (counterNonce 0)
        (format.encode m) = some payload ∧
      m.sealFor s recipient ephemeral =
        .ok ⟨m.sender, .encrypted (s.publicKey ephemeral) payload⟩ := by
  cases hencrypt : s.encrypt (envelopeKey s (s.agree ephemeral recipient)) (counterNonce 0)
      (format.encode m) with
  | none => simp [sealFor, hplain, encryptNumbered, hencrypt]
  | some payload => simp [sealFor, hplain, encryptNumbered, hencrypt]

/-- **What opens is as labelled**, whoever made it up: a message of the envelope's sender that is no
envelope itself, at the front of what was decrypted. -/
theorem content_of_openWith {inner : Message} (h : envelope.openWith s secret = .ok inner) :
    inner.sender = envelope.sender ∧ inner.signal.isEnvelope = false ∧
      ∃ key payload spare, envelope.signal = .encrypted key payload ∧
        s.decrypt (envelopeKey s (s.agree secret key)) (counterNonce 0) payload =
          some (format.encode inner ++ spare) := by
  unfold openWith at h
  split at h
  · rename_i key payload hsignal
    split at h
    · cases h
    · rename_i plain hplain
      split at h
      · cases h
      · rename_i read spare hread
        split at h
        · cases h
        · rename_i hsender
          split at h
          · cases h
          · rename_i hnested
            cases h
            have hdecrypt : s.decrypt (envelopeKey s (s.agree secret key)) (counterNonce 0)
                payload = some plain := by
              unfold decryptNumbered at hplain
              split at hplain
              · rename_i found
                cases hplain
                exact found
              · cases hplain
            refine ⟨Decidable.not_not.mp hsender, Bool.eq_false_iff.mpr hnested, key, payload,
              spare, hsignal, ?_⟩
            rw [hdecrypt, Message.canonical hread]
  · cases h

end Message

namespace Keypair

variable {s : Suite} {limit : Nat}

/-- **Envelopes open to what was sealed, for the recipient and as labelled.** For all keys of a
recipient and of an envelope that agree, whatever is no envelope and small enough to be encrypted is
sealed, under the label of its sender. A larger one is sealed as well, or the cipher refuses it.
What was sealed opens to the very message, and under any other label not at all. No envelope is
sealed again. And whatever opens, to any keys and whoever made it up, is a message of the sender on
the label that is no envelope itself. -/
theorem sealed_opens_as_labelled (hs : s.Invertible) (hdecrypts : s.DecryptsUpTo limit) :
    (∀ secret ephemeral, s.AgreeOn secret ephemeral → ∀ m : Message,
      m.signal.isEnvelope = false →
        (limit < m.size ∧ m.sealFor s (ofSecret s secret).publicKey ephemeral =
          .error (.crypto .encrypt)) ∨
        ∃ payload, m.sealFor s (ofSecret s secret).publicKey ephemeral =
            .ok ⟨m.sender, .encrypted (s.publicKey ephemeral) payload⟩ ∧
          Message.openWith s (ofSecret s secret).secret
            ⟨m.sender, .encrypted (s.publicKey ephemeral) payload⟩ = .ok m ∧
          ∀ sender, sender ≠ m.sender → Message.openWith s (ofSecret s secret).secret
            ⟨sender, .encrypted (s.publicKey ephemeral) payload⟩ = .error .senderMismatch) ∧
    (∀ (m : Message) recipient ephemeral, m.signal.isEnvelope = true →
      m.sealFor s recipient ephemeral = .error .nested) ∧
    ∀ (k : Keypair) (envelope inner : Message), envelope.openWith s k.secret = .ok inner →
      inner.sender = envelope.sender ∧ inner.signal.isEnvelope = false ∧
        ∃ key payload spare, envelope.signal = .encrypted key payload ∧
          s.decrypt (envelopeKey s (s.agree k.secret key)) (counterNonce 0) payload =
            some (Message.format.encode inner ++ spare) := by
  refine ⟨?_, fun m recipient ephemeral h => Message.sealFor_of_isEnvelope h recipient ephemeral,
    fun k envelope inner h => Message.content_of_openWith h⟩
  intro secret ephemeral hagree m hplain
  rcases Message.sealFor_cases hplain s (s.publicKey secret) ephemeral with
    ⟨hnone, hrefused⟩ | ⟨payload, hencrypt, hsealed⟩
  · left
    refine ⟨?_, hrefused⟩
    by_contra hsmall
    obtain ⟨payload, hencrypt, -⟩ := hdecrypts
      (envelopeKey s (s.agree ephemeral (s.publicKey secret))) (counterNonce 0)
      (Message.format.encode m) (Nat.le_of_not_lt hsmall)
    simp [hnone] at hencrypt
  · right
    have hdecrypt := hs.decrypts hencrypt
    rw [← hagree] at hdecrypt
    have hsize : m.size < Bytes.bound 8 := hs.length_lt hencrypt
    refine ⟨payload, hsealed, Message.openWith_of_decrypt hsize hplain hdecrypt, ?_⟩
    intro sender hsender
    exact Message.openWith_relabelled hsize hsender hdecrypt

/-- A farewell without a sender, sealed by one secret to the holder of another: it opens, and not
under the name of somebody who has no part in it. -/
theorem sealed_opens_as_labelled_anonymous :
    let recipient : SecretKey := ⟨List.replicate 32 1, rfl⟩
    let ephemeral : SecretKey := ⟨List.replicate 32 2, rfl⟩
    Suite.standard.AgreeOn recipient ephemeral ∧
      ∃ payload, Message.sealFor .standard (ofSecret .standard recipient).publicKey ephemeral
          ⟨"", .bye⟩ = .ok ⟨"", .encrypted (Suite.standard.publicKey ephemeral) payload⟩ ∧
        Message.openWith .standard recipient
          ⟨"", .encrypted (Suite.standard.publicKey ephemeral) payload⟩ = .ok ⟨"", .bye⟩ ∧
        Message.openWith .standard recipient
          ⟨"mallory", .encrypted (Suite.standard.publicKey ephemeral) payload⟩ =
            .error .senderMismatch := by
  intro recipient ephemeral
  have hagree : Suite.standard.AgreeOn recipient ephemeral := by
    unfold Suite.AgreeOn
    decide +kernel
  refine ⟨hagree, ?_⟩
  have hsmall : Message.size ⟨"", .bye⟩ ≤ Suite.maxPlaintext := by decide +kernel
  obtain ⟨hsealed, -, -⟩ :=
    sealed_opens_as_labelled Suite.invertible_standard Suite.decryptsUpTo_standard
  rcases hsealed recipient ephemeral hagree ⟨"", .bye⟩ rfl with ⟨hlarge, -⟩ | ⟨payload, h⟩
  · exact absurd hlarge (Nat.not_lt.mpr hsmall)
  · exact ⟨payload, h.1, h.2.1, h.2.2 "mallory" (by decide)⟩

end Keypair

end PeerCall
