import PeerCall.Proofs.Handshake.Parts
import PeerCall.Proofs.Handshake.Watchdog

/-!
# Nothing confidential leaves in the clear

With sealing on, a session that knows its peer's key sends descriptions, network paths and chat only
as envelopes for the holder of that key, on whatever event and over whatever paths; what cannot be
sealed is not sent. The key is the one that the peer told last, since a session forgets it only when
it is bound again.
-/
namespace PeerCall.Handshake

open Crypto

variable {σ : Type} {p : Party σ} {now : Instant} {s s' t u : Session σ}

/-! ## The key told last -/

/-- The key that a message of another device tells, in the clear or in an envelope. -/
def Party.toldKey? (p : Party σ) (m : Message) : Option PublicKey :=
  if m.sender = p.sender then none
  else match (p.read? m).map Message.signal with
    | some (.identity key) => some key
    | _ => none

/-- The peer's key as it is known after an occurrence: a message may tell another one, and binding
forgets it. -/
def Occurrence.knownKey (p : Party σ) (known : Option PublicKey) :
    Occurrence σ → Option PublicKey
  | .bind _ => none
  | .event (.message m) => (p.toldKey? m).or known
  | .event _ | .engine _ => known

/-- The key that was told last in a run, since the last binding. -/
def toldKey (p : Party σ) (run : List (Instant × Occurrence σ)) : Option PublicKey :=
  run.foldl (fun known x => x.2.knownKey p known) none

theorem Party.toldKey?_of_read? {m n : Message} {key : PublicKey} (hother : m.sender ≠ p.sender)
    (hread : p.read? m = some n) (hkey : n.signal = .identity key) : p.toldKey? m = some key := by
  rw [Party.toldKey?, if_neg hother, hread, Option.map_some, hkey]

theorem Party.read?_of_toldKey? {m : Message} {key : PublicKey} (h : p.toldKey? m = some key) :
    m.sender ≠ p.sender ∧ ∃ n, p.read? m = some n ∧ n.signal = .identity key := by
  unfold Party.toldKey? at h
  split at h
  · cases h
  · rename_i hother
    refine ⟨hother, ?_⟩
    split at h
    · rename_i hread
      cases h
      obtain ⟨n, hn, hkey⟩ := Option.map_eq_some_iff.mp hread
      exact ⟨n, hn, hkey⟩
    · cases h

/-! ## The forms in which signals go out -/

/-- Whether a signal goes out under a seal, by what is known of the peer. -/
def isSealed (known : Option PublicKey) (signal : Signal) : Bool :=
  known.isSome && isConfidential signal

/-- The form in which a signal goes out, if it has one: none if it cannot be sealed. -/
def Party.form? (p : Party σ) (known : Option PublicKey) (count : Nat) (signal : Signal) :
    Option Message :=
  match known with
  | some key =>
    if isConfidential signal then
      (Message.sealFor p.suite key (p.ephemeral count) ⟨p.sender, signal⟩).toOption
    else some ⟨p.sender, signal⟩
  | none => some ⟨p.sender, signal⟩

/-- What goes out of signals said one behind the other. Each one to be sealed takes the next
secret, also if it cannot be sealed. -/
def Party.outgoing (p : Party σ) (known : Option PublicKey) : Nat → List Signal → List Message
  | _, [] => []
  | count, signal :: signals =>
    (p.form? known count signal).toList ++
      p.outgoing known (count + if isSealed known signal then 1 else 0) signals

theorem Party.outgoing_append (p : Party σ) (known : Option PublicKey) (count : Nat)
    (signals signals' : List Signal) :
    p.outgoing known count (signals ++ signals') =
      p.outgoing known count signals ++
        p.outgoing known (count + signals.countP (isSealed known)) signals' := by
  induction signals generalizing count with
  | nil => rfl
  | cons signal signals ih =>
      rw [List.cons_append, Party.outgoing, Party.outgoing, ih, List.append_assoc,
        List.countP_cons, Nat.add_assoc, Nat.add_comm (List.countP _ _)]

/-- Whatever goes out is the form of one of the signals, under a secret of its own if it is
sealed. -/
theorem Party.form?_of_mem_outgoing {known : Option PublicKey} {signals : List Signal}
    {count : Nat} {m : Message} (h : m ∈ p.outgoing known count signals) :
    ∃ signal ∈ signals, ∃ i, p.form? known i signal = some m ∧
      (isSealed known signal = true →
        count ≤ i ∧ i < count + signals.countP (isSealed known)) := by
  induction signals generalizing count with
  | nil => cases h
  | cons signal signals ih =>
      rw [Party.outgoing] at h
      rw [List.countP_cons]
      rcases List.mem_append.mp h with h | h
      · refine ⟨signal, List.mem_cons_self, count, Option.mem_toList.mp h, ?_⟩
        intro hsealed
        rw [if_pos hsealed]
        omega
      · obtain ⟨signal', hmem, i, hform, hi⟩ := ih h
        refine ⟨signal', List.mem_cons_of_mem _ hmem, i, hform, ?_⟩
        intro hsealed
        have hbounds := hi hsealed
        omega

/-- Dressing gives the form of a signal and fails where there is none. -/
theorem outcome_dress_form (hsealing : p.config.encryptSignaling = true) (signal : Signal)
    (s : Session σ) :
    ∃ o, o.toOption = p.form? s.peerKey s.sealedCount signal ∧
      outcome (dress p signal) s = (o, { s with
        sealedCount := s.sealedCount + if isSealed s.peerKey signal then 1 else 0 }) := by
  rw [outcome_dress]
  rcases s with ⟨stage, media, channel, mode, known, offerSentAt, lastJoin, watchdog, count, log⟩
  cases known with
  | none => exact ⟨.ok ⟨p.sender, signal⟩, rfl, rfl⟩
  | some key =>
      simp only [Party.form?, hsealing, Bool.and_true, isSealed, Option.isSome_some, Bool.true_and]
      split
      · cases Message.sealFor p.suite key (p.ephemeral count) ⟨p.sender, signal⟩ with
        | ok envelope => exact ⟨.ok envelope, rfl, rfl⟩
        | error cause => exact ⟨.error (.sealing cause), rfl, rfl⟩
      · exact ⟨.ok ⟨p.sender, signal⟩, rfl, rfl⟩

/-! ## What a session sends -/

/-- From a session to a later one these signals were said, with what was known of the peer before,
and all that was sent are their forms. -/
structure Said (p : Party σ) (s s' : Session σ) (signals : List Signal) : Prop where
  deeds : ∃ ds, Added s s' ds ∧
    ds.filterMap Deed.message? = p.outgoing s.peerKey s.sealedCount signals
  sealedCount : s'.sealedCount = s.sealedCount + signals.countP (isSealed s.peerKey)

theorem said_nil {ds : List Deed} (hadded : Added s s' ds) (hsilent : ∀ d ∈ ds, d.message? = none)
    (hcount : s'.sealedCount = s.sealedCount) : Said p s s' [] := by
  refine ⟨⟨ds, hadded, ?_⟩, hcount⟩
  rw [Party.outgoing, List.filterMap_eq_nil_iff]
  exact hsilent

theorem said_of_eq (hlog : s'.log = s.log) (hcount : s'.sealedCount = s.sealedCount) :
    Said p s s' [] := said_nil (added_nil hlog) (List.forall_mem_nil _) hcount

theorem Said.trans {signals signals' : List Signal} (h : Said p s t signals)
    (hkey : t.peerKey = s.peerKey) (h' : Said p t u signals') :
    Said p s u (signals ++ signals') := by
  obtain ⟨⟨ds, hds, hsent⟩, hcount⟩ := h
  obtain ⟨⟨es, hes, hsent'⟩, hcount'⟩ := h'
  refine ⟨⟨ds ++ es, hds.trans hes, ?_⟩, ?_⟩
  · rw [List.filterMap_append, hsent, hsent', Party.outgoing_append, hkey, hcount]
  · rw [hcount', hcount, hkey, List.countP_append, Nat.add_assoc]

/-- The peer's key is the same, and only certain signals were said. -/
structure Covered (p : Party σ) (may : Signal → Prop) (s s' : Session σ) : Prop where
  peerKey : s'.peerKey = s.peerKey
  said : ∃ signals, (∀ signal ∈ signals, may signal) ∧ Said p s s' signals

section
variable {may : Signal → Prop}

theorem covered_nil (hkey : s'.peerKey = s.peerKey) (hsaid : Said p s s' []) :
    Covered p may s s' := ⟨hkey, [], List.forall_mem_nil _, hsaid⟩

theorem covered_does {d : Deed} (hsilent : d.message? = none) :
    Within (Covered p may) (does d) := by
  intro s
  refine covered_nil rfl (said_nil (added_does d s) ?_ rfl)
  intro e he
  rw [List.mem_singleton.mp he]
  exact hsilent

theorem Covered.trans (h : Covered p may s t) (h' : Covered p may t u) : Covered p may s u := by
  obtain ⟨signals, hmay, hsaid⟩ := h.said
  obtain ⟨signals', hmay', hsaid'⟩ := h'.said
  refine ⟨h'.peerKey.trans h.peerKey, signals ++ signals', ?_, hsaid.trans h.peerKey hsaid'⟩
  intro signal hsignal
  rcases List.mem_append.mp hsignal with hsignal | hsignal
  · exact hmay signal hsignal
  · exact hmay' signal hsignal

/-- Posting covers: one signal is said, and its form is sent if there is one. -/
theorem covered_post (hsealing : p.config.encryptSignaling = true) {signal : Signal}
    (hmay : may signal) (everywhere : Bool) :
    Within (Covered p may) (post p everywhere signal) := by
  intro s
  obtain ⟨o, hform, ho⟩ := outcome_dress_form hsealing signal s
  have hcount : ∀ x : Nat, x + (if isSealed s.peerKey signal = true then 1 else 0) =
      x + [signal].countP (isSealed s.peerKey) := by
    intro x
    rw [List.countP_cons, List.countP_nil, Nat.zero_add]
  rw [post, outcome_bind, ho]
  cases o with
  | error cause =>
      refine ⟨rfl, [signal], by simpa using hmay, ⟨[], added_nil rfl, ?_⟩, hcount _⟩
      rw [Party.outgoing, ← hform]
      rfl
  | ok m =>
      refine ⟨rfl, [signal], by simpa using hmay,
        ⟨[.send s.channel everywhere m], ⟨_, rfl, rfl⟩, ?_⟩, hcount _⟩
      rw [Party.outgoing, ← hform]
      rfl

theorem kept_covered (hsealing : p.config.encryptSignaling = true) (may : Signal → Prop) :
    Kept p may (Covered p may) where
  trans := Covered.trans
  aside _ _ hkey hcount hlog := covered_nil hkey (said_of_eq hlog hcount)
  moves _ := covered_nil rfl (said_of_eq rfl rfl)
  engine _ := covered_does rfl
  tell _ := covered_does rfl
  post hmay everywhere := covered_post hsealing hmay everywhere

end

/-! ## One step -/

/-- A new key is noted and answered with one's own, in the clear; a known one is passed over. -/
theorem outcome_onIdentity (hsealing : p.config.encryptSignaling = true) (sender : String)
    (key : PublicKey) (s : Session σ) :
    outcome (onIdentity p now sender key) s =
      (.ok (), if s.peerKey = some key then s
        else { s with
          peerKey := some key
          log := s.log ++ [(s.stage, .notice (.peerIdentified sender)),
            (s.stage, .send s.channel false ⟨p.sender, .identity p.keypair.publicKey⟩)] }) := by
  rw [onIdentity, outcome_bind, outcome_get]
  by_cases hkey : s.peerKey = some key
  · simp only [hkey, ne_eq, not_true_eq_false, if_false, if_true, outcome_pure]
  · simp only [hkey, ne_eq, not_false_eq_true, if_true, if_false, outcome_bind, outcome_modify,
      outcome_tell, hsealing, sendIdentity, sendGuarded, guarded, outcome_tryCatch, send, post,
      outcome_dress, isConfidential, Bool.false_and, Bool.false_eq_true, outcome_get, outcome_does,
      List.append_assoc, List.cons_append, List.nil_append]

/-- What a session makes of a message that tells a key. To tell one's own in the clear cannot fail, so
nothing is left for the guard to note. -/
theorem handle_of_toldKey? (hsealing : p.config.encryptSignaling = true) (now : Instant)
    {m : Message} {key : PublicKey} (h : p.toldKey? m = some key) (s : Session σ) :
    ∃ sender, s.handle p now (.message m) =
      if s.peerKey = some key then s
      else { s with
        peerKey := some key
        log := s.log ++ [(s.stage, .notice (.peerIdentified sender)),
          (s.stage, .send s.channel false ⟨p.sender, .identity p.keypair.publicKey⟩)] } := by
  obtain ⟨hother, n, hread, hkey⟩ := Party.read?_of_toldKey? h
  refine ⟨n.sender, ?_⟩
  rw [Session.handle, after_eq, react, onMessage, if_neg hother, dispatch_of_read? hread, guarded,
    outcome_tryCatch, onPlain, hkey]
  dsimp only
  rw [outcome_onIdentity hsealing]

/-- A message that tells a key: it is the peer's key from then on, and nothing is said but one's
own. -/
theorem said_identity (hsealing : p.config.encryptSignaling = true) (now : Instant) {m : Message}
    {key : PublicKey} (h : p.toldKey? m = some key) (s : Session σ) :
    (s.handle p now (.message m)).peerKey = some key ∧
      ∃ signals, (∀ signal ∈ signals, MaySay p (.message m) signal) ∧
        Said p s (s.handle p now (.message m)) signals := by
  obtain ⟨hother, n, hread, hkey⟩ := Party.read?_of_toldKey? h
  obtain ⟨sender, hhandle⟩ := handle_of_toldKey? hsealing now h s
  rw [hhandle]
  split
  · rename_i hknown
    exact ⟨hknown, [], List.forall_mem_nil _, said_of_eq rfl rfl⟩
  · refine ⟨rfl, [.identity p.keypair.publicKey], ?_, ⟨_, ⟨_, rfl, rfl⟩, ?_⟩, ?_⟩
    · intro signal hsignal
      rw [List.mem_singleton.mp hsignal]
      exact .reply hother hread (by rw [hkey]; exact .identity key)
    · cases hknown : s.peerKey <;> rfl
    · rw [List.countP_singleton]
      simp [isSealed, isConfidential]

/-- All other events leave the peer's key as it is. -/
theorem covered_handle (hsealing : p.config.encryptSignaling = true) (now : Instant) {e : Event}
    (h : ∀ m, e = .message m → p.toldKey? m = none) (s : Session σ) :
    Covered p (MaySay p e) s (s.handle p now e) := by
  refine (kept_covered hsealing (MaySay p e)).react e (fun _ hsignal => hsignal) ?_ s
  intro m n key he hother hread hkey
  have hnone := h m he
  rw [Party.toldKey?_of_read? hother hread hkey] at hnone
  cases hnone

/-- Binding says nothing. -/
theorem said_bind (hsealing : p.config.encryptSignaling = true) (now : Instant) (channel : Nat)
    (s : Session σ) :
    (s.bind p now channel).peerKey = none ∧ Said p s (s.bind p now channel) [] := by
  let fresh : Session σ := { s with
    channel, mode := if p.config.video then CallMode.video else .voice
    peerKey := none, offerSentAt := none, lastJoin := none, watchdog := none }
  obtain ⟨hkey, signals, hnone, hsaid⟩ : Covered p (fun _ => False) fresh (s.bind p now channel) :=
    (kept_covered hsealing fun _ => False).setUpForBinding fresh
  -- No key is known behind the binding; where nothing is said, that makes no difference.
  obtain rfl := List.eq_nil_iff_forall_not_mem.mpr hnone
  exact ⟨hkey, hsaid.deeds, hsaid.sealedCount⟩

/-- **What a step says**, and what it makes of the peer's key. -/
theorem said_step (hsealing : p.config.encryptSignaling = true) (now : Instant) (s : Session σ)
    (o : Occurrence σ) :
    (s.step p now o).peerKey = o.knownKey p s.peerKey ∧
      ∃ signals, (∀ signal ∈ signals, ∃ e, o = .event e ∧ MaySay p e signal) ∧
        Said p s (s.step p now o) signals := by
  have hcovered : ∀ e : Event, (∀ m, e = .message m → p.toldKey? m = none) →
      (s.step p now (.event e)).peerKey = s.peerKey ∧
        ∃ signals, (∀ signal ∈ signals, ∃ e', Occurrence.event e = .event (σ := σ) e' ∧
          MaySay p e' signal) ∧ Said p s (s.step p now (.event e)) signals := by
    intro e he
    obtain ⟨hkey, signals, hmay, hsaid⟩ := covered_handle hsealing now he s
    exact ⟨hkey, signals, fun signal hsignal => ⟨e, rfl, hmay signal hsignal⟩, hsaid⟩
  cases o with
  | bind channel =>
      obtain ⟨hkey, hsaid⟩ := said_bind hsealing now channel s
      exact ⟨hkey, [], List.forall_mem_nil _, hsaid⟩
  | engine media => exact ⟨rfl, [], List.forall_mem_nil _, said_of_eq rfl rfl⟩
  | event e =>
      cases e with
      | message m =>
          cases htold : p.toldKey? m with
          | none =>
              obtain ⟨hkey, hsaid⟩ := hcovered (.message m) (by rintro _ ⟨⟩; exact htold)
              refine ⟨?_, hsaid⟩
              rw [hkey, Occurrence.knownKey, htold, Option.none_or]
          | some key =>
              obtain ⟨hkey, signals, hmay, hsaid⟩ := said_identity hsealing now htold s
              refine ⟨?_, signals, fun signal hsignal => ⟨_, rfl, hmay signal hsignal⟩, hsaid⟩
              rw [Occurrence.knownKey, htold, Option.some_or]
              exact hkey
      | _ => exact hcovered _ fun _ h => nomatch h

/-! ## Runs -/

section
variable (p : Party σ) (media : σ) (run : List (Instant × Occurrence σ))

/-- The messages that a step of a run sends, over whatever paths. -/
def sentAt (k : Nat) : List Message := (deedsAt p media run k).filterMap Deed.message?

end

variable {media : σ} {run : List (Instant × Occurrence σ)} {k : Nat} {o : Occurrence σ}

theorem toldKey_take_succ (hk : run[k]? = some (now, o)) :
    toldKey p (run.take (k + 1)) = o.knownKey p (toldKey p (run.take k)) := by
  simp [toldKey, List.take_add_one, hk]

/-- **A session knows the key that was told last.** -/
theorem peerKey_sessionAt (hsealing : p.config.encryptSignaling = true) (media : σ)
    (run : List (Instant × Occurrence σ)) (k : Nat) :
    (sessionAt p media run k).peerKey = toldKey p (run.take k) := by
  induction k with
  | zero => rfl
  | succ k ih =>
      cases hk : run[k]? with
      | none =>
          rw [sessionAt_succ_of_none hk, ih, List.take_add_one, hk, Option.toList_none,
            List.append_nil]
      | some x =>
          rw [sessionAt_succ hk, (said_step hsealing x.1 _ x.2).1, ih, toldKey_take_succ hk]

/-- What a step of a run says. -/
theorem saidAt (hsealing : p.config.encryptSignaling = true) (media : σ)
    (run : List (Instant × Occurrence σ)) (k : Nat) :
    ∃ signals, (∀ signal ∈ signals, ∃ now e, run[k]? = some (now, .event e) ∧ MaySay p e signal) ∧
      Said p (sessionAt p media run k) (sessionAt p media run (k + 1)) signals := by
  cases hk : run[k]? with
  | none =>
      rw [sessionAt_succ_of_none hk]
      exact ⟨[], List.forall_mem_nil _, said_of_eq rfl rfl⟩
  | some x =>
      obtain ⟨-, signals, hmay, hsaid⟩ := said_step hsealing x.1 (sessionAt p media run k) x.2
      rw [sessionAt_succ hk]
      refine ⟨signals, ?_, hsaid⟩
      intro signal hsignal
      obtain ⟨e, he, hsays⟩ := hmay signal hsignal
      exact ⟨x.1, e, by rw [← he], hsays⟩

/-! ## The whole -/

/-- A form under a key that is known: the signal in the clear, which is not confidential, or an
envelope, which whoever holds the key opens to the signal. -/
theorem form?_cases (hsuite : p.suite.Invertible) {key : PublicKey} {i : Nat} {signal : Signal}
    {m : Message} (h : p.form? (some key) i signal = some m) :
    isConfidential signal = false ∧ m = ⟨p.sender, signal⟩ ∨
      isConfidential signal = true ∧ m.signal.isEnvelope = true ∧
        Message.sealFor p.suite key (p.ephemeral i) ⟨p.sender, signal⟩ = .ok m ∧
        ∀ secret, p.suite.publicKey secret = key → p.suite.AgreeOn secret (p.ephemeral i) →
          m.openWith p.suite secret = .ok ⟨p.sender, signal⟩ := by
  unfold Party.form? at h
  dsimp only at h
  split at h
  · rename_i hconfidential
    cases hseal : Message.sealFor p.suite key (p.ephemeral i) ⟨p.sender, signal⟩ with
    | error cause =>
        rw [hseal] at h
        cases h
    | ok envelope =>
        rw [hseal] at h
        cases h
        obtain ⟨henvelope, hopens⟩ := Message.openWith_of_sealFor hsuite hseal
        exact Or.inr ⟨hconfidential, henvelope, rfl, hopens⟩
  · rename_i hclear
    cases h
    exact Or.inl ⟨Bool.eq_false_iff.mpr hclear, rfl⟩

/-- What is confidential: descriptions, network paths and chats. -/
theorem isConfidential_iff {signal : Signal} : isConfidential signal = true ↔
    (∃ sdp, signal = .offer sdp) ∨ (∃ sdp, signal = .answer sdp) ∨
      (∃ candidate, signal = .iceCandidate candidate) ∨ ∃ text, signal = .chat text := by
  cases signal <;> simp [isConfidential]

theorem isConfidential_of_isEnvelope {signal : Signal} (h : signal.isEnvelope = true) :
    isConfidential signal = false := by
  rw [← Bool.not_eq_true, isConfidential_iff]
  rintro (⟨_, rfl⟩ | ⟨_, rfl⟩ | ⟨_, rfl⟩ | ⟨_, rfl⟩) <;> cases h

/-- **Nothing confidential leaves in the clear** once a key was told, if sealing is on. Whatever
comes next in a run, the messages sent are the forms of signals that may be said then: none is
itself confidential, and each is a signal in the clear that needs no seal, or an envelope for the
key told last, under a secret that serves for it alone. Whoever holds that key opens it to exactly
what was meant. What cannot be sealed has no form, so nothing is sent of it. -/
theorem confidential_sealed (p : Party σ) (hsuite : p.suite.Invertible)
    (hsealing : p.config.encryptSignaling = true) (media : σ)
    (run : List (Instant × Occurrence σ)) (k : Nat) {key : PublicKey}
    (hkey : toldKey p (run.take k) = some key) :
    ∃ signals, (∀ signal ∈ signals, ∃ now e, run[k]? = some (now, .event e) ∧ MaySay p e signal) ∧
      sentAt p media run k =
        p.outgoing (some key) (sessionAt p media run k).sealedCount signals ∧
      ∀ m ∈ sentAt p media run k, isConfidential m.signal = false ∧ ∃ signal ∈ signals,
        (isConfidential signal = false ∧ m = ⟨p.sender, signal⟩ ∨
          isConfidential signal = true ∧ m.signal.isEnvelope = true ∧
            ∃ i, (sessionAt p media run k).sealedCount ≤ i ∧
              i < (sessionAt p media run (k + 1)).sealedCount ∧
              Message.sealFor p.suite key (p.ephemeral i) ⟨p.sender, signal⟩ = .ok m ∧
              ∀ secret, p.suite.publicKey secret = key →
                p.suite.AgreeOn secret (p.ephemeral i) →
                m.openWith p.suite secret = .ok ⟨p.sender, signal⟩) := by
  obtain ⟨signals, hmay, ⟨ds, hds, hsent⟩, hcount⟩ := saidAt hsealing media run k
  rw [peerKey_sessionAt hsealing, hkey] at hsent hcount
  have hsent : sentAt p media run k =
      p.outgoing (some key) (sessionAt p media run k).sealedCount signals := by
    rw [sentAt, deedsAt, hds.deedsSince_eq, hsent]
  refine ⟨signals, hmay, hsent, ?_⟩
  intro m hm
  rw [hsent] at hm
  obtain ⟨signal, hsignal, i, hform, hi⟩ := Party.form?_of_mem_outgoing hm
  rcases form?_cases hsuite hform with ⟨hclear, rfl⟩ | ⟨hconfidential, henvelope, hseal, hopens⟩
  · exact ⟨hclear, signal, hsignal, Or.inl ⟨hclear, rfl⟩⟩
  · obtain ⟨hle, hlt⟩ := hi hconfidential
    rw [← hcount] at hlt
    exact ⟨isConfidential_of_isEnvelope henvelope, signal, hsignal,
      Or.inr ⟨hconfidential, henvelope, i, hle, hlt, hseal, hopens⟩⟩

/-- A host that seals what it can. -/
def sealingHost : Party Probe :=
  { plainHost with config := { HandshakeConfig.standard with encryptSignaling := true } }

/-- The secret of a peer. -/
def peerSecret : SecretKey := ⟨List.replicate 32 3, rfl⟩

/-- The peer tells its key, the application has something to say, and the peer announces itself. -/
def introduced : List (Instant × Occurrence Probe) :=
  [(0, .bind 0),
    (1, .event (.message ⟨"joiner", .identity (Suite.standard.publicKey peerSecret)⟩)),
    (2, .event (.chat "hello")), (3, .event (.message ⟨"joiner", .join⟩))]

/-- The chat leaves under a seal, and so does the offer. The peer opens both. -/
theorem confidential_sealed_chat :
    Suite.standard.Invertible ∧ sealingHost.config.encryptSignaling = true ∧
      toldKey sealingHost (introduced.take 2) = some (Suite.standard.publicKey peerSecret) ∧
      toldKey sealingHost (introduced.take 3) = some (Suite.standard.publicKey peerSecret) ∧
      (∃ m ∈ sentAt sealingHost (.start 1) introduced 2, m.signal.isEnvelope = true ∧
        m.openWith .standard peerSecret = .ok ⟨"host", .chat "hello"⟩) ∧
      ∃ m ∈ sentAt sealingHost (.start 1) introduced 3, m.signal.isEnvelope = true ∧
        ∃ sdp, m.openWith .standard peerSecret = .ok ⟨"host", .offer sdp⟩ := by
  have htold : toldKey sealingHost (introduced.take 2) =
      some (Suite.standard.publicKey peerSecret) := rfl
  have htold' : toldKey sealingHost (introduced.take 3) =
      some (Suite.standard.publicKey peerSecret) := rfl
  have hagree : Suite.standard.AgreeOn peerSecret (sealingHost.ephemeral 0) := by
    unfold Suite.AgreeOn
    decide +kernel
  have hchat : true ∈ (sentAt sealingHost (.start 1) introduced 2).map (·.signal.isEnvelope) := by
    decide +kernel
  have hoffer : true ∈ (sentAt sealingHost (.start 1) introduced 3).map (·.signal.isEnvelope) := by
    decide +kernel
  obtain ⟨chat, hmem, henvelope⟩ := List.mem_map.mp hchat
  obtain ⟨offer, hmem', henvelope'⟩ := List.mem_map.mp hoffer
  obtain ⟨signals, hmay, -, hsent⟩ := confidential_sealed sealingHost Suite.invertible_standard rfl
    (.start 1) introduced 2 htold
  obtain ⟨signals', hmay', -, hsent'⟩ := confidential_sealed sealingHost Suite.invertible_standard
    rfl (.start 1) introduced 3 htold'
  refine ⟨Suite.invertible_standard, rfl, htold, htold', ⟨chat, hmem, henvelope, ?_⟩, offer,
    hmem', henvelope', ?_⟩
  · obtain ⟨-, signal, hsignal, hform⟩ := hsent chat hmem
    obtain ⟨now, e, he, hsays⟩ := hmay signal hsignal
    cases he
    cases hsays
    rcases hform with ⟨hclear, -⟩ | ⟨-, -, i, -, -, -, hopens⟩
    · cases hclear
    · exact hopens peerSecret rfl hagree
  · obtain ⟨-, signal, hsignal, hform⟩ := hsent' offer hmem'
    obtain ⟨now, e, he, hsays⟩ := hmay' signal hsignal
    cases he
    cases hsays with
    | reply _ hread hreply =>
        cases Party.eq_of_read? hread (by decide)
        rcases hform with ⟨-, rfl⟩ | ⟨hconfidential, -, i, -, -, -, hopens⟩
        · cases hreply <;> cases henvelope'
        · cases hreply with
          | join hrole => cases hrole
          | mode _ mode => cases hconfidential
          | offer => exact ⟨_, hopens peerSecret rfl hagree⟩

end PeerCall.Handshake
