import Mathlib.Data.Fintype.Basic
import Mathlib.Data.Finset.Lattice.Fold
import PeerCall.Proofs.Handshake.Sealing

/-!
# Sessions that introduce themselves to each other

With sealing on, a session tells its public key when its channel connects, and again when another
key is told than the one told last. It remembers that one only. On a channel that brings a message
to everybody else, two sessions are introduced to each other soon. But three sessions never are:
each always hears two different keys in turn, and whoever hears another key answers to all.
-/
namespace PeerCall.Handshake

open Crypto

variable {σ α : Type} {p : Party σ} {now : Instant} {s s' t u : Session σ}

/-! ## Introductions -/

/-- Whether a signal tells a public key. -/
def isIntroduction : Signal → Bool
  | .identity _ => true
  | _ => false

/-- The message in which a device tells its own key. -/
def Party.introduction (p : Party σ) : Message := ⟨p.sender, .identity p.keypair.publicKey⟩

/-- The introduction that a deed sends. -/
def Deed.introduction? (d : Deed) : Option Message :=
  d.message?.filter fun m => isIntroduction m.signal

/-- The introductions that a session sends on an event. -/
def introductions (p : Party σ) (now : Instant) (e : Event) (s : Session σ) : List Message :=
  (deedsSince s (s.handle p now e)).filterMap Deed.introduction?

/-- The peer's key is the same, and these introductions were sent. -/
structure Tells (words : List Message) (s s' : Session σ) : Prop where
  peerKey : s'.peerKey = s.peerKey
  deeds : ∃ ds, Added s s' ds ∧ ds.filterMap Deed.introduction? = words

theorem tells_nil (hkey : s'.peerKey = s.peerKey) (hlog : s'.log = s.log) : Tells [] s s' :=
  ⟨hkey, [], added_nil hlog, rfl⟩

theorem Tells.trans {words words' : List Message} (h : Tells words s t) (h' : Tells words' t u) :
    Tells (words ++ words') s u := by
  obtain ⟨ds, hds, hwords⟩ := h.deeds
  obtain ⟨es, hes, hwords'⟩ := h'.deeds
  refine ⟨h'.peerKey.trans h.peerKey, ds ++ es, hds.trans hes, ?_⟩
  rw [List.filterMap_append, hwords, hwords']

theorem Tells.introductions_eq {words : List Message} {e : Event}
    (h : Tells words s (s.handle p now e)) : introductions p now e s = words := by
  obtain ⟨ds, hds, hwords⟩ := h.deeds
  rw [introductions, hds.deedsSince_eq, hwords]

theorem tells_does {d : Deed} (hsilent : d.introduction? = none) :
    Within (Tells []) (does d : Reaction σ Unit) :=
  fun s => ⟨rfl, [d], added_does d s, by simp [hsilent]⟩

/-- To tell one's own key cannot fail. -/
theorem outcome_sendIdentity (p : Party σ) (now : Instant) (s : Session σ) :
    outcome (sendIdentity p now) s =
      (.ok (), { s with log := s.log ++ [(s.stage, .send s.channel false p.introduction)] }) := by
  rw [sendIdentity, sendGuarded, guarded, outcome_tryCatch, send, post, outcome_bind, outcome_dress]
  rcases s with ⟨stage, media, channel, mode, known, offerSentAt, lastJoin, watchdog, count, log⟩
  cases known <;> rfl

theorem tells_sendIdentity (p : Party σ) (now : Instant) :
    Within (Tells [p.introduction]) (sendIdentity p now) := by
  intro s
  rw [outcome_sendIdentity]
  exact ⟨rfl, _, added_does _ s, rfl⟩

/-! ## Other signals tell no key -/

theorem not_isIntroduction_of_sealFor {suite : Suite} {key : PublicKey} {secret : SecretKey}
    {m envelope : Message} (h : m.sealFor suite key secret = .ok envelope) :
    isIntroduction envelope.signal = false := by
  unfold Message.sealFor at h
  split at h
  · cases h
  · split at h
    · cases h
      rfl
    · cases h

/-- In the clear or in an envelope, another signal does not go out as an introduction. -/
theorem tells_dress {signal : Signal} (hsignal : isIntroduction signal = false) (s : Session σ) :
    ∃ o t, outcome (dress p signal) s = (o, t) ∧ Tells [] s t ∧
      ∀ m, o = .ok m → isIntroduction m.signal = false := by
  have hplain : ∀ m, (.ok ⟨p.sender, signal⟩ : Except Failure Message) = .ok m →
      isIntroduction m.signal = false := by
    rintro m ⟨⟩
    exact hsignal
  rw [outcome_dress]
  cases hkey : s.peerKey with
  | none => exact ⟨_, _, rfl, tells_nil rfl rfl, hplain⟩
  | some key =>
      dsimp only
      split
      · cases hseal :
            Message.sealFor p.suite key (p.ephemeral s.sealedCount) ⟨p.sender, signal⟩ with
        | error cause => exact ⟨_, _, rfl, tells_nil hkey.symm rfl, nofun⟩
        | ok envelope =>
            refine ⟨_, _, rfl, tells_nil hkey.symm rfl, ?_⟩
            rintro m ⟨⟩
            exact not_isIntroduction_of_sealFor hseal
      · exact ⟨_, _, rfl, tells_nil rfl rfl, hplain⟩

theorem tells_post {signal : Signal} (hsignal : isIntroduction signal = false)
    (everywhere : Bool) : Within (Tells []) (post p everywhere signal) := by
  intro s
  obtain ⟨o, t, ho, htells, hm⟩ := tells_dress (p := p) hsignal s
  rw [post, outcome_bind, ho]
  cases o with
  | error cause => exact htells
  | ok m =>
      have hsilent : (Deed.send t.channel everywhere m).introduction? = none := by
        simp [Deed.introduction?, Deed.message?, hm m rfl]
      exact htells.trans (tells_does hsilent t)

theorem kept_tells (p : Party σ) :
    Kept p (fun signal => isIntroduction signal = false) (Tells []) where
  trans := Tells.trans
  aside _ _ hkey _ hlog := tells_nil hkey hlog
  moves _ := tells_nil rfl rfl
  engine _ := tells_does rfl
  tell _ := tells_does rfl
  post hsignal everywhere := tells_post hsignal everywhere

/-! ## What a session tells on an event -/

/-- When its channel connects, a session introduces itself once. -/
theorem tells_connected (hsealing : p.config.encryptSignaling = true) (now : Instant) :
    Within (Tells [p.introduction]) (onConnected p now) := by
  have hkept := kept_tells p
  have hrest : Within (Tells []) (announce p now >>= fun _ => declareReady p now) :=
    hkept.bind (hkept.announce rfl) fun _ => hkept.declareReady fun _ _ => rfl
  have hintroduced : Within (Tells [p.introduction])
      (introduce p now >>= fun _ => announce p now >>= fun _ => declareReady p now) := by
    intro s
    have hidentity := tells_sendIdentity p now s
    rw [outcome_sendIdentity] at hidentity
    rw [introduce, if_pos hsealing, outcome_bind, outcome_sendIdentity]
    exact hidentity.trans (hrest _)
  intro s
  have hfound := hkept.findPeer s
  rw [outcome_findPeer] at hfound
  rw [onConnected_eq, outcome_bind, outcome_findPeer]
  exact hfound.trans (hintroduced _)

/-- A key that is told is the peer's key from then on; if another one was, the session introduces
itself. -/
theorem tells_identity (hsealing : p.config.encryptSignaling = true) (now : Instant) {m : Message}
    {key : PublicKey} (h : p.toldKey? m = some key) (s : Session σ) :
    (s.handle p now (.message m)).peerKey = some key ∧
      introductions p now (.message m) s =
        if s.peerKey = some key then [] else [p.introduction] := by
  obtain ⟨sender, hhandle⟩ := handle_of_toldKey? hsealing now h s
  have hdeeds : ∀ ds, Added s (s.handle p now (.message m)) ds →
      introductions p now (.message m) s = ds.filterMap Deed.introduction? := by
    intro ds hds
    rw [introductions, hds.deedsSince_eq]
  rw [hhandle] at hdeeds ⊢
  split
  · rename_i hknown
    rw [if_pos hknown] at hdeeds
    exact ⟨hknown, hdeeds [] (added_nil rfl)⟩
  · rename_i hother
    rw [if_neg hother] at hdeeds
    exact ⟨rfl, hdeeds _ ⟨_, rfl, rfl⟩⟩

/-- On any other event it does not, and the peer's key stays. -/
theorem tells_other {e : Event} (he : e ≠ .channel .connected)
    (hm : ∀ m, e = .message m → p.toldKey? m = none) (now : Instant) :
    Within (Tells []) (react p now e) := by
  have hnone : ∀ m n key, e = .message m → m.sender ≠ p.sender → p.read? m = some n →
      n.signal ≠ .identity key := by
    intro m n key hmessage hother hread hkey
    have htold := hm m hmessage
    rw [Party.toldKey?_of_read? hother hread hkey] at htold
    cases htold
  refine (kept_tells p).react e ?_ fun m n key hmessage hother hread hkey =>
    absurd hkey (hnone m n key hmessage hother hread)
  intro signal hsignal
  cases hsignal with
  | identity => exact absurd rfl he
  | reply hother hread hreply =>
      rename_i m n
      generalize hplain : n.signal = plain at hreply
      cases hreply with
      | identity key => exact absurd hplain (hnone m n key rfl hother hread)
      | _ => rfl
  | _ => rfl

end PeerCall.Handshake
