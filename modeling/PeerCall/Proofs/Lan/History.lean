import Mathlib.Data.List.Nodup
import PeerCall.Proofs.Lan.Records

/-!
# All the links that two devices ever had

The key of a link hangs on the two devices alone, and on every link the nonces start over. So no
key and nonce serve twice exactly as long as no two links carry records of their dialers, and no
two links records of their acceptors. From the second link on, what was sent on an earlier one is
read again.
-/
namespace PeerCall.Lan

open Crypto

/-- The end that the holder of keys gets of a fresh link, by the hello of the device that it is
linked to. -/
def Link.ofHello (s : Suite) (own peer : Keypair) (dialer : Bool) : Except HelloFault Link :=
  (Hello.parse s own (Hello.ofKeys peer).toOctets).map fun (device, key) => .start device key dialer

/-- The records that an end of a link makes of frames in turn. -/
def Link.sealings (s : Suite) (frames : List Bytes) (l : Link) : List (Sealing s) :=
  match l.writer with
  | some w => w.sealings s frames
  | none => []

/-- One link between two devices, from the hellos until it is down. -/
structure Visit where
  /-- The first of the two devices dialed. -/
  firstDials : Bool
  /-- The frames that the end that dialed wrote. -/
  fromDialer : List Bytes
  /-- The frames that the other end wrote. -/
  fromAcceptor : List Bytes

namespace Visit

/-- The end that dialed and the other one, when the hellos are exchanged. -/
def ends (s : Suite) (first second : Keypair) (v : Visit) : Except HelloFault (Link × Link) := do
  let (dialing, accepting) := if v.firstDials then (first, second) else (second, first)
  let dialer ← Link.ofHello s dialing accepting true
  let acceptor ← Link.ofHello s accepting dialing false
  return (dialer, acceptor)

/-- The keys and nonces that the records of both ends use up. -/
def uses (s : Suite) (first second : Keypair) (v : Visit) :
    Except HelloFault (List (Octets 32 × UInt64)) := do
  let (dialer, acceptor) ← v.ends s first second
  return (dialer.sealings s v.fromDialer ++ acceptor.sealings s v.fromAcceptor).map Sealing.use

/-- The keys and nonces that the records of all links use up. -/
def allUses (s : Suite) (first second : Keypair) (visits : List Visit) :
    Except HelloFault (List (Octets 32 × UInt64)) := do
  return (← visits.mapM (uses s first second)).flatten

/-- Not both links carry records of their dialers, nor both records of their acceptors. -/
def Apart (v w : Visit) : Prop :=
  (v.fromDialer = [] ∨ w.fromDialer = []) ∧ (v.fromAcceptor = [] ∨ w.fromAcceptor = [])

/-- The frames are up to a size, and no more than there are nonces for. -/
structure Modest (limit : Nat) (v : Visit) : Prop where
  dialer_short : ∀ frame ∈ v.fromDialer, frame.length ≤ limit
  acceptor_short : ∀ frame ∈ v.fromAcceptor, frame.length ≤ limit
  dialer_room : 2 * v.fromDialer.length ≤ Bytes.bound 8
  acceptor_room : 2 * v.fromAcceptor.length ≤ Bytes.bound 8

end Visit

variable {s : Suite} {limit overhead : Nat} {x y : SecretKey} {v w : Visit}

/-! ## Hellos -/

/-- Devices with different ids accept each other's hellos. -/
theorem accept_ofKeys
    (hdistinct : (Keypair.ofSecret s y).deviceId ≠ (Keypair.ofSecret s x).deviceId) :
    Hello.accept s (.ofSecret s x) (.ofKeys (.ofSecret s y)) =
      .ok ((Keypair.ofSecret s y).deviceId, linkKey s (s.agree x (s.publicKey y))) := by
  have hversion : (Hello.ofKeys (.ofSecret s y)).version = protocolVersion := rfl
  have hdevice : (Hello.ofKeys (.ofSecret s y)).device =
      .ofPublicKey s (Hello.ofKeys (.ofSecret s y)).publicKey := rfl
  have hother : (Hello.ofKeys (.ofSecret s y)).device ≠ (Keypair.ofSecret s x).deviceId := hdistinct
  simp only [Hello.accept, hversion, ← hdevice, hother, ne_eq, not_true_eq_false, if_false]
  rfl

theorem ofHello_eq
    (hdistinct : (Keypair.ofSecret s y).deviceId ≠ (Keypair.ofSecret s x).deviceId)
    (dialer : Bool) :
    Link.ofHello s (.ofSecret s x) (.ofSecret s y) dialer =
      .ok (.start (Keypair.ofSecret s y).deviceId (linkKey s (s.agree x (s.publicKey y)))
        dialer) := by
  rw [Link.ofHello, Hello.parse, Hello.ofOctets_toOctets, accept_ofKeys hdistinct]
  rfl

/-- Whoever dialed, both ends of a link have the one key of the two devices. -/
theorem exists_ends (hdistinct : (Keypair.ofSecret s x).deviceId ≠ (Keypair.ofSecret s y).deviceId)
    (hagree : s.agree y (s.publicKey x) = s.agree x (s.publicKey y)) (v : Visit) :
    ∃ accepting dialing, v.ends s (.ofSecret s x) (.ofSecret s y) =
      .ok (.start accepting (linkKey s (s.agree x (s.publicKey y))) true,
        .start dialing (linkKey s (s.agree x (s.publicKey y))) false) := by
  cases hdials : v.firstDials with
  | true =>
      refine ⟨(Keypair.ofSecret s y).deviceId, (Keypair.ofSecret s x).deviceId, ?_⟩
      simp only [Visit.ends, hdials, if_true, ofHello_eq hdistinct.symm, ofHello_eq hdistinct,
        hagree]
      rfl
  | false =>
      refine ⟨(Keypair.ofSecret s x).deviceId, (Keypair.ofSecret s y).deviceId, ?_⟩
      simp only [Visit.ends, hdials, Bool.false_eq_true, if_false, ofHello_eq hdistinct.symm,
        ofHello_eq hdistinct, hagree]
      rfl

/-! ## Nonces of both ends -/

/-- The keys and nonces of so many records of the dialer, and so many of the acceptor. -/
def usesOf (key : Octets 32) (dialed accepted : Nat) : List (Octets 32 × UInt64) :=
  (noncesFrom 0 dialed ++ noncesFrom 1 accepted).map fun nonce => (key, nonce)

theorem uses_eq (hdecrypts : s.DecryptsUpTo limit) (hmodest : v.Modest limit)
    (hdistinct : (Keypair.ofSecret s x).deviceId ≠ (Keypair.ofSecret s y).deviceId)
    (hagree : s.agree y (s.publicKey x) = s.agree x (s.publicKey y)) :
    v.uses s (.ofSecret s x) (.ofSecret s y) =
      .ok (usesOf (linkKey s (s.agree x (s.publicKey y))) v.fromDialer.length
        v.fromAcceptor.length) := by
  obtain ⟨accepting, dialing, hends⟩ := exists_ends hdistinct hagree v
  simp only [Visit.uses, hends, bind, Except.bind, Link.sealings, Link.start, Nonces.first,
    List.map_append, Writer.map_use_sealings,
    Writer.length_sealings hdecrypts hmodest.dialer_short,
    Writer.length_sealings hdecrypts hmodest.acceptor_short, usesOf]
  rfl

/-- A dialer counts in even numbers, an acceptor in odd ones. -/
theorem mem_usesOf (key : Octets 32) (use : Octets 32 × UInt64) {dialed accepted : Nat}
    (hdialed : 2 * dialed ≤ Bytes.bound 8) (haccepted : 2 * accepted ≤ Bytes.bound 8) :
    use ∈ usesOf key dialed accepted ↔ use.1 = key ∧
      ((∃ i < dialed, use.2.toNat = 2 * i) ∨ ∃ i < accepted, use.2.toNat = 2 * i + 1) := by
  obtain ⟨k, nonce⟩ := use
  have hzero : (0 : UInt64).toNat = 0 := rfl
  have hone : (1 : UInt64).toNat = 1 := rfl
  have heven : nonce ∈ noncesFrom 0 dialed ↔ ∃ i < dialed, nonce.toNat = 2 * i := by
    rw [mem_noncesFrom (by omega), hzero]
    simp only [Nat.zero_add]
  have hodd : nonce ∈ noncesFrom 1 accepted ↔ ∃ i < accepted, nonce.toNat = 2 * i + 1 := by
    rw [mem_noncesFrom (by omega), hone]
    simp only [Nat.add_comm 1]
  rw [← heven, ← hodd, ← List.mem_append, usesOf, List.mem_map]
  constructor
  · rintro ⟨nonce, hnonce, h⟩
    cases h
    exact ⟨rfl, hnonce⟩
  · rintro ⟨rfl, hnonce⟩
    exact ⟨nonce, hnonce, rfl⟩

/-- The ends of one link never use the same nonce, and neither uses one twice. -/
theorem nodup_usesOf (key : Octets 32) {dialed accepted : Nat}
    (hdialed : 2 * dialed ≤ Bytes.bound 8) (haccepted : 2 * accepted ≤ Bytes.bound 8) :
    (usesOf key dialed accepted).Nodup := by
  have hzero : (0 : UInt64).toNat = 0 := rfl
  have hone : (1 : UInt64).toNat = 1 := rfl
  refine List.Nodup.map (fun a b h => congrArg Prod.snd h) ?_
  refine List.Nodup.append (nodup_noncesFrom (by omega)) (nodup_noncesFrom (by omega)) ?_
  intro nonce heven hodd
  obtain ⟨i, -, hi⟩ := (mem_noncesFrom (by omega)).mp heven
  obtain ⟨j, -, hj⟩ := (mem_noncesFrom (by omega)).mp hodd
  omega

/-- Two links use different nonces exactly as long as not both carry records of the same end. -/
theorem disjoint_usesOf_iff (key : Octets 32) (hv : v.Modest limit) (hw : w.Modest limit) :
    List.Disjoint (usesOf key v.fromDialer.length v.fromAcceptor.length)
      (usesOf key w.fromDialer.length w.fromAcceptor.length) ↔ v.Apart w := by
  have hmemv := fun use => mem_usesOf key use hv.dialer_room hv.acceptor_room
  have hmemw := fun use => mem_usesOf key use hw.dialer_room hw.acceptor_room
  simp only [Visit.Apart, ← List.length_eq_zero_iff]
  constructor
  · intro hdisjoint
    refine ⟨?_, ?_⟩
    · by_contra hboth
      exact hdisjoint ((hmemv (key, 0)).mpr ⟨rfl, .inl ⟨0, by omega, rfl⟩⟩)
        ((hmemw (key, 0)).mpr ⟨rfl, .inl ⟨0, by omega, rfl⟩⟩)
    · by_contra hboth
      exact hdisjoint ((hmemv (key, 1)).mpr ⟨rfl, .inr ⟨0, by omega, rfl⟩⟩)
        ((hmemw (key, 1)).mpr ⟨rfl, .inr ⟨0, by omega, rfl⟩⟩)
  · rintro ⟨hdialers, hacceptors⟩ use husev husew
    obtain ⟨-, ⟨i, hi, hnonce⟩ | ⟨i, hi, hnonce⟩⟩ := (hmemv use).mp husev <;>
      obtain ⟨-, ⟨j, hj, hnonce'⟩ | ⟨j, hj, hnonce'⟩⟩ := (hmemw use).mp husew <;> omega

/-! ## The whole history -/

theorem allUses_eq {f : Visit → List (Octets 32 × UInt64)} {first second : Keypair}
    {visits : List Visit} (h : ∀ v ∈ visits, v.uses s first second = .ok (f v)) :
    Visit.allUses s first second visits = .ok (visits.flatMap f) := by
  have hall : visits.mapM (Visit.uses s first second) = .ok (visits.map f) := by
    induction visits with
    | nil => rfl
    | cons v visits ih =>
        rw [List.mapM_cons, h v (List.mem_cons_self ..),
          ih fun v hv => h v (List.mem_cons_of_mem _ hv)]
        rfl
  rw [Visit.allUses, hall, List.flatMap]
  rfl

/-- What a writer of one link sends, a reader that starts with the same key and nonce reads on any
other. -/
theorem feed_writeAll {key : Octets 32} {nonce : UInt64} {frames : List Bytes} {l m : Link}
    (hdecrypts : s.DecryptsUpTo limit) (hlengthens : s.Lengthens overhead)
    (hlimit : limit + overhead ≤ Frame.maxLength) (hshort : ∀ frame ∈ frames, frame.length ≤ limit)
    (hwriter : l.writer = some ⟨key, nonce⟩) (hreader : m.reader = ⟨key, nonce, []⟩) :
    (m.reader.feed s (l.writeAll s frames).flatten).messages = frames.filterMap frameMessage? := by
  have hrecords : (l.writeAll s frames).flatten =
      (Writer.encryptAll s frames ⟨key, nonce⟩).flatMap record := by
    rw [Link.writeAll_eq hwriter, List.flatMap]
  rw [Reader.feed, hreader, List.nil_append, hrecords,
    Reader.drain_encryptAll hdecrypts hshort ⟨key, nonce⟩ ?_]
  intro ciphertext h
  exact Nat.le_trans (Writer.length_of_mem_encryptAll hlengthens hshort h) hlimit

/-- **Nonces start over on every link.** Of all records that two devices ever exchanged, no two are
under the same key and nonce exactly if no two links carried records of their dialers, and no two
records of their acceptors. On each link every record of any other one is read, if it comes from
the end with the same part. -/
theorem nonces_start_over
    (hdistinct : (Keypair.ofSecret s x).deviceId ≠ (Keypair.ofSecret s y).deviceId)
    (hagree : s.agree y (s.publicKey x) = s.agree x (s.publicKey y))
    (hdecrypts : s.DecryptsUpTo limit) (hlengthens : s.Lengthens overhead)
    (hlimit : limit + overhead ≤ Frame.maxLength) (visits : List Visit)
    (hmodest : ∀ v ∈ visits, v.Modest limit) :
    (∃ uses, Visit.allUses s (.ofSecret s x) (.ofSecret s y) visits = .ok uses ∧
      (uses.Nodup ↔ visits.Pairwise Visit.Apart)) ∧
    ∀ v ∈ visits, ∀ w ∈ visits, ∃ dialer acceptor dialer' acceptor',
      v.ends s (.ofSecret s x) (.ofSecret s y) = .ok (dialer, acceptor) ∧
      w.ends s (.ofSecret s x) (.ofSecret s y) = .ok (dialer', acceptor') ∧
      (acceptor'.reader.feed s (dialer.writeAll s v.fromDialer).flatten).messages =
        v.fromDialer.filterMap frameMessage? ∧
      (dialer'.reader.feed s (acceptor.writeAll s v.fromAcceptor).flatten).messages =
        v.fromAcceptor.filterMap frameMessage? := by
  refine ⟨⟨_, allUses_eq fun v hv => uses_eq hdecrypts (hmodest v hv) hdistinct hagree, ?_⟩, ?_⟩
  · rw [List.nodup_flatMap, and_iff_right]
    · exact List.Pairwise.iff_of_mem fun hv hw =>
        disjoint_usesOf_iff _ (hmodest _ hv) (hmodest _ hw)
    · intro v hv
      exact nodup_usesOf _ (hmodest v hv).dialer_room (hmodest v hv).acceptor_room
  · intro v hv w hw
    obtain ⟨accepting, dialing, hends⟩ := exists_ends hdistinct hagree v
    obtain ⟨accepting', dialing', hends'⟩ := exists_ends hdistinct hagree w
    refine ⟨_, _, _, _, hends, hends', ?_, ?_⟩
    · exact feed_writeAll hdecrypts hlengthens hlimit (hmodest v hv).dialer_short rfl rfl
    · exact feed_writeAll hdecrypts hlengthens hlimit (hmodest v hv).acceptor_short rfl rfl

/-! ## A redial -/

/-- The secret of a device. -/
def oneSecret : SecretKey := ⟨List.replicate 32 1, rfl⟩

/-- The secret of another device. -/
def twoSecret : SecretKey := ⟨List.replicate 32 2, rfl⟩

theorem distinct_one_two : (Keypair.ofSecret .standard oneSecret).deviceId ≠
    (Keypair.ofSecret .standard twoSecret).deviceId := by decide +kernel

theorem agree_one_two : Suite.standard.agree twoSecret (Suite.standard.publicKey oneSecret) =
    Suite.standard.agree oneSecret (Suite.standard.publicKey twoSecret) := by decide +kernel

/-- The frame of a farewell of `p`. -/
def farewellFrame : Bytes := [13, 0, 0, 0, 1, 0, 0, 0, 0, 0, 0, 0, 112, 4, 0, 0, 0]

theorem frameMessage?_farewellFrame : frameMessage? farewellFrame = some ⟨"p", .bye⟩ := by
  decide +kernel

/-- A link on which the device that dialed says farewell. -/
def dialerLeaves : Visit := ⟨true, [farewellFrame], []⟩

/-- A link on which the other device says farewell. -/
def acceptorLeaves : Visit := ⟨true, [], [farewellFrame]⟩

/-- A link on which the device that dialed asks to join: the frame is that of `p`. -/
def dialerReturns : Visit := ⟨true, [[13, 0, 0, 0, 1, 0, 0, 0, 0, 0, 0, 0, 112, 0, 0, 0, 0]], []⟩

theorem modest_dialerLeaves : dialerLeaves.Modest (Frame.maxLength - 16) :=
  ⟨by decide, by decide, by decide, by decide⟩

theorem modest_dialerReturns : dialerReturns.Modest (Frame.maxLength - 16) :=
  ⟨by decide, by decide, by decide, by decide⟩

theorem modest_acceptorLeaves : acceptorLeaves.Modest (Frame.maxLength - 16) :=
  ⟨by decide, by decide, by decide, by decide⟩

/-- One farewell each way, on two links: the nonces differ, and still the first farewell is read on
the second link. -/
theorem nonces_start_over_farewells :
    (∃ uses, Visit.allUses .standard (.ofSecret .standard oneSecret)
      (.ofSecret .standard twoSecret) [dialerLeaves, acceptorLeaves] = .ok uses ∧ uses.Nodup) ∧
    ∃ dialer acceptor dialer' acceptor',
      dialerLeaves.ends .standard (.ofSecret .standard oneSecret) (.ofSecret .standard twoSecret) =
        .ok (dialer, acceptor) ∧
      acceptorLeaves.ends .standard (.ofSecret .standard oneSecret)
        (.ofSecret .standard twoSecret) = .ok (dialer', acceptor') ∧
      (acceptor'.reader.feed .standard (dialer.writeAll .standard [farewellFrame]).flatten).messages =
        [⟨"p", .bye⟩] := by
  obtain ⟨⟨uses, huses, hiff⟩, hread⟩ := nonces_start_over distinct_one_two agree_one_two
    decryptsUpTo_record Suite.lengthens_standard (by decide) [dialerLeaves, acceptorLeaves]
    (List.forall_mem_cons.mpr ⟨modest_dialerLeaves, List.forall_mem_singleton.mpr
      modest_acceptorLeaves⟩)
  have hapart : dialerLeaves.Apart acceptorLeaves := ⟨.inr rfl, .inl rfl⟩
  refine ⟨⟨uses, huses, hiff.mpr (List.pairwise_pair.mpr hapart)⟩, ?_⟩
  obtain ⟨dialer, acceptor, dialer', acceptor', hends, hends', hdialed, -⟩ :=
    hread _ (List.mem_cons_self ..) _ (List.mem_cons_of_mem _ (List.mem_cons_self ..))
  refine ⟨dialer, acceptor, dialer', acceptor', hends, hends', hdialed.trans ?_⟩
  rw [dialerLeaves, List.filterMap_cons, frameMessage?_farewellFrame]
  rfl

/-- After a redial the first record is under the key and the nonce of the first record before it,
and that one, a farewell, is read once more. -/
theorem redial_reuses_nonce :
    (∃ key, Visit.allUses .standard (.ofSecret .standard oneSecret) (.ofSecret .standard twoSecret)
      [dialerLeaves, dialerReturns] = .ok [(key, 0), (key, 0)]) ∧
    ∃ dialer acceptor dialer' acceptor',
      dialerLeaves.ends .standard (.ofSecret .standard oneSecret) (.ofSecret .standard twoSecret) =
        .ok (dialer, acceptor) ∧
      dialerReturns.ends .standard (.ofSecret .standard oneSecret)
        (.ofSecret .standard twoSecret) = .ok (dialer', acceptor') ∧
      (acceptor'.reader.feed .standard (dialer.writeAll .standard [farewellFrame]).flatten).messages =
        [⟨"p", .bye⟩] := by
  have hmodest : ∀ v ∈ [dialerLeaves, dialerReturns], v.Modest (Frame.maxLength - 16) :=
    List.forall_mem_cons.mpr ⟨modest_dialerLeaves, List.forall_mem_singleton.mpr
      modest_dialerReturns⟩
  refine ⟨⟨_, allUses_eq fun v hv =>
    uses_eq decryptsUpTo_record (hmodest v hv) distinct_one_two agree_one_two⟩, ?_⟩
  obtain ⟨accepting, dialing, hends⟩ := exists_ends distinct_one_two agree_one_two dialerLeaves
  obtain ⟨accepting', dialing', hends'⟩ := exists_ends distinct_one_two agree_one_two dialerReturns
  refine ⟨_, _, _, _, hends, hends', ?_⟩
  refine (feed_writeAll decryptsUpTo_record Suite.lengthens_standard (by decide)
    modest_dialerLeaves.dialer_short rfl rfl).trans ?_
  rw [dialerLeaves, List.filterMap_cons, frameMessage?_farewellFrame]
  rfl

end PeerCall.Lan
