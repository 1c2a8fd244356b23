import Mathlib.Data.List.Iterate
import PeerCall.Lan.Channel
import PeerCall.Proofs.Binary.Packets
import PeerCall.Proofs.Crypto.Ciphers

/-!
# From the writer of a link to its reader

A writer counts its records up from the nonce that it starts with, in steps of two, and a reader
that starts where the writer does reads the messages of all of them. A link's end writes what its
writer encrypts, until a frame cannot be encrypted.
-/
namespace PeerCall.Lan

open Crypto

variable {s : Suite} {limit : Nat} {frame ciphertext : Bytes} {frames : List Bytes}

/-! ## Nonces in turn -/

/-- The nonces of so many records in turn. -/
def noncesFrom (first : UInt64) (count : Nat) : List UInt64 := List.iterate nextNonce first count

theorem toNat_iterate_nextNonce (first : UInt64) (i : Nat) :
    (nextNonce^[i] first).toNat = min (first.toNat + 2 * i) (Bytes.bound 8 - 1) := by
  induction i with
  | zero =>
      have hlt : first.toNat < Bytes.bound 8 := first.toNat_lt
      simp only [Function.iterate_zero, id_eq]
      omega
  | succ i ih =>
      rw [Function.iterate_succ_apply', toNat_nextNonce, ih]
      omega

theorem noncesFrom_subset {first : UInt64} {count more : Nat} (h : count ≤ more) :
    noncesFrom first count ⊆ noncesFrom first more := by
  intro nonce hnonce
  rw [noncesFrom, List.mem_iterate] at hnonce ⊢
  obtain ⟨i, hi, rfl⟩ := hnonce
  exact ⟨i, Nat.lt_of_lt_of_le hi h, rfl⟩

theorem length_noncesFrom (first : UInt64) (count : Nat) :
    (noncesFrom first count).length = count := List.length_iterate ..

/-- The nonces of fewer records than a direction has room for, by number. -/
theorem mem_noncesFrom {first nonce : UInt64} {count : Nat}
    (hroom : first.toNat + 2 * count ≤ Bytes.bound 8 + 1) :
    nonce ∈ noncesFrom first count ↔ ∃ i < count, nonce.toNat = first.toNat + 2 * i := by
  have hnumber : ∀ i < count, (nextNonce^[i] first).toNat = first.toNat + 2 * i := by
    intro i hi
    rw [toNat_iterate_nextNonce]
    omega
  rw [noncesFrom, List.mem_iterate]
  constructor
  · rintro ⟨i, hi, rfl⟩
    exact ⟨i, hi, hnumber i hi⟩
  · rintro ⟨i, hi, hnonce⟩
    refine ⟨i, hi, UInt64.toNat_inj.mp ?_⟩
    rw [hnonce, hnumber i hi]

theorem nodup_noncesFrom {first : UInt64} {count : Nat}
    (hroom : first.toNat + 2 * count ≤ Bytes.bound 8 + 1) : (noncesFrom first count).Nodup := by
  refine List.pairwise_iff_getElem.mpr ?_
  intro i j hi hj hij heq
  rw [length_noncesFrom] at hi hj
  have hnumbers := congrArg UInt64.toNat heq
  simp only [noncesFrom, List.getElem_iterate, toNat_iterate_nextNonce] at hnumbers
  omega

/-! ## What is written -/

/-- What is encrypted under a numbered nonce decrypts under it. -/
theorem decrypts_numbered (hdecrypts : s.DecryptsUpTo limit) (key : Octets 32) (nonce : UInt64)
    (hshort : frame.length ≤ limit) : ∃ ciphertext,
      encryptNumbered s key nonce frame = .ok ciphertext ∧
        decryptNumbered s key nonce ciphertext = .ok frame := by
  obtain ⟨ciphertext, hencrypt, hdecrypt⟩ := hdecrypts key (counterNonce nonce) frame hshort
  refine ⟨ciphertext, ?_, ?_⟩
  · rw [encryptNumbered, hencrypt]
  · rw [decryptNumbered, hdecrypt]

/-- All frames that have room in a record can be encrypted. -/
theorem decryptsUpTo_record : Suite.standard.DecryptsUpTo (Frame.maxLength - 16) :=
  Suite.decryptsUpTo_standard.mono (by decide)

/-- A record as it is made: what was encrypted, and under what. -/
structure Sealing (s : Suite) where
  key : Octets 32
  nonce : UInt64
  frame : Bytes
  ciphertext : Bytes
  encrypted : encryptNumbered s key nonce frame = .ok ciphertext

/-- The key and the nonce that a record uses up. -/
def Sealing.use (x : Sealing s) : Octets 32 × UInt64 := (x.key, x.nonce)

theorem Sealing.length_ciphertext {overhead : Nat} (hlengthens : s.Lengthens overhead)
    (x : Sealing s) : x.ciphertext.length = x.frame.length + overhead := by
  have hencrypted := x.encrypted
  rw [encryptNumbered] at hencrypted
  split at hencrypted
  · rename_i ciphertext hencrypt
    cases hencrypted
    exact hlengthens _ _ _ _ hencrypt
  · cases hencrypted

/-- The records that a writer makes of frames in turn. -/
def Writer.sealings (s : Suite) : List Bytes → Writer → List (Sealing s)
  | [], _ => []
  | frame :: frames, w => match h : encryptNumbered s w.key w.nonce frame with
    | .error _ => []
    | .ok ciphertext =>
      ⟨w.key, w.nonce, frame, ciphertext, h⟩ ::
        sealings s frames { w with nonce := nextNonce w.nonce }

namespace Writer

variable {w : Writer}

theorem sealings_error {cause : CryptoError}
    (h : encryptNumbered s w.key w.nonce frame = .error cause) :
    w.sealings s (frame :: frames) = [] := by
  rw [sealings]
  split <;> rename_i h'
  · rfl
  · rw [h] at h'
    cases h'

theorem sealings_ok (h : encryptNumbered s w.key w.nonce frame = .ok ciphertext) :
    w.sealings s (frame :: frames) = ⟨w.key, w.nonce, frame, ciphertext, h⟩ ::
      sealings s frames { w with nonce := nextNonce w.nonce } := by
  rw [sealings]
  split <;> rename_i h'
  · rw [h] at h'
    cases h'
  · cases h.symm.trans h'
    rfl

/-- The ciphertexts of a writer are those of its records. -/
theorem encryptAll_eq (frames : List Bytes) (w : Writer) :
    w.encryptAll s frames = (w.sealings s frames).map (·.ciphertext) := by
  induction frames generalizing w with
  | nil => rfl
  | cons frame frames ih =>
      cases h : encryptNumbered s w.key w.nonce frame with
      | error cause =>
          rw [sealings_error h, encryptAll, encrypt, h]
          rfl
      | ok ciphertext =>
          rw [sealings_ok h, List.map_cons, ← ih, encryptAll, encrypt, h]
          rfl

/-- A writer uses its key, and one nonce after the other. -/
theorem map_use_sealings (frames : List Bytes) (w : Writer) :
    (w.sealings s frames).map Sealing.use =
      (noncesFrom w.nonce (w.sealings s frames).length).map fun nonce => (w.key, nonce) := by
  induction frames generalizing w with
  | nil => rfl
  | cons frame frames ih =>
      cases h : encryptNumbered s w.key w.nonce frame with
      | error cause =>
          rw [sealings_error h]
          rfl
      | ok ciphertext =>
          rw [sealings_ok h, List.map_cons, ih]
          rfl

theorem length_sealings_le (frames : List Bytes) (w : Writer) :
    (w.sealings s frames).length ≤ frames.length := by
  induction frames generalizing w with
  | nil => exact Nat.le_refl 0
  | cons frame frames ih =>
      cases h : encryptNumbered s w.key w.nonce frame with
      | error cause =>
          rw [sealings_error h]
          exact Nat.zero_le _
      | ok ciphertext =>
          rw [sealings_ok h]
          exact Nat.succ_le_succ (ih _)

/-- The key and the nonce of a record are its writer's. -/
theorem use_of_mem_sealings {x : Sealing s} (h : x ∈ w.sealings s frames) :
    x.key = w.key ∧ x.nonce ∈ noncesFrom w.nonce frames.length := by
  have huse := List.mem_map_of_mem (f := Sealing.use) h
  rw [map_use_sealings] at huse
  obtain ⟨nonce, hnonce, heq⟩ := List.mem_map.mp huse
  obtain ⟨hkey, rfl⟩ := Prod.mk.inj heq
  exact ⟨hkey.symm, noncesFrom_subset (length_sealings_le frames w) hnonce⟩

/-- What a writer encrypts is what it was given. -/
theorem frame_mem_of_mem_sealings {x : Sealing s} (h : x ∈ w.sealings s frames) :
    x.frame ∈ frames := by
  induction frames generalizing w with
  | nil => cases h
  | cons frame frames ih =>
      cases hencrypt : encryptNumbered s w.key w.nonce frame with
      | error cause =>
          rw [sealings_error hencrypt] at h
          cases h
      | ok ciphertext =>
          rw [sealings_ok hencrypt] at h
          rcases List.mem_cons.mp h with rfl | h
          · exact List.mem_cons_self ..
          · exact List.mem_cons_of_mem _ (ih h)

/-- Frames up to a size give ciphertexts up to a size. -/
theorem length_of_mem_encryptAll {overhead : Nat} (hlengthens : s.Lengthens overhead)
    (hshort : ∀ frame ∈ frames, frame.length ≤ limit) (h : ciphertext ∈ w.encryptAll s frames) :
    ciphertext.length ≤ limit + overhead := by
  rw [encryptAll_eq] at h
  obtain ⟨x, hx, rfl⟩ := List.mem_map.mp h
  rw [x.length_ciphertext hlengthens]
  exact Nat.add_le_add_right (hshort _ (frame_mem_of_mem_sealings hx)) overhead

/-- Fewer frames make for the first of the records. -/
theorem sealings_prefix {more : List Bytes} (h : frames <+: more) (w : Writer) :
    w.sealings s frames <+: w.sealings s more := by
  obtain ⟨rest, rfl⟩ := h
  induction frames generalizing w with
  | nil => exact List.nil_prefix
  | cons frame frames ih =>
      cases hencrypt : encryptNumbered s w.key w.nonce frame with
      | error cause =>
          rw [sealings_error hencrypt]
          exact List.nil_prefix
      | ok ciphertext =>
          rw [List.cons_append, sealings_ok hencrypt, sealings_ok hencrypt]
          exact List.cons_prefix_cons.mpr ⟨rfl, ih { w with nonce := nextNonce w.nonce }⟩

/-- A writer makes a record of every frame that can be encrypted. -/
theorem length_sealings (hdecrypts : s.DecryptsUpTo limit)
    (hshort : ∀ frame ∈ frames, frame.length ≤ limit) (w : Writer) :
    (w.sealings s frames).length = frames.length := by
  induction frames generalizing w with
  | nil => rfl
  | cons frame frames ih =>
      obtain ⟨ciphertext, hencrypt, -⟩ := decrypts_numbered hdecrypts w.key w.nonce
        (hshort frame (List.mem_cons_self ..))
      rw [sealings_ok hencrypt, List.length_cons, List.length_cons,
        ih fun frame hframe => hshort frame (List.mem_cons_of_mem _ hframe)]

/-- A writer goes on where it stopped. -/
theorem encryptAll_append (hdecrypts : s.DecryptsUpTo limit)
    (hshort : ∀ frame ∈ frames, frame.length ≤ limit) (more : List Bytes) (w : Writer) :
    w.encryptAll s (frames ++ more) = w.encryptAll s frames ++
      encryptAll s more ⟨w.key, nextNonce^[frames.length] w.nonce⟩ := by
  induction frames generalizing w with
  | nil => rfl
  | cons frame frames ih =>
      obtain ⟨ciphertext, hencrypt, -⟩ := decrypts_numbered hdecrypts w.key w.nonce
        (hshort frame (List.mem_cons_self ..))
      have hrest := ih (fun f hf => hshort f (List.mem_cons_of_mem _ hf))
        { w with nonce := nextNonce w.nonce }
      simp only [List.cons_append, encryptAll, encrypt, hencrypt, Except.map, hrest,
        List.length_cons, Function.iterate_succ_apply]

end Writer

/-- What an end of a link sends for frames in turn. -/
def Link.writeAll (s : Suite) : List Bytes → Link → List Bytes
  | [], _ => []
  | frame :: frames, l => (l.write s frame).1.toList ++ writeAll s frames (l.write s frame).2

/-- An end that is silenced sends nothing more. -/
theorem Link.writeAll_silent {l : Link} (h : l.writer = none) (frames : List Bytes) :
    l.writeAll s frames = [] := by
  induction frames with
  | nil => rfl
  | cons frame frames ih => simp only [writeAll, write, h, ih, Option.toList_none, List.append_nil]

/-- An end of a link sends what its writer encrypts. -/
theorem Link.writeAll_eq {l : Link} {w : Writer} (h : l.writer = some w) (frames : List Bytes) :
    l.writeAll s frames = (w.encryptAll s frames).map record := by
  induction frames generalizing l w with
  | nil => rfl
  | cons frame frames ih =>
      rw [Writer.encryptAll]
      cases hencrypt : w.encrypt s frame with
      | error cause =>
          simp only [writeAll, write, h, hencrypt, Option.toList_none, List.nil_append]
          exact writeAll_silent rfl frames
      | ok out =>
          simp only [writeAll, write, h, hencrypt, Option.toList_some, List.cons_append,
            List.nil_append, List.map_cons]
          rw [ih rfl]

/-! ## What is read -/

/-- The message that a frame holds, if it holds one. -/
def frameMessage? (frame : Bytes) : Option Message :=
  (Frame.decode Message.format frame).toOption.map (·.1)

/-- A record is taken off the front of what arrived. -/
theorem content_record (h : ciphertext.length ≤ Frame.maxLength) (rest : Bytes) :
    Frame.content (record ciphertext ++ rest) =
      .ok (ciphertext, Frame.lengthSize + ciphertext.length) := by
  rw [record, List.append_assoc, Frame.content_announced h, Binary.split?_append]

theorem drop_record (ciphertext rest : Bytes) :
    (record ciphertext ++ rest).drop (Frame.lengthSize + ciphertext.length) = rest := by
  refine List.drop_left' ?_
  rw [record, List.length_append, Bytes.length_ofNatLE]

namespace Reader

variable {r : Reader}

/-- The next record of the other end decrypts. -/
theorem decrypt_next (hdecrypts : s.DecryptsUpTo limit) (hshort : frame.length ≤ limit)
    (h : encryptNumbered s r.key r.nonce frame = .ok ciphertext) :
    r.decrypt s ciphertext =
      .ok (frameMessage? frame, { r with nonce := nextNonce r.nonce }) := by
  obtain ⟨encrypted, hencrypt, hdecrypt⟩ := decrypts_numbered hdecrypts r.key r.nonce hshort
  cases hencrypt.symm.trans h
  simp only [decrypt, hdecrypt]
  rfl

/-- A whole record in front of what else is waiting is read, and the rest next. -/
theorem drain_front {key : Octets 32} {nonce : UInt64} {rest : Bytes} {message : Option Message}
    {next : Reader} (h : ciphertext.length ≤ Frame.maxLength)
    (hd : decrypt s ciphertext ⟨key, nonce, record ciphertext ++ rest⟩ = .ok (message, next)) :
    drain s ⟨key, nonce, record ciphertext ++ rest⟩ =
      let more := drain s { next with waiting := rest }
      ⟨message.toList ++ more.messages, more.next⟩ := by
  let r : Reader := ⟨key, nonce, record ciphertext ++ rest⟩
  have hcontent : Frame.content r.waiting = .ok (ciphertext, Frame.lengthSize + ciphertext.length) :=
    content_record h rest
  have hdrain : r.drain s = _ := drain_record hcontent hd
  rwa [drop_record] at hdrain

/-- A reader at the place of a writer reads what the writer sends, and is at its place again. -/
theorem drain_encryptAll (hdecrypts : s.DecryptsUpTo limit)
    (hshort : ∀ frame ∈ frames, frame.length ≤ limit) (w : Writer)
    (hsize : ∀ ciphertext ∈ w.encryptAll s frames, ciphertext.length ≤ Frame.maxLength) :
    drain s ⟨w.key, w.nonce, (w.encryptAll s frames).flatMap record⟩ =
      ⟨frames.filterMap frameMessage?, .ok ⟨w.key, nextNonce^[frames.length] w.nonce, []⟩⟩ := by
  induction frames generalizing w with
  | nil => exact drain_incomplete rfl
  | cons frame frames ih =>
      have hframe : frame.length ≤ limit := hshort frame (List.mem_cons_self ..)
      have hrest : ∀ frame ∈ frames, frame.length ≤ limit :=
        fun frame h => hshort frame (List.mem_cons_of_mem _ h)
      obtain ⟨ciphertext, hencrypt, -⟩ := decrypts_numbered hdecrypts w.key w.nonce hframe
      have hall : w.encryptAll s (frame :: frames) =
          ciphertext :: Writer.encryptAll s frames { w with nonce := nextNonce w.nonce } := by
        rw [Writer.encryptAll, Writer.encrypt, hencrypt]
        rfl
      rw [hall] at hsize ⊢
      have hfits := hsize ciphertext (List.mem_cons_self ..)
      have hlater := ih hrest { w with nonce := nextNonce w.nonce }
        fun c hc => hsize c (List.mem_cons_of_mem _ hc)
      rw [List.flatMap_cons, drain_front hfits (decrypt_next hdecrypts hframe hencrypt)]
      simp only [hlater, Function.iterate_succ_apply, List.length_cons]
      rw [List.filterMap_cons]
      cases frameMessage? frame <;> rfl

end Reader

end PeerCall.Lan
