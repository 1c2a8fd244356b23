import PeerCall.Proofs.Binary.Frames
import PeerCall.Proofs.Lan.Records

/-!
# Records in their places

How bytes are cut into pieces on their way makes no difference to a reader, and of whole records it
takes one after the other. Where a ciphertext decrypts only at its own place, a reader reads the
records of the other end as long as they come in turn, and gives the link up at the first one that
does not.
-/
namespace PeerCall.Lan

open Crypto

variable {s : Suite} {limit : Nat} {r : Reader} {w : Writer} {frames : List Bytes}
  {ciphertexts : List Bytes}

/-! ## Pieces -/

/-- More bytes arrive after a reading. A reader that gave the link up reads nothing more. -/
def Reading.feed (s : Suite) (bytes : Bytes) (x : Reading) : Reading :=
  match x.next with
  | .ok r => ⟨x.messages ++ (r.feed s bytes).messages, (r.feed s bytes).next⟩
  | .error _ => x

theorem Reading.feed_behind (messages : List Message) (bytes : Bytes) (x : Reading) :
    Reading.feed s bytes ⟨messages ++ x.messages, x.next⟩ =
      ⟨messages ++ (x.feed s bytes).messages, (x.feed s bytes).next⟩ := by
  obtain ⟨later, next⟩ := x
  cases next with
  | ok r => simp only [feed, List.append_assoc]
  | error fault => rfl

theorem content_ne_malformed (buffer : Bytes) (fault : Binary.Fault) :
    Frame.content buffer ≠ .error (.malformed fault) := by
  rw [Frame.content_eq]
  split
  · rintro ⟨⟩
  · split
    · rintro ⟨⟩
    · split <;> rintro ⟨⟩

namespace Reader

/-- A record that is refused ends the link. -/
theorem drain_refused {ciphertext : Bytes} {used : Nat} {fault : RecordFault}
    (h : Frame.content r.waiting = .ok (ciphertext, used))
    (hd : r.decrypt s ciphertext = .error fault) : r.drain s = ⟨[], .error fault⟩ := by
  rw [drain]
  split <;> simp_all

theorem decrypt_waiting (ciphertext waiting : Bytes) :
    decrypt s ciphertext { r with waiting } =
      (r.decrypt s ciphertext).map fun (message, next) => (message, { next with waiting }) := by
  unfold decrypt
  cases decryptNumbered s r.key r.nonce ciphertext <;> rfl

/-- Bytes behind what has arrived are read after it. -/
theorem drain_append (more : Bytes) (r : Reader) :
    drain s { r with waiting := r.waiting ++ more } = (r.drain s).feed s more := by
  induction hlength : r.waiting.length using Nat.strongRecOn generalizing r with
  | ind n ih =>
      subst hlength
      cases hcontent : Frame.content r.waiting with
      | error cause =>
          cases cause with
          | needMore =>
              rw [drain_incomplete hcontent]
              rfl
          | tooLarge =>
              rw [drain_oversized hcontent]
              exact drain_oversized (Frame.content_append_tooLarge hcontent more)
          | malformed fault => exact absurd hcontent (content_ne_malformed _ fault)
      | ok x =>
          obtain ⟨ciphertext, used⟩ := x
          have hmore := Frame.content_append hcontent more
          obtain ⟨hheader, hused⟩ := Frame.used_of_content hcontent
          cases hdecrypt : r.decrypt s ciphertext with
          | error fault =>
              rw [drain_refused hcontent hdecrypt]
              refine drain_refused hmore ?_
              rw [decrypt_waiting, hdecrypt]
              rfl
          | ok y =>
              obtain ⟨message, next⟩ := y
              have hread : decrypt s ciphertext { r with waiting := r.waiting ++ more } =
                  .ok (message, { next with waiting := r.waiting ++ more }) := by
                rw [decrypt_waiting, hdecrypt]
                rfl
              have hshorter : (r.waiting.drop used).length < r.waiting.length := by
                rw [List.length_drop]
                have hpositive : 0 < Frame.lengthSize := by decide
                omega
              have hrest := ih _ hshorter { next with waiting := r.waiting.drop used } rfl
              rw [drain_record hcontent hdecrypt, drain_record hmore hread,
                List.drop_append_of_le_length hused]
              dsimp only at hrest ⊢
              rw [hrest, Reading.feed_behind]

/-- **Pieces are read as the whole is.** -/
theorem feed_append (first second : Bytes) (r : Reader) :
    r.feed s (first ++ second) = (r.feed s first).feed s second := by
  rw [feed, ← List.append_assoc]
  exact drain_append second { r with waiting := r.waiting ++ first }

/-- Whole records are read in turn. -/
theorem drain_records (h : ∀ ciphertext ∈ ciphertexts, ciphertext.length ≤ Frame.maxLength)
    (key : Octets 32) (nonce : UInt64) :
    drain s ⟨key, nonce, ciphertexts.flatMap record⟩ =
      ⟨(decryptAll s ciphertexts ⟨key, nonce, []⟩).1,
        (decryptAll s ciphertexts ⟨key, nonce, []⟩).2⟩ := by
  induction ciphertexts generalizing nonce with
  | nil => exact drain_incomplete rfl
  | cons ciphertext rest ih =>
      have hfits := h ciphertext (List.mem_cons_self ..)
      have hrest := ih (fun c hc => h c (List.mem_cons_of_mem _ hc)) (nextNonce nonce)
      rw [List.flatMap_cons]
      cases hplain : decryptNumbered s key nonce ciphertext with
      | error cause =>
          let r : Reader := ⟨key, nonce, record ciphertext ++ rest.flatMap record⟩
          have hcontent : Frame.content r.waiting =
              .ok (ciphertext, Frame.lengthSize + ciphertext.length) := content_record hfits _
          have hrefused : r.decrypt s ciphertext = .error .rejected := by
            simp only [decrypt, r, hplain]
          have hdrain : r.drain s = _ := drain_refused hcontent hrefused
          rw [hdrain]
          simp only [decryptAll, decrypt, hplain]
      | ok plain =>
          have hread : decrypt s ciphertext ⟨key, nonce, record ciphertext ++ rest.flatMap record⟩ =
              .ok (frameMessage? plain,
                ⟨key, nextNonce nonce, record ciphertext ++ rest.flatMap record⟩) := by
            simp only [decrypt, hplain]
            rfl
          rw [drain_front hfits hread]
          simp only [hrest, decryptAll, decrypt, hplain]
          rfl

end Reader

/-! ## Places -/

/-- How many ciphertexts at the front are those that were written, in turn. -/
def inPlace : List Bytes → List Bytes → Nat
  | c :: cs, d :: ds => if c = d then inPlace cs ds + 1 else 0
  | _, _ => 0

theorem inPlace_self (cs : List Bytes) : inPlace cs cs = cs.length := by
  induction cs with
  | nil => rfl
  | cons c cs ih => rw [inPlace, if_pos rfl, ih, List.length_cons]

theorem inPlace_le (cs ds : List Bytes) :
    inPlace cs ds ≤ cs.length ∧ inPlace cs ds ≤ ds.length := by
  induction cs generalizing ds with
  | nil => exact ⟨Nat.le_refl 0, Nat.zero_le _⟩
  | cons c cs ih =>
      cases ds with
      | nil => exact ⟨Nat.zero_le _, Nat.le_refl 0⟩
      | cons d ds =>
          rw [inPlace]
          split
          · exact ⟨Nat.succ_le_succ (ih ds).1, Nat.succ_le_succ (ih ds).2⟩
          · exact ⟨Nat.zero_le _, Nat.zero_le _⟩

theorem inPlace_map {f : Bytes → Bytes} (hf : Function.Injective f) (cs ds : List Bytes) :
    inPlace (cs.map f) (ds.map f) = inPlace cs ds := by
  induction cs generalizing ds with
  | nil => rfl
  | cons c cs ih =>
      cases ds with
      | nil => rfl
      | cons d ds => simp only [List.map_cons, inPlace, hf.eq_iff, ih]

/-- At no place of a writer any of these ciphertexts decrypts but the one that was written there. -/
def Placed (s : Suite) (w : Writer) (frames ciphertexts : List Bytes) : Prop :=
  ∀ i ≤ frames.length, ∀ ciphertext ∈ ciphertexts, ∀ plain,
    decryptNumbered s w.key (nextNonce^[i] w.nonce) ciphertext = .ok plain →
    (w.encryptAll s frames)[i]? = some ciphertext

/-- **A reader reads the records that come in their places**, and gives up at the first that does
not. -/
theorem Reader.decryptAll_placed (hdecrypts : s.DecryptsUpTo limit)
    (hshort : ∀ frame ∈ frames, frame.length ≤ limit) (hplaced : Placed s w frames ciphertexts) :
    decryptAll s ciphertexts ⟨w.key, w.nonce, []⟩ =
      ((frames.take (inPlace ciphertexts (w.encryptAll s frames))).filterMap frameMessage?,
        if inPlace ciphertexts (w.encryptAll s frames) = ciphertexts.length
        then .ok ⟨w.key, nextNonce^[ciphertexts.length] w.nonce, []⟩ else .error .rejected) := by
  induction ciphertexts generalizing w frames with
  | nil => cases frames <;> rfl
  | cons ciphertext rest ih =>
      have hhead : ∀ plain, decryptNumbered s w.key w.nonce ciphertext = .ok plain →
          (w.encryptAll s frames)[0]? = some ciphertext :=
        hplaced 0 (Nat.zero_le _) ciphertext (List.mem_cons_self ..)
      -- What is not the next one of the writer does not decrypt.
      have hrefused : (w.encryptAll s frames)[0]? ≠ some ciphertext →
          decryptAll s (ciphertext :: rest) ⟨w.key, w.nonce, []⟩ = ([], .error .rejected) := by
        intro hother
        cases hplain : decryptNumbered s w.key w.nonce ciphertext with
        | ok plain => exact absurd (hhead plain hplain) hother
        | error cause => simp only [decryptAll, decrypt, hplain]
      cases frames with
      | nil => exact hrefused (by rintro ⟨⟩)
      | cons frame frames =>
          have hframe := hshort frame (List.mem_cons_self ..)
          obtain ⟨written, hencrypt, -⟩ := decrypts_numbered hdecrypts w.key w.nonce hframe
          have hall : w.encryptAll s (frame :: frames) =
              written :: Writer.encryptAll s frames { w with nonce := nextNonce w.nonce } := by
            rw [Writer.encryptAll, Writer.encrypt, hencrypt]
            rfl
          rw [hall] at hrefused ⊢
          by_cases hnext : ciphertext = written
          · subst hnext
            have hlater : Placed s { w with nonce := nextNonce w.nonce } frames rest := by
              intro i hi c hc plain hplain
              have hthere :=
                hplaced (i + 1) (Nat.succ_le_succ hi) c (List.mem_cons_of_mem _ hc) plain
                hplain
              rwa [hall, List.getElem?_cons_succ] at hthere
            have hrest := ih (fun f hf => hshort f (List.mem_cons_of_mem _ hf)) hlater
            rw [decryptAll, decrypt_next hdecrypts hframe hencrypt]
            simp only [hrest, inPlace, if_true, List.take_succ_cons, List.length_cons,
              Nat.add_right_cancel_iff, Function.iterate_succ_apply, List.filterMap_cons]
            cases frameMessage? frame <;> rfl
          · rw [inPlace, if_neg hnext, hrefused (fun h => hnext (Option.some.inj h).symm)]
            rfl

/-! ## What makes for places -/

/-- Under none of these nonces but its own a record decrypts. -/
def RefusedElsewhere (s : Suite) (records : List (Sealing s)) (nonces : List UInt64) : Prop :=
  ∀ x ∈ records, ∀ nonce ∈ nonces, nonce ≠ x.nonce →
    decryptNumbered s x.key nonce x.ciphertext = .error .decrypt

/-- The key and the nonce of a record, by its place. -/
theorem Writer.use_of_getElem? {i : Nat} {x : Sealing s} (h : (w.sealings s frames)[i]? = some x) :
    x.key = w.key ∧ x.nonce = nextNonce^[i] w.nonce := by
  have huses := congrArg (·[i]?) (map_use_sealings (s := s) frames w)
  have hi : i < (w.sealings s frames).length := (List.getElem?_eq_some_iff.mp h).1
  simp only [List.getElem?_map, h, noncesFrom, List.getElem?_iterate _ _ _ _ hi, Option.map_some,
    Option.some.injEq] at huses
  exact Prod.mk.inj huses

theorem RefusedElsewhere.mono {records records' : List (Sealing s)} {nonces nonces' : List UInt64}
    (h : RefusedElsewhere s records nonces) (hrecords : records' ⊆ records)
    (hnonces : nonces' ⊆ nonces) : RefusedElsewhere s records' nonces' :=
  fun x hx nonce hnonce => h x (hrecords hx) nonce (hnonces hnonce)

/-- Where records are refused elsewhere, those of a writer have their places, also among records
under other nonces. -/
theorem placed_of_refused {others : List (Sealing s)}
    (hall : (w.sealings s frames).length = frames.length)
    (hroom : w.nonce.toNat + 2 * (frames.length + 1) ≤ Bytes.bound 8 + 1)
    (hothers : ∀ x ∈ others, x.key = w.key ∧ x.nonce ∉ noncesFrom w.nonce (frames.length + 1))
    (hrefused : RefusedElsewhere s (w.sealings s frames ++ others)
      (noncesFrom w.nonce (frames.length + 1)))
    (hdrawn : ∀ c ∈ ciphertexts, ∃ x ∈ w.sealings s frames ++ others, x.ciphertext = c) :
    Placed s w frames ciphertexts := by
  intro i hi c hc plain hplain
  obtain ⟨x, hx, rfl⟩ := hdrawn c hc
  have hnonce : nextNonce^[i] w.nonce ∈ noncesFrom w.nonce (frames.length + 1) := by
    rw [noncesFrom, List.mem_iterate]
    exact ⟨i, Nat.lt_succ_of_le hi, rfl⟩
  have hown : x.key = w.key → nextNonce^[i] w.nonce = x.nonce := by
    intro hkey
    by_contra hne
    have herror := hrefused x hx _ hnonce hne
    rw [hkey, hplain] at herror
    cases herror
  rcases List.mem_append.mp hx with hx | hx
  · obtain ⟨j, hj, rfl⟩ := List.getElem_of_mem hx
    obtain ⟨hkey, hplace⟩ := Writer.use_of_getElem? (List.getElem?_eq_getElem hj)
    have hij := congrArg UInt64.toNat (hplace ▸ hown hkey)
    rw [toNat_iterate_nextNonce, toNat_iterate_nextNonce] at hij
    have heq : i = j := by omega
    subst heq
    rw [Writer.encryptAll_eq, List.getElem?_map, List.getElem?_eq_getElem hj]
    rfl
  · obtain ⟨hkey, habsent⟩ := hothers x hx
    exact absurd (hown hkey ▸ hnonce) habsent

end PeerCall.Lan
