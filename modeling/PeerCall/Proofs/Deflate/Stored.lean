import Mathlib.Algebra.Group.Nat.Defs
import PeerCall.Deflate.Stored
import PeerCall.Proofs.Deflate.Limits

/-!
# Stored blocks are inflated to what they store

The bits of a byte string are those of its bytes, so whatever a reader takes off in whole bytes is
read as the number that the bytes are. A stored block begins at a whole byte, whatever bits of the
block's header are left over in the byte before.
-/
namespace PeerCall.Deflate

open Inflation

variable {bs : Bytes} {rest : List Bool}

/-! ## Numbers -/

/-- The number that bits stand for, the lowest one first. -/
def numberOf : List Bool → Nat
  | [] => 0
  | bit :: bits => bit.toNat + 2 * numberOf bits

theorem takeNumber_append (bits rest : List Bool) :
    takeNumber bits.length (bits ++ rest) = .ok (numberOf bits, rest) := by
  induction bits with
  | nil => rfl
  | cons bit bits ih =>
      rw [List.length_cons, List.cons_append, takeNumber, ih]
      rfl

theorem numberOf_append (bits bits' : List Bool) :
    numberOf (bits ++ bits') = numberOf bits + 2 ^ bits.length * numberOf bits' := by
  induction bits with
  | nil => simp [numberOf]
  | cons bit bits ih =>
      rw [List.cons_append, numberOf, ih, numberOf, List.length_cons, Nat.pow_succ, Nat.mul_add,
        Nat.mul_comm (2 ^ bits.length) 2, Nat.mul_assoc, Nat.add_assoc]

theorem length_bitsOfByte (b : UInt8) : (bitsOfByte b).length = 8 := by simp [bitsOfByte]

theorem numberOf_bitsOfByte (b : UInt8) : numberOf (bitsOfByte b) = b.toNat := by
  have hall : ∀ n < 256, numberOf ((List.range 8).map (Nat.testBit n)) = n := by decide +kernel
  exact hall b.toNat b.toNat_lt

@[simp] theorem bitsOf_append (bs bs' : Bytes) : bitsOf (bs ++ bs') = bitsOf bs ++ bitsOf bs' :=
  List.flatMap_append

@[simp] theorem bitsOf_cons (b : UInt8) (bs : Bytes) :
    bitsOf (b :: bs) = bitsOfByte b ++ bitsOf bs :=
  List.flatMap_cons

@[simp] theorem length_bitsOf (bs : Bytes) : (bitsOf bs).length = 8 * bs.length := by
  induction bs with
  | nil => rfl
  | cons b bs ih =>
      rw [bitsOf_cons, List.length_append, length_bitsOfByte, ih, List.length_cons]
      omega

theorem numberOf_bitsOf (bs : Bytes) : numberOf (bitsOf bs) = Bytes.toNatLE bs := by
  have hbyte : 2 ^ 8 = 256 := rfl
  induction bs with
  | nil => rfl
  | cons b bs ih =>
      rw [bitsOf_cons, numberOf_append, numberOf_bitsOfByte, length_bitsOfByte, ih, hbyte,
        Bytes.toNatLE]

/-- Whole bytes are taken off as the number that they are. -/
theorem takeNumber_bitsOf (bs : Bytes) (rest : List Bool) :
    takeNumber (8 * bs.length) (bitsOf bs ++ rest) = .ok (Bytes.toNatLE bs, rest) := by
  rw [← length_bitsOf, takeNumber_append, numberOf_bitsOf]

theorem takeNumber_ofNatLE (width : Nat) {n : Nat} (h : n < Bytes.bound width) (rest : List Bool) :
    takeNumber (8 * width) (bitsOf (Bytes.ofNatLE width n) ++ rest) = .ok (n, rest) := by
  have hbytes := takeNumber_bitsOf (Bytes.ofNatLE width n) rest
  rwa [Bytes.length_ofNatLE, Bytes.toNatLE_ofNatLE, Nat.mod_eq_of_lt h] at hbytes

/-! ## Blocks -/

/-- Output with further bytes written. -/
def Output.append (out : Output) (bs : Bytes) : Output := ⟨out.written ++ bs.toArray, out.limit⟩

theorem Output.append_nil (out : Output) : out.append [] = out :=
  congrArg (Output.mk · out.limit) Array.append_empty

theorem Output.append_append (out : Output) (bs bs' : Bytes) :
    (out.append bs).append bs' = out.append (bs ++ bs') := by
  simp only [append, Array.append_assoc, List.append_toArray]

theorem Output.size_append (out : Output) (bs : Bytes) :
    (out.append bs).written.size = out.written.size + bs.length := by
  simp only [append, Array.size_append, List.size_toArray]

theorem Output.limit_append (out : Output) (bs : Bytes) : (out.append bs).limit = out.limit := rfl

/-- A part of a stream goes on behind a number that can be read. -/
theorem bind_reading {α β : Type} {a : α} {reading : Except Halt α} {f : α → Inflation β}
    (h : reading = .ok a) (out : Output) : (ofReading reading >>= f) out = f a out := by
  subst h
  exact bind_ok rfl

theorem copyStored_bitsOf (content : Bytes) (rest : List Bool) (out : Output)
    (hroom : out.written.size + content.length ≤ out.limit) :
    copyStored content.length (bitsOf content ++ rest) out =
      .ok rest (out.append content) := by
  induction content generalizing out with
  | nil =>
      rw [Output.append_nil]
      rfl
  | cons b content ih =>
      rw [List.length_cons] at hroom
      have hread : takeNumber 8 (bitsOf (b :: content) ++ rest) =
          .ok (b.toNat, bitsOf content ++ rest) := by
        have h := takeNumber_append (bitsOfByte b) (bitsOf content ++ rest)
        rwa [length_bitsOfByte, numberOf_bitsOfByte, ← List.append_assoc, ← bitsOf_cons] at h
      have hopen : ¬ out.limit ≤ out.written.size := by omega
      have hpush : push (UInt8.ofNat b.toNat) out = .ok () (out.append [b]) := by
        rw [push, if_neg hopen, UInt8.ofNat_toNat, Array.push_eq_append]
        rfl
      have hrest := ih (out.append [b]) (by
        rw [Output.size_append, Output.limit_append, List.length_singleton]
        omega)
      refine (bind_reading hread out).trans ((bind_ok hpush).trans (hrest.trans ?_))
      rw [Output.append_append]
      rfl

/-- A stored block behind the bits of its header. -/
theorem inflateStored_bitsOf {content : Bytes} {bits : List Bool} (hbits : bits.length = 5)
    (hlength : content.length ≤ maxStored) (rest : Bytes) (out : Output)
    (hroom : out.written.size + content.length ≤ out.limit) :
    inflateStored (bits ++ bitsOf (Bytes.ofNatLE 2 content.length ++
        Bytes.ofNatLE 2 (maxStored - content.length) ++ content ++ rest)) out =
      .ok (bitsOf rest) (out.append content) := by
  have hstored : maxStored < Bytes.bound 2 := by decide
  have haligned : ∀ bs : Bytes,
      (bits ++ bitsOf bs).drop ((bits ++ bitsOf bs).length % 8) = bitsOf bs := by
    intro bs
    rw [List.length_append, length_bitsOf, hbits, Nat.add_mul_mod_self_left]
    exact List.drop_left' hbits
  have hread := takeNumber_ofNatLE 2 (Nat.lt_of_le_of_lt hlength hstored)
  have hread' := takeNumber_ofNatLE 2
    (Nat.lt_of_le_of_lt (Nat.sub_le maxStored content.length) hstored)
  have hsum : content.length + (maxStored - content.length) = 65535 :=
    Nat.add_sub_of_le hlength
  rw [inflateStored, haligned]
  simp only [bitsOf_append, List.append_assoc]
  refine (bind_reading (hread _) out).trans ((bind_reading (hread' _) out).trans ?_)
  dsimp only
  rw [if_pos hsum]
  exact copyStored_bitsOf content (bitsOf rest) out hroom

/-- The header of a stored block: the lowest bit of its byte says whether it is the last one. -/
theorem bitsOfByte_header (last : Bool) :
    bitsOfByte (if last then 1 else 0) = [last, false, false] ++ List.replicate 5 false := by
  cases last <;> decide

/-- A stored block, last or not. -/
theorem inflateBlocks_storedBlock {content : Bytes} (last : Bool)
    (hlength : content.length ≤ maxStored) (rest : Bytes) (fuel : Nat) (out : Output)
    (hroom : out.written.size + content.length ≤ out.limit) :
    inflateBlocks (fuel + 1) (bitsOf (storedBlock last content ++ rest)) out =
      if last then .ok () (out.append content)
      else inflateBlocks fuel (bitsOf rest) (out.append content) := by
  have hheader : (List.replicate 5 false).length = 5 := rfl
  have hblock := inflateStored_bitsOf hheader hlength rest out hroom
  rw [storedBlock, List.cons_append, List.cons_append, List.cons_append, bitsOf_cons,
    bitsOfByte_header, List.append_assoc]
  have hread : ∀ bits, takeNumber 1 ([last, false, false] ++ bits) =
      .ok (last.toNat, [false, false] ++ bits) :=
    fun bits => takeNumber_append [last] ([false, false] ++ bits)
  have hread' : ∀ bits, takeNumber 2 ([false, false] ++ bits) = .ok (0, bits) :=
    fun bits => takeNumber_append [false, false] bits
  refine (bind_reading (hread _) out).trans ((bind_reading (hread' _) out).trans ?_)
  refine (bind_ok hblock).trans ?_
  cases last <;> rfl

/-- All blocks of a content. -/
theorem inflateBlocks_storedBlocks (blocks : Nat) (content : Bytes) (fuel : Nat) (out : Output)
    (hmany : blocks * maxStored ≤ content.length)
    (hfew : content.length ≤ blocks * maxStored + maxStored) (hfuel : blocks < fuel)
    (hroom : out.written.size + content.length ≤ out.limit) :
    inflateBlocks fuel (bitsOf (storedBlocks blocks content)) out =
      .ok () (out.append content) := by
  induction blocks generalizing content fuel out with
  | zero =>
      obtain ⟨fuel, rfl⟩ := Nat.exists_eq_succ_of_ne_zero (Nat.ne_of_gt hfuel)
      have hlast := inflateBlocks_storedBlock true (by omega) [] fuel out hroom
      rwa [List.append_nil] at hlast
  | succ blocks ih =>
      obtain ⟨fuel, rfl⟩ := Nat.exists_eq_succ_of_ne_zero (Nat.ne_of_gt (Nat.zero_lt_of_lt hfuel))
      rw [Nat.succ_mul] at hmany hfew
      have hfront : (content.take maxStored).length = maxStored := by
        rw [List.length_take]
        omega
      have hback : (content.drop maxStored).length = content.length - maxStored := List.length_drop
      have hfirst := inflateBlocks_storedBlock false (Nat.le_of_eq hfront)
        (storedBlocks blocks (content.drop maxStored)) fuel out (by omega)
      rw [storedBlocks, hfirst]
      have hrest := ih (content.drop maxStored) fuel (out.append (content.take maxStored))
        (by omega) (by omega) (by omega) (by
          rw [Output.size_append, Output.limit_append]
          omega)
      refine hrest.trans ?_
      rw [Output.append_append, List.take_append_drop]

/-- There are fewer blocks than bytes in them. -/
theorem lt_length_storedBlocks (blocks : Nat) (content : Bytes) :
    blocks < (storedBlocks blocks content).length := by
  induction blocks generalizing content with
  | zero => exact Nat.succ_pos _
  | succ blocks ih =>
      have hblock : 0 < (storedBlock false (content.take maxStored)).length := Nat.succ_pos _
      have hrest := ih (content.drop maxStored)
      rw [storedBlocks, List.length_append]
      omega

/-- **Stored blocks give back what they store.** -/
theorem faithful_deflate : Faithful deflate := by
  intro content limit hroom
  have hmany := Nat.div_mul_le_self content.length maxStored
  have hfew := Nat.lt_mul_div_succ content.length (show 0 < maxStored by decide)
  have hfuel := lt_length_storedBlocks (content.length / maxStored) content
  have hrun := inflateBlocks_storedBlocks (content.length / maxStored) content
    ((bitsOf (deflate content)).length + 1) ⟨#[], limit⟩ hmany
    (by rw [Nat.mul_succ, Nat.mul_comm] at hfew; omega)
    (by rw [length_bitsOf, deflate]; omega) (by simpa using hroom)
  rw [inflate_eq_harvest]
  refine (congrArg (harvest limit) hrun).trans ?_
  simp only [harvest, Output.append, Array.empty_append, List.toList_toArray]

end PeerCall.Deflate
