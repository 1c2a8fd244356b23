import PeerCall.Deflate.Inflate

/-!
# Inflating up to a limit

A limit does nothing to a stream but stop it. What is written up to a limit is the front of what is
written up to any larger one, and every part of a stream that stays below the limit ends in the same
way. So a deflater whose streams give back what was deflated where there is room gives back the
front of it where there is not.
-/
namespace PeerCall.Deflate

variable {α β : Type} {p : Inflation α} {f : α → Inflation β} {l : Nat}

/-- The same bytes under another limit. -/
def Output.upTo (l : Nat) (out : Output) : Output := ⟨out.written, l⟩

/-- How a part of a stream ends, seen from a smaller limit: in the same way if it wrote no more than
that, and full otherwise. -/
def cutAt (l : Nat) : EStateM.Result Halt Output α → EStateM.Result Halt Output α
  | .ok a out =>
    if out.written.size ≤ l then .ok a (out.upTo l) else .error .full ⟨out.written.extract 0 l, l⟩
  | .error halt out =>
    if out.written.size ≤ l then .error halt (out.upTo l)
    else .error .full ⟨out.written.extract 0 l, l⟩

/-- What a part of a stream leaves, however it ends. -/
def left : EStateM.Result Halt Output α → Output
  | .ok _ out | .error _ out => out

/-- Bytes were written behind what there was. -/
def Extends (out out' : Output) : Prop :=
  out'.limit = out.limit ∧ ∃ more, out'.written = out.written ++ more

theorem Extends.refl (out : Output) : Extends out out := ⟨rfl, #[], (Array.append_empty).symm⟩

theorem Extends.trans {out out' out'' : Output} (h : Extends out out') (h' : Extends out' out'') :
    Extends out out'' := by
  obtain ⟨hlimit, more, hmore⟩ := h
  obtain ⟨hlimit', more', hmore'⟩ := h'
  exact ⟨hlimit'.trans hlimit, more ++ more', by rw [hmore', hmore, Array.append_assoc]⟩

theorem Extends.size_le {out out' : Output} (h : Extends out out') :
    out.written.size ≤ out'.written.size := by
  obtain ⟨-, more, hmore⟩ := h
  rw [hmore, Array.size_append]
  exact Nat.le_add_right _ _

/-- Behind a full output nothing changes its front. -/
theorem Extends.extract_eq {out out' : Output} (h : Extends out out') (hl : l ≤ out.written.size) :
    out'.written.extract 0 l = out.written.extract 0 l := by
  obtain ⟨-, more, hmore⟩ := h
  rw [hmore, Array.extract_append, Nat.sub_eq_zero_of_le hl, Array.extract_zero, Array.append_empty]

theorem cutAt_of_full {r : EStateM.Result Halt Output α} (h : ¬ (left r).written.size ≤ l) :
    cutAt l r = .error .full ⟨(left r).written.extract 0 l, l⟩ := by
  cases r with
  | ok a out => exact if_neg h
  | error halt out => exact if_neg h

/-- A part of a stream that only writes, and that a limit does nothing to but stop it. -/
structure Limited (p : Inflation α) : Prop where
  extends_left : ∀ out, Extends out (left (p out))
  cut : ∀ {l : Nat} (out : Output), out.written.size ≤ l → l ≤ out.limit →
    p (out.upTo l) = cutAt l (p out)

namespace Inflation

/-- A part of a stream goes on where the one before it ended. -/
theorem bind_ok {a : α} {out out' : Output} (h : p out = .ok a out') :
    (p >>= f) out = f a out' := by
  change EStateM.bind p f out = _
  rw [EStateM.bind, h]

/-- A part of a stream that halts is the last one. -/
theorem bind_error {halt : Halt} {out out' : Output} (h : p out = .error halt out') :
    (p >>= f) out = .error halt out' := by
  change EStateM.bind p f out = _
  rw [EStateM.bind, h]

theorem limited_ofReading (reading : Except Halt α) : Limited (ofReading reading) := by
  refine ⟨?_, ?_⟩
  · intro out
    cases reading <;> exact Extends.refl out
  · intro l out hsize _
    cases reading <;> exact (if_pos hsize).symm

theorem limited_pure (a : α) : Limited (pure a : Inflation α) := limited_ofReading (.ok a)

theorem limited_throw (halt : Halt) : Limited (throw halt : Inflation α) :=
  limited_ofReading (.error halt)

end Inflation

open Inflation

/-- What stops the first part stops the whole, and the rest goes on where the first part ended. -/
theorem Limited.bind (hp : Limited p) (hf : ∀ a, Limited (f a)) : Limited (p >>= f) := by
  refine ⟨?_, ?_⟩
  · intro out
    have hfirst := hp.extends_left out
    cases h : p out with
    | error halt out' =>
        rw [h] at hfirst
        rw [bind_error h]
        exact hfirst
    | ok a out' =>
        rw [h] at hfirst
        rw [bind_ok h]
        exact hfirst.trans ((hf a).extends_left out')
  · intro l out hsize hl
    have hfirst := hp.extends_left out
    have hcut := hp.cut out hsize hl
    cases h : p out with
    | error halt out' =>
        rw [h] at hcut
        rw [bind_error h]
        by_cases hroom : out'.written.size ≤ l
        · rw [cutAt, if_pos hroom] at hcut ⊢
          exact bind_error hcut
        · rw [cutAt, if_neg hroom] at hcut ⊢
          exact bind_error hcut
    | ok a out' =>
        rw [h] at hfirst hcut
        rw [bind_ok h]
        by_cases hroom : out'.written.size ≤ l
        · rw [cutAt, if_pos hroom] at hcut
          rw [bind_ok hcut]
          refine (hf a).cut out' hroom ?_
          rw [show out'.limit = out.limit from hfirst.1]
          exact hl
        · -- The first part is full already, and the second one only writes behind that.
          have hsecond := (hf a).extends_left out'
          have hfull : ¬ (left (f a out')).written.size ≤ l :=
            fun hle => hroom (Nat.le_trans hsecond.size_le hle)
          rw [cutAt, if_neg hroom] at hcut
          rw [bind_error hcut, cutAt_of_full hfull,
            hsecond.extract_eq (Nat.le_of_not_le hroom)]

/-! ## Parts of a stream -/

namespace Inflation

theorem limited_push (b : UInt8) : Limited (push b) := by
  refine ⟨?_, ?_⟩
  · intro out
    rw [push]
    split
    · exact Extends.refl out
    · exact ⟨rfl, #[b], Array.push_eq_append⟩
  · intro l out hsize hl
    have hpush : (out.written.push b).size = out.written.size + 1 := Array.size_push b
    by_cases hfull : out.limit ≤ out.written.size
    · -- There was no room for the byte: the two limits are the same.
      have heq : l = out.limit := by omega
      subst heq
      simp only [push, Output.upTo, hfull, if_true, cutAt, hsize]
    · by_cases hroom : out.written.size + 1 ≤ l
      · have hopen : ¬ l ≤ out.written.size := by omega
        simp only [push, Output.upTo, hfull, hopen, if_false, cutAt, hpush, hroom, if_true]
      · have heq : l = out.written.size := by omega
        subst heq
        have hfront : (out.written.push b).extract 0 out.written.size = out.written := by
          rw [Array.push_eq_append, Array.extract_append_left, Array.extract_size]
        simp only [push, Output.upTo, hfull, if_false, Nat.le_refl, if_true, cutAt, hpush, hroom,
          hfront]

/-- What is copied does not hang on the limit. -/
theorem limited_pushBack (distance : Nat) : Limited (pushBack distance) :=
  ⟨fun out => (limited_push (out.back distance)).extends_left out,
    fun out hsize hl => (limited_push (out.back distance)).cut out hsize hl⟩

theorem limited_copy (distance length : Nat) : Limited (copy distance length) := by
  induction length with
  | zero => exact limited_pure ()
  | succ length ih => exact (limited_pushBack distance).bind fun _ => ih

end Inflation

theorem limited_inflateCodes (literals distances : PrefixCode) (fuel : Nat) (bits : List Bool) :
    Limited (inflateCodes literals distances fuel bits) := by
  induction fuel generalizing bits with
  | zero => exact limited_throw .cut
  | succ fuel ih =>
      refine (limited_ofReading _).bind fun x => ?_
      dsimp only
      split
      · exact (limited_push _).bind fun _ => ih _
      · split
        · exact limited_pure _
        · refine (limited_ofReading _).bind fun _ => (limited_ofReading _).bind fun _ => ?_
          exact (limited_ofReading _).bind fun _ => (limited_copy _ _).bind fun _ => ih _

theorem limited_copyStored (n : Nat) (bits : List Bool) : Limited (copyStored n bits) := by
  induction n generalizing bits with
  | zero => exact limited_pure _
  | succ n ih =>
      exact (limited_ofReading _).bind fun _ => (limited_push _).bind fun _ => ih _

theorem limited_inflateStored (bits : List Bool) : Limited (inflateStored bits) := by
  refine (limited_ofReading _).bind fun _ => (limited_ofReading _).bind fun _ => ?_
  dsimp only
  split
  · exact limited_copyStored _ _
  · exact limited_throw _

theorem limited_inflateBlock (form : Nat) (bits : List Bool) :
    Limited (inflateBlock form bits) := by
  unfold inflateBlock
  split
  · exact limited_inflateStored bits
  · exact limited_inflateCodes _ _ _ _
  · exact (limited_ofReading _).bind fun _ => limited_inflateCodes _ _ _ _
  · exact limited_throw _

theorem limited_inflateBlocks (fuel : Nat) (bits : List Bool) :
    Limited (inflateBlocks fuel bits) := by
  induction fuel generalizing bits with
  | zero => exact limited_throw .cut
  | succ fuel ih =>
      refine (limited_ofReading _).bind fun _ => (limited_ofReading _).bind fun _ => ?_
      refine (limited_inflateBlock _ _).bind fun _ => ?_
      split
      · exact limited_pure ()
      · exact ih _

/-! ## Streams -/

/-- What a run over all blocks amounts to. -/
def harvest (limit : Nat) : EStateM.Result Halt Output Unit → Option Bytes
  | .ok () out | .error .full out => some out.written.toList
  | .error .cut out => if out.written.size = limit then some out.written.toList else none
  | .error .malformed _ => none

theorem inflate_eq_harvest (limit : Nat) (stream : Bytes) :
    inflate limit stream =
      harvest limit (inflateBlocks ((bitsOf stream).length + 1) (bitsOf stream) ⟨#[], limit⟩) := by
  rw [inflate]
  split <;> rename_i h <;> rw [h] <;> rfl

theorem left_of_harvest {limit : Nat} {r : EStateM.Result Halt Output Unit} {content : Bytes}
    (h : harvest limit r = some content) : (left r).written.toList = content := by
  unfold harvest at h
  split at h
  · exact Option.some.inj h
  · exact Option.some.inj h
  · split at h
    · exact Option.some.inj h
    · cases h
  · cases h

/-- **A limit cuts what is inflated and does nothing else.** -/
theorem inflate_take {limit : Nat} {stream content : Bytes}
    (h : inflate limit stream = some content) (hl : l ≤ limit) :
    inflate l stream = some (content.take l) := by
  have hcut := (limited_inflateBlocks ((bitsOf stream).length + 1) (bitsOf stream)).cut
    ⟨#[], limit⟩ (Nat.zero_le l) hl
  rw [inflate_eq_harvest] at h ⊢
  rw [show (⟨#[], l⟩ : Output) = Output.upTo l ⟨#[], limit⟩ from rfl, hcut]
  have hleft := left_of_harvest h
  generalize inflateBlocks ((bitsOf stream).length + 1) (bitsOf stream) ⟨#[], limit⟩ = r at *
  by_cases hroom : (left r).written.size ≤ l
  · rw [List.take_of_length_le (by rwa [← hleft, Array.length_toList]), ← h]
    cases r with
    | ok a out => exact congrArg (harvest l) (if_pos hroom)
    | error halt out =>
        have hsize : out.written.size ≤ l := hroom
        rw [cutAt, if_pos hsize]
        cases halt with
        | full => rfl
        | malformed => rfl
        | cut =>
            -- A stream that ends too soon is taken only if it filled the output.
            have hfull : out.written.size = limit := by
              rw [harvest] at h
              split at h
              · assumption
              · cases h
            have heq : l = limit := by omega
            rw [heq]
            rfl
  · rw [cutAt_of_full hroom, ← hleft]
    simp only [harvest, Array.toList_extract, List.extract_eq_take_drop, List.drop_zero,
      Nat.sub_zero]

/-- A deflater whose streams give back what was deflated, wherever there is room for it. -/
def Faithful (deflate : Bytes → Bytes) : Prop :=
  ∀ content limit, content.length ≤ limit → inflate limit (deflate content) = some content

/-- Where there is no room for all of it, the front of it is given back. -/
theorem Faithful.inflate_eq {deflate : Bytes → Bytes} (h : Faithful deflate) (content : Bytes)
    (limit : Nat) : inflate limit (deflate content) = some (content.take limit) := by
  rcases Nat.le_total content.length limit with hle | hle
  · rw [h content limit hle, List.take_of_length_le hle]
  · exact inflate_take (h content content.length (Nat.le_refl _)) hle

end PeerCall.Deflate
