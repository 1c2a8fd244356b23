import Mathlib.Algebra.GroupWithZero.Nat
import PeerCall.Text.Utf8

/-!
# How many bytes a text takes

The bytes of a text are those of its characters, so a text with some of its characters left out
takes no more of them.
-/
namespace PeerCall.Text.Utf8

/-- The bytes that characters take. -/
def size (cs : List Char) : Nat := (cs.map Char.utf8Size).sum

@[simp] theorem size_nil : size [] = 0 := rfl

@[simp] theorem size_cons (c : Char) (cs : List Char) : size (c :: cs) = c.utf8Size + size cs :=
  List.sum_cons

@[simp] theorem size_append (cs cs' : List Char) : size (cs ++ cs') = size cs + size cs' := by
  rw [size, List.map_append, List.sum_append]
  rfl

@[simp] theorem size_replicate (n : Nat) (c : Char) :
    size (List.replicate n c) = n * c.utf8Size := by
  rw [size, List.map_replicate, List.sum_replicate_nat]

theorem length_encode (s : String) : (encode s).length = size s.toList := by
  have hchars : ∀ cs : List Char, cs.utf8Encode.size = size cs := by
    intro cs
    induction cs with
    | nil => rfl
    | cons c cs ih =>
        rw [List.utf8Encode_cons, ByteArray.size_append, ih, List.utf8Encode_singleton,
          List.size_toByteArray, String.length_utf8EncodeChar, size_cons]
  rw [← hchars, String.utf8Encode_toList]
  rfl

/-- A text with characters left out takes no more bytes. -/
theorem size_le_of_sublist {cs cs' : List Char} (h : cs.Sublist cs') : size cs ≤ size cs' := by
  induction h with
  | slnil => exact Nat.le_refl 0
  | cons c _ ih =>
      rw [size_cons]
      exact Nat.le_add_left_of_le ih
  | cons_cons c _ ih =>
      rw [size_cons, size_cons]
      exact Nat.add_le_add_left ih _

/-- A character takes four bytes at most. -/
theorem length_encode_le (s : String) : (encode s).length ≤ 4 * s.length := by
  have hchars : ∀ cs : List Char, size cs ≤ 4 * cs.length := by
    intro cs
    induction cs with
    | nil => exact Nat.le_refl 0
    | cons c cs ih =>
        have hc := c.utf8Size_le_four
        rw [size_cons, List.length_cons]
        omega
  rw [length_encode, ← String.length_toList]
  exact hchars s.toList

end PeerCall.Text.Utf8
