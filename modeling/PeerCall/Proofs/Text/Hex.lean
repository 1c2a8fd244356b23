import Mathlib.Tactic.SplitIfs
import PeerCall.Text.Hex

/-!
# Which texts are hexadecimal

A text is read if it consists of an even number of digits, of either case, and what is read of it is
written as the same text in lower case.
-/
namespace PeerCall.Text.Hex

variable {c : Char} {cs : List Char} {bs : Bytes} {n : Nat}

/-- The digits of both cases. -/
def digits : List Char := "0123456789abcdefABCDEF".toList

theorem toNat_lt_of_value? (h : value? c = some n) : c.toNat < 128 := by
  simp only [value?, Bool.and_eq_true, decide_eq_true_eq] at h
  split_ifs at h <;> omega

/-- A digit has a value below sixteen, for which it is written, in lower case. -/
theorem digit_of_value? (h : value? c = some n) : n < 16 ∧ digit n = c.toLower := by
  have hall : ∀ k < 128, ∀ n ∈ value? (Char.ofNat k),
      n < 16 ∧ digit n = (Char.ofNat k).toLower := by
    decide
  have hc := hall c.toNat (toNat_lt_of_value? h) n
  rw [Char.ofNat_toNat] at hc
  exact hc h

theorem value?_isSome_iff : (value? c).isSome = true ↔ c ∈ digits := by
  constructor
  · intro h
    obtain ⟨n, hn⟩ := Option.isSome_iff_exists.mp h
    have hall : ∀ k < 128, (value? (Char.ofNat k)).isSome = true → Char.ofNat k ∈ digits := by
      decide
    have hc := hall c.toNat (toNat_lt_of_value? hn)
    rw [Char.ofNat_toNat] at hc
    exact hc h
  · have hall : digits.all (fun c => (value? c).isSome) = true := by decide
    exact List.all_eq_true.mp hall c

/-- **What is read of digits is written as these digits**, but in lower case. -/
theorem encodeList_of_decodeList (h : decodeList cs = some bs) :
    encodeList bs = cs.map Char.toLower := by
  induction cs using decodeList.induct generalizing bs with
  | case1 =>
      cases h
      rfl
  | case2 high low rest ih =>
      simp only [decodeList, Option.bind_eq_bind, Option.bind_eq_some_iff] at h
      obtain ⟨x, hx, y, hy, bytes, hbytes, heq⟩ := h
      cases heq
      obtain ⟨hx16, hxdigit⟩ := digit_of_value? hx
      obtain ⟨hy16, hydigit⟩ := digit_of_value? hy
      have hbyte : (UInt8.ofNat (16 * x + y)).toNat = 16 * x + y := by
        rw [UInt8.toNat_ofNat']
        omega
      have hhigh : (16 * x + y) / 16 = x := by omega
      have hlow : (16 * x + y) % 16 = y := by omega
      simp only [encodeList, hbyte, hhigh, hlow, hxdigit, hydigit, ih hbytes, List.map_cons]
  | case3 => cases h

/-- Digits are read as half as many bytes, if they come in pairs. -/
theorem decodeList_eq_some_iff :
    (∃ bs, decodeList cs = some bs ∧ bs.length = n) ↔
      cs.length = 2 * n ∧ ∀ c ∈ cs, c ∈ digits := by
  induction cs using decodeList.induct generalizing n with
  | case1 =>
      simp [decodeList]
      omega
  | case2 high low rest ih =>
      simp only [decodeList, Option.bind_eq_bind, Option.bind_eq_some_iff]
      constructor
      · rintro ⟨bs, ⟨x, hx, y, hy, bytes, hbytes, heq⟩, hlength⟩
        cases heq
        obtain ⟨hrest, hdigits⟩ := ih.mp ⟨bytes, hbytes, rfl⟩
        have hhigh : high ∈ digits := value?_isSome_iff.mp (by rw [hx]; rfl)
        have hlow : low ∈ digits := value?_isSome_iff.mp (by rw [hy]; rfl)
        simp only [List.length_cons] at hlength ⊢
        refine ⟨by omega, ?_⟩
        simp only [List.forall_mem_cons]
        exact ⟨hhigh, hlow, hdigits⟩
      · rintro ⟨hlength, hdigits⟩
        simp only [List.forall_mem_cons, ← value?_isSome_iff] at hdigits
        simp only [List.length_cons] at hlength
        obtain ⟨x, hx⟩ := Option.isSome_iff_exists.mp hdigits.1
        obtain ⟨y, hy⟩ := Option.isSome_iff_exists.mp hdigits.2.1
        obtain ⟨bytes, hbytes, hn⟩ := (ih (n := n - 1)).mpr
          ⟨by omega, fun c hc => value?_isSome_iff.mp (hdigits.2.2 c hc)⟩
        refine ⟨_, ⟨x, hx, y, hy, bytes, hbytes, rfl⟩, ?_⟩
        simp only [List.length_cons]
        omega
  | case3 c =>
      simp [decodeList]
      omega

end PeerCall.Text.Hex
