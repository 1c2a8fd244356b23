import Mathlib.Tactic.SplitIfs
import PeerCall.Text.Base64

/-!
# Base64 text read back

A digit has the value that it was written for, and no digit is the padding character, so a last
group is recognized by its padding where there is padding, and by its length where there is none. No
other text than the written one is read as these bytes.
-/
namespace PeerCall.Text.Base64

variable {v : Variant} {n : Nat}

theorem value?_digit (hn : n < 64) : value? v (digit v n) = some n := by
  have hall : ∀ v, ∀ n < 64, value? v (digit v n) = some n := by
    intro v
    cases v <;> decide
  exact hall v n hn

theorem digit_ne_padding (hn : n < 64) : digit v n ≠ '=' := by
  intro heq
  have hnone : ∀ v, value? v '=' = none := by
    intro v
    cases v <;> rfl
  have hvalue := value?_digit (v := v) hn
  rw [heq, hnone] at hvalue
  cases hvalue

/-- Three bytes, as the number that their digits stand for. -/
theorem fullGroup_digits (a b c : UInt8) :
    let n := a.toNat * 65536 + b.toNat * 256 + c.toNat
    fullGroup v (digit v (n / 262144)) (digit v (n / 4096 % 64)) (digit v (n / 64 % 64))
      (digit v (n % 64)) = some [a, b, c] := by
  intro n
  have ha := a.toNat_lt
  have hb := b.toNat_lt
  have hc := c.toNat_lt
  have hn : ((n / 262144 * 64 + n / 4096 % 64) * 64 + n / 64 % 64) * 64 + n % 64 = n := by omega
  have hfirst : UInt8.ofNat (n / 65536) = a := by
    apply UInt8.toNat_inj.1
    rw [UInt8.toNat_ofNat']
    omega
  have hsecond : UInt8.ofNat (n / 256) = b := by
    apply UInt8.toNat_inj.1
    rw [UInt8.toNat_ofNat']
    omega
  have hthird : UInt8.ofNat n = c := by
    apply UInt8.toNat_inj.1
    rw [UInt8.toNat_ofNat']
    omega
  simp only [fullGroup, value?_digit (show n / 262144 < 64 by omega),
    value?_digit (show n / 4096 % 64 < 64 by omega), value?_digit (show n / 64 % 64 < 64 by omega),
    value?_digit (show n % 64 < 64 by omega), Option.bind_eq_bind, Option.bind_some, hn, hfirst,
    hsecond, hthird]

theorem lastOne_digits (a : UInt8) :
    let n := a.toNat * 16
    lastOne v (digit v (n / 64)) (digit v (n % 64)) = some [a] := by
  intro n
  have ha := a.toNat_lt
  have hn : n / 64 * 64 + n % 64 = n := by omega
  have hfirst : UInt8.ofNat (n / 16) = a := by
    apply UInt8.toNat_inj.1
    rw [UInt8.toNat_ofNat']
    omega
  simp only [lastOne, value?_digit (show n / 64 < 64 by omega),
    value?_digit (show n % 64 < 64 by omega), Option.bind_eq_bind, Option.bind_some, hn, hfirst,
    if_pos (show n % 16 = 0 by omega)]

theorem lastTwo_digits (a b : UInt8) :
    let n := (a.toNat * 256 + b.toNat) * 4
    lastTwo v (digit v (n / 4096)) (digit v (n / 64 % 64)) (digit v (n % 64)) = some [a, b] := by
  intro n
  have ha := a.toNat_lt
  have hb := b.toNat_lt
  have hn : (n / 4096 * 64 + n / 64 % 64) * 64 + n % 64 = n := by omega
  have hfirst : UInt8.ofNat (n / 1024) = a := by
    apply UInt8.toNat_inj.1
    rw [UInt8.toNat_ofNat']
    omega
  have hsecond : UInt8.ofNat (n / 4) = b := by
    apply UInt8.toNat_inj.1
    rw [UInt8.toNat_ofNat']
    omega
  simp only [lastTwo, value?_digit (show n / 4096 < 64 by omega),
    value?_digit (show n / 64 % 64 < 64 by omega), value?_digit (show n % 64 < 64 by omega),
    Option.bind_eq_bind, Option.bind_some, hn, hfirst, hsecond, if_pos (show n % 4 = 0 by omega)]

theorem decodeList_encodeList (v : Variant) (bs : Bytes) :
    decodeList v (encodeList v bs) = some bs := by
  induction bs using encodeList.induct with
  | case1 => rfl
  | case2 a =>
      cases v with
      | standard => exact lastOne_digits a
      | urlSafe => exact lastOne_digits a
  | case3 a b =>
      have hpad : digit v ((a.toNat * 256 + b.toNat) * 4 % 64) ≠ '=' :=
        digit_ne_padding (Nat.mod_lt _ (by decide))
      cases v with
      | standard =>
          simp only [encodeList, Variant.padded, if_true, List.cons_append, List.nil_append,
            decodeList, List.isEmpty_nil, Bool.and_self, decide_true, if_neg hpad]
          exact lastTwo_digits a b
      | urlSafe => exact lastTwo_digits a b
  | case4 a b c rest ih =>
      have hpad : digit v ((a.toNat * 65536 + b.toNat * 256 + c.toNat) % 64) ≠ '=' :=
        digit_ne_padding (Nat.mod_lt _ (by decide))
      simp only [encodeList, decodeList, hpad, decide_false, Bool.and_false, Bool.false_eq_true,
        if_false, fullGroup_digits, ih, Option.bind_eq_bind, Option.bind_some]
      rfl

/-- **A byte string is read back from its Base64 text**, in either variant. -/
@[simp] theorem decode_encode (v : Variant) (bs : Bytes) : decode v (encode v bs) = some bs := by
  rw [decode, encode, String.toList_ofList, decodeList_encodeList]

/-- A text without padding is made of digits alone. -/
theorem exists_digit_of_mem {bs : Bytes} {c : Char} (h : c ∈ encodeList .urlSafe bs) :
    ∃ n < 64, c = digit .urlSafe n := by
  induction bs using encodeList.induct with
  | case1 => cases h
  | case2 a =>
      have ha := a.toNat_lt
      simp only [encodeList, Variant.padded, Bool.false_eq_true, if_false, List.append_nil,
        List.mem_cons, List.not_mem_nil, or_false] at h
      rcases h with rfl | rfl
      · exact ⟨_, by omega, rfl⟩
      · exact ⟨_, Nat.mod_lt _ (by decide), rfl⟩
  | case3 a b =>
      have ha := a.toNat_lt
      have hb := b.toNat_lt
      simp only [encodeList, Variant.padded, Bool.false_eq_true, if_false, List.append_nil,
        List.mem_cons, List.not_mem_nil, or_false] at h
      rcases h with rfl | rfl | rfl
      · exact ⟨_, by omega, rfl⟩
      · exact ⟨_, Nat.mod_lt _ (by decide), rfl⟩
      · exact ⟨_, Nat.mod_lt _ (by decide), rfl⟩
  | case4 a b c rest ih =>
      have ha := a.toNat_lt
      have hb := b.toNat_lt
      have hc := c.toNat_lt
      simp only [encodeList, List.mem_cons] at h
      rcases h with rfl | rfl | rfl | rfl | h
      · exact ⟨_, by omega, rfl⟩
      · exact ⟨_, Nat.mod_lt _ (by decide), rfl⟩
      · exact ⟨_, Nat.mod_lt _ (by decide), rfl⟩
      · exact ⟨_, Nat.mod_lt _ (by decide), rfl⟩
      · exact ih h

/-! ## One text for each byte string -/

variable {c : Char} {cs : List Char} {bs : Bytes}

/-- A digit has a value below 64, for which it is written. -/
theorem digit_of_value? (h : value? v c = some n) : n < 64 ∧ digit v n = c := by
  simp only [value?, Bool.and_eq_true, decide_eq_true_eq] at h
  split_ifs at h with hupper hlower hdigit hfirst hsecond
  · obtain rfl : c.toNat - 65 = n := Option.some.inj h
    have hn : 65 + (c.toNat - 65) = c.toNat := by omega
    rw [digit, if_pos (by omega), hn, Char.ofNat_toNat]
    exact ⟨by omega, rfl⟩
  · obtain rfl : c.toNat - 71 = n := Option.some.inj h
    have hn : 71 + (c.toNat - 71) = c.toNat := by omega
    rw [digit, if_neg (by omega), if_pos (by omega), hn, Char.ofNat_toNat]
    exact ⟨by omega, rfl⟩
  · obtain rfl : c.toNat + 4 = n := Option.some.inj h
    have hn : c.toNat + 4 - 4 = c.toNat := by omega
    rw [digit, if_neg (by omega), if_neg (by omega), if_pos (by omega), hn, Char.ofNat_toNat]
    exact ⟨by omega, rfl⟩
  · cases h
    exact ⟨by decide, hfirst.symm⟩
  · cases h
    exact ⟨by decide, hsecond.symm⟩

/-- Three bytes read of four digits are written as these digits. -/
theorem encodeList_of_fullGroup {a b d : Char} (h : fullGroup v a b c d = some bs)
    (rest : Bytes) : encodeList v (bs ++ rest) = a :: b :: c :: d :: encodeList v rest := by
  simp only [fullGroup, Option.bind_eq_bind, Option.bind_eq_some_iff] at h
  obtain ⟨i, hi, j, hj, k, hk, l, hl, heq⟩ := h
  cases heq
  obtain ⟨hi64, hidigit⟩ := digit_of_value? hi
  obtain ⟨hj64, hjdigit⟩ := digit_of_value? hj
  obtain ⟨hk64, hkdigit⟩ := digit_of_value? hk
  obtain ⟨hl64, hldigit⟩ := digit_of_value? hl
  generalize hn : ((i * 64 + j) * 64 + k) * 64 + l = n
  have hbytes : (UInt8.ofNat (n / 65536)).toNat * 65536 + (UInt8.ofNat (n / 256)).toNat * 256 +
      (UInt8.ofNat n).toNat = n := by
    simp only [UInt8.toNat_ofNat']
    omega
  have hfirst : n / 262144 = i := by omega
  have hsecond : n / 4096 % 64 = j := by omega
  have hthird : n / 64 % 64 = k := by omega
  have hfourth : n % 64 = l := by omega
  simp only [List.cons_append, List.nil_append, encodeList, hbytes, hfirst, hsecond, hthird,
    hfourth, hidigit, hjdigit, hkdigit, hldigit]

theorem encodeList_of_lastTwo {a b : Char} (h : lastTwo v a b c = some bs) :
    encodeList v bs = [a, b, c] ++ if v.padded then ['='] else [] := by
  simp only [lastTwo, Option.bind_eq_bind, Option.bind_eq_some_iff] at h
  obtain ⟨i, hi, j, hj, k, hk, heq⟩ := h
  obtain ⟨hi64, hidigit⟩ := digit_of_value? hi
  obtain ⟨hj64, hjdigit⟩ := digit_of_value? hj
  obtain ⟨hk64, hkdigit⟩ := digit_of_value? hk
  generalize hn : (i * 64 + j) * 64 + k = n at heq
  split at heq
  · rename_i hunused
    cases heq
    have hbytes : ((UInt8.ofNat (n / 1024)).toNat * 256 + (UInt8.ofNat (n / 4)).toNat) * 4 = n := by
      simp only [UInt8.toNat_ofNat']
      omega
    have hfirst : n / 4096 = i := by omega
    have hsecond : n / 64 % 64 = j := by omega
    have hthird : n % 64 = k := by omega
    simp only [encodeList, hbytes, hfirst, hsecond, hthird, hidigit, hjdigit, hkdigit]
  · cases heq

theorem encodeList_of_lastOne {a b : Char} (h : lastOne v a b = some bs) :
    encodeList v bs = [a, b] ++ if v.padded then ['=', '='] else [] := by
  simp only [lastOne, Option.bind_eq_bind, Option.bind_eq_some_iff] at h
  obtain ⟨i, hi, j, hj, heq⟩ := h
  obtain ⟨hi64, hidigit⟩ := digit_of_value? hi
  obtain ⟨hj64, hjdigit⟩ := digit_of_value? hj
  generalize hn : i * 64 + j = n at heq
  split at heq
  · rename_i hunused
    cases heq
    have hbyte : (UInt8.ofNat (n / 16)).toNat * 16 = n := by
      rw [UInt8.toNat_ofNat']
      omega
    have hfirst : n / 64 = i := by omega
    have hsecond : n % 64 = j := by omega
    simp only [encodeList, hbyte, hfirst, hsecond, hidigit, hjdigit]
  · cases heq

/-- **What is read of a text is written as this text**: the unused bits are zero, and there is no
other padding. -/
theorem encodeList_of_decodeList (h : decodeList v cs = some bs) : encodeList v bs = cs := by
  fun_induction decodeList v cs generalizing bs with
  | case1 =>
      cases h
      rfl
  | case2 => cases h
  | case3 => cases h
  | case4 a b hpadded => rw [encodeList_of_lastOne h, if_neg hpadded, List.append_nil]
  | case5 => cases h
  | case6 a b c hpadded => rw [encodeList_of_lastTwo h, if_neg hpadded, List.append_nil]
  | case7 a b d rest hlast =>
      simp only [Bool.and_eq_true, List.isEmpty_iff, decide_eq_true_eq] at hlast
      rw [encodeList_of_lastOne h, if_pos hlast.1.1, hlast.1.2, hlast.2]
      rfl
  | case8 a b c d rest hlast hc =>
      simp only [Bool.and_eq_true, List.isEmpty_iff, decide_eq_true_eq] at hlast
      rw [encodeList_of_lastTwo h, if_pos hlast.1.1, hlast.1.2, hlast.2]
      rfl
  | case9 a b c d rest hlast ih =>
      simp only [Option.bind_eq_bind, Option.bind_eq_some_iff] at h
      obtain ⟨group, hgroup, bytes, hbytes, heq⟩ := h
      cases heq
      rw [encodeList_of_fullGroup hgroup, ih hbytes]

/-- The strict padded form: groups of four digits, the last of which may have two or three, made up
with padding, and no bit set that is not used. -/
inductive Strict : List Char → Prop
  | nil : Strict []
  | one {i j : Nat} (hi : i < 64) (hj : j < 64) (hunused : j % 16 = 0) :
    Strict [digit .standard i, digit .standard j, '=', '=']
  | two {i j k : Nat} (hi : i < 64) (hj : j < 64) (hk : k < 64) (hunused : k % 4 = 0) :
    Strict [digit .standard i, digit .standard j, digit .standard k, '=']
  | group {i j k l : Nat} {cs : List Char} (hi : i < 64) (hj : j < 64) (hk : k < 64) (hl : l < 64)
    (hcs : Strict cs) :
    Strict (digit .standard i :: digit .standard j :: digit .standard k :: digit .standard l :: cs)

theorem strict_encodeList (bs : Bytes) : Strict (encodeList .standard bs) := by
  induction bs using encodeList.induct with
  | case1 => exact .nil
  | case2 a =>
      have ha := a.toNat_lt
      exact .one (by omega) (by omega) (by omega)
  | case3 a b =>
      have ha := a.toNat_lt
      have hb := b.toNat_lt
      exact .two (by omega) (by omega) (by omega) (by omega)
  | case4 a b c rest ih =>
      have ha := a.toNat_lt
      have hb := b.toNat_lt
      have hc := c.toNat_lt
      exact .group (by omega) (by omega) (by omega) (by omega) ih

theorem exists_of_strict (h : Strict cs) : ∃ bs, decodeList .standard cs = some bs := by
  induction h with
  | nil => exact ⟨[], rfl⟩
  | @one i j hi hj hunused =>
      have hbits : (i * 64 + j) % 16 = 0 := by omega
      simp [decodeList, Variant.padded, lastOne, value?_digit hi, value?_digit hj, hbits]
  | @two i j k hi hj hk hunused =>
      have hbits : ((i * 64 + j) * 64 + k) % 4 = 0 := by omega
      simp [decodeList, Variant.padded, lastTwo, value?_digit hi, value?_digit hj, value?_digit hk,
        digit_ne_padding hk, hbits]
  | group hi hj hk hl _ ih =>
      obtain ⟨bs, hbs⟩ := ih
      simp [decodeList, fullGroup, value?_digit hi, value?_digit hj, value?_digit hk,
        value?_digit hl, digit_ne_padding hl, hbs]

/-- **Exactly the strict padded texts are read.** -/
theorem decode_isSome_iff {s : String} :
    (∃ bs, decode .standard s = some bs) ↔ Strict s.toList := by
  refine ⟨?_, exists_of_strict⟩
  rintro ⟨bs, hbs⟩
  rw [← encodeList_of_decodeList hbs]
  exact strict_encodeList bs

/-- Each text that is read is the one that is written for its bytes. -/
theorem encode_of_decode {s : String} (h : decode v s = some bs) : encode v bs = s := by
  rw [encode, encodeList_of_decodeList h, String.ofList_toList]

end PeerCall.Text.Base64
