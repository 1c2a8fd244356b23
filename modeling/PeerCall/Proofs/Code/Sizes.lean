import PeerCall.Proofs.Code.OwnCodes

/-!
# How long codes are

A code that decodes packs no more than is inflated of a code, so if its deflater does not waste
space it is short, and so is the description that it carries.
-/
namespace PeerCall

open Text

/-! ## Streams and their digits -/

namespace Deflate

/-- A deflater whose streams are no longer than twice what they hold, but for a kibibyte. -/
def Bounded (deflate : Bytes → Bytes) : Prop :=
  ∀ content, (deflate content).length ≤ 2 * content.length + 1024

theorem length_storedBlock (last : Bool) (content : Bytes) :
    (storedBlock last content).length = content.length + 5 := by
  rw [storedBlock, List.length_append, List.length_append, List.length_cons, Bytes.length_ofNatLE,
    Bytes.length_ofNatLE, Nat.add_comm]

theorem length_storedBlocks (blocks : Nat) (content : Bytes) :
    (storedBlocks blocks content).length = content.length + 5 * (blocks + 1) := by
  induction blocks generalizing content with
  | zero => exact length_storedBlock true content
  | succ blocks ih =>
      rw [storedBlocks, List.length_append, length_storedBlock, ih, List.length_take,
        List.length_drop]
      omega

/-- Stored blocks take five bytes each besides what they store. -/
theorem bounded_deflate : Bounded deflate := by
  intro content
  rw [deflate, length_storedBlocks, maxStored]
  omega

end Deflate

theorem Text.Base64.length_encodeList_le (v : Variant) (bs : Bytes) :
    (encodeList v bs).length ≤ 2 * bs.length + 2 := by
  have hpadding : ∀ pad : List Char, (if v.padded then pad else []).length ≤ pad.length := by
    intro pad
    split
    · exact Nat.le_refl _
    · exact Nat.zero_le _
  induction bs using encodeList.induct with
  | case1 => exact Nat.zero_le _
  | case2 a =>
      have hpad := hpadding ['=', '=']
      simp only [encodeList, List.length_append, List.length_cons, List.length_nil] at hpad ⊢
      omega
  | case3 a b =>
      have hpad := hpadding ['=']
      simp only [encodeList, List.length_append, List.length_cons, List.length_nil] at hpad ⊢
      omega
  | case4 a b c rest ih =>
      simp only [encodeList, List.length_cons]
      omega

/-! ## Texts -/

theorem Text.Utf8.size_pos {cs : List Char} (h : cs ≠ []) : 0 < size cs := by
  obtain ⟨c, rest, rfl⟩ := List.exists_cons_of_ne_nil h
  rw [size_cons]
  exact Nat.add_pos_left c.utf8Size_pos _

/-- Pieces that are each ended take little more than joined ones. -/
theorem Text.size_ended_le {pieces : List (List Char)} (h : ∀ piece ∈ pieces, piece ≠ []) :
    Utf8.size (pieces.flatMap (· ++ ['\r', '\n'])) ≤ 3 * Utf8.size (['\n'].intercalate pieces) := by
  have hend : Utf8.size ['\r', '\n'] = 2 ∧ Utf8.size ['\n'] = 1 := ⟨rfl, rfl⟩
  induction pieces with
  | nil => exact Nat.le_refl 0
  | cons piece pieces ih =>
      have hpiece := Utf8.size_pos (h piece (List.mem_cons_self ..))
      have hrest := ih fun x hx => h x (List.mem_cons_of_mem _ hx)
      rw [List.flatMap_cons, Utf8.size_append, Utf8.size_append, hend.1]
      by_cases hlast : pieces = []
      · subst hlast
        rw [List.intercalate_singleton, List.flatMap_nil, Utf8.size_nil]
        omega
      · rw [List.intercalate_cons_of_ne_nil hlast, Utf8.size_append, Utf8.size_append, hend.2]
        omega

/-! ## Codes -/

namespace Code

open Deflate

theorem size_le_of_mem_tokens : ∀ t ∈ tokens, Utf8.size t.2 ≤ 11 * Utf8.size ['~', t.1] := by
  decide

/-- No token is more than eleven times as long as its marker. -/
theorem Marked.size_source_le {cs out : List Char} (h : Marked cs out) :
    Utf8.size cs ≤ 11 * Utf8.size out := by
  induction h with
  | nil => exact Nat.le_refl 0
  | tilde _ ih =>
      simp only [Utf8.size_cons]
      omega
  | token hmem _ ih =>
      have htoken := size_le_of_mem_tokens _ hmem
      simp only [Utf8.size_cons, Utf8.size_nil, Utf8.size_append] at htoken ⊢
      omega
  | plain _ _ ih =>
      simp only [Utf8.size_cons]
      omega

variable {deflate : Bytes → Bytes} {kind : SdpKind} {sdp : String} {candidates : Nat}
  {decoded : Decoded}

/-- What a code carries is not much longer than what it packs. -/
theorem length_carried_le (kind : SdpKind) (sdp : String) (candidates : Nat) :
    (Utf8.encode (carried sdp candidates)).length ≤ 33 * (pack kind sdp candidates).length := by
  have hjoined : ['\n'].intercalate (lines (Sdp.minify sdp candidates).toList) =
      (Sdp.minify sdp candidates).toList := by
    rw [Sdp.lines_minify, Sdp.minify, String.toList_ofList]
  have hne : ∀ line ∈ lines (Sdp.minify sdp candidates).toList, line ≠ [] := by
    rw [Sdp.lines_minify]
    exact fun _ hline => (Sdp.tidy_of_mem_minifiedLines hline).ne_nil
  have hended := size_ended_le hne
  have hmarked := (marked_substitute (Sdp.minify sdp candidates).toList).size_source_le
  rw [hjoined] at hended
  rw [length_pack, Utf8.length_encode, Utf8.length_encode, carried, body, String.toList_ofList,
    String.toList_ofList]
  omega

/-- What is decoded of a code made here is short, -/
theorem length_decoded_le (hdeflate : Faithful deflate) (hsdp : Addressable sdp)
    (h : decode (encodeWith deflate kind sdp candidates) = .ok decoded) :
    (Utf8.encode decoded.sdp).length ≤ 33 * maxInflated := by
  obtain ⟨hpacked, rfl⟩ := packed_of_decode hdeflate hsdp h
  have hcarried := length_carried_le kind sdp candidates
  dsimp only
  omega

/-- and so is the code. -/
theorem length_code_le (hdeflate : Faithful deflate) (hbounded : Bounded deflate)
    (hsdp : Addressable sdp) (h : decode (encodeWith deflate kind sdp candidates) = .ok decoded) :
    (Utf8.encode (encodeWith deflate kind sdp candidates)).length ≤ 17 * maxInflated := by
  obtain ⟨hpacked, -⟩ := packed_of_decode hdeflate hsdp h
  have hstream := hbounded (pack kind sdp candidates)
  have hdigits := Base64.length_encodeList_le .urlSafe (deflate (pack kind sdp candidates))
  have hbytes := Utf8.length_encode_le (encodeWith deflate kind sdp candidates)
  have hlength : (encodeWith deflate kind sdp candidates).length =
      (Base64.encodeList .urlSafe (deflate (pack kind sdp candidates))).length :=
    String.length_ofList
  rw [maxInflated] at hpacked ⊢
  omega

end Code

end PeerCall
