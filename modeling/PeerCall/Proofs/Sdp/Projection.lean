import PeerCall.Proofs.Code.OwnCodes
import PeerCall.Proofs.Sdp.Minified

/-!
# Minifying again

A minified description is minified already, and it does not matter whether its lines are joined by
line feeds or each of them is ended by a carriage return and a line feed. Every line that is kept
counts for the same kind of line when it is met again, a media line also without the payload types
that were left out of it, and a cap behind a cap is the smaller one. So a code that is decoded and
encoded again packs the same bytes.
-/
namespace PeerCall.Sdp

open Text

variable {line : Line} {lines : List Line} {text : List Char} {m n : Nat}

/-! ## Media lines met again -/

/-- Whether a text starts with something that holds no separator is settled in its first piece. -/
theorem prefix_iff_prefix_head {sep : Char} {start : List Char} (hstart : sep ∉ start)
    (cs : List Char) :
    start <+: cs ↔ start <+: (split sep cs).head (split_ne_nil sep cs) := by
  induction cs generalizing start with
  | nil => rfl
  | cons c cs ih =>
      by_cases hc : c = sep
      · subst hc
        simp only [split_cons_sep, List.head_cons, List.prefix_nil]
        cases start with
        | nil => simp
        | cons a start =>
            have ha : a ≠ c := fun heq => hstart (heq ▸ List.mem_cons_self ..)
            simp [List.cons_prefix_cons, ha]
      · obtain ⟨first, pieces, heq, heq'⟩ := split_cons hc cs
        simp only [heq] at ih
        simp only [heq', List.head_cons]
        cases start with
        | nil => simp
        | cons a start =>
            have hrest : sep ∉ start := fun hmem => hstart (List.mem_cons_of_mem _ hmem)
            rw [List.cons_prefix_cons, List.cons_prefix_cons, ih hrest, List.head_cons]

/-- The fields of a media line that lost payload types are those that are left. -/
theorem split_trimMedia {allowed : List Line} (hsub : allowed.Sublist ((split ' ' line).drop 3))
    (heq : trimMedia line = [' '].intercalate ((split ' ' line).take 3 ++ allowed)) :
    split ' ' (trimMedia line) = (split ' ' line).take 3 ++ allowed := by
  rw [heq, split_intercalate]
  · obtain ⟨first, fields, hfields⟩ := List.exists_cons_of_ne_nil (split_ne_nil ' ' line)
    simp [hfields]
  · intro field hfield
    rcases List.mem_append.mp hfield with hfield | hfield
    · exact not_mem_of_mem_split (List.mem_of_mem_take hfield)
    · exact not_mem_of_mem_split (List.mem_of_mem_drop (hsub.subset hfield))

/-- The first field of a media line stays as it is. -/
theorem head_split_trimMedia (line : Line) :
    (split ' ' (trimMedia line)).head (split_ne_nil _ _) =
      (split ' ' line).head (split_ne_nil _ _) := by
  rcases trimMedia_cases line with heq | ⟨allowed, -, hsub, -, heq⟩
  · simp only [heq]
  · obtain ⟨first, fields, hfields⟩ := List.exists_cons_of_ne_nil (split_ne_nil ' ' line)
    have hsplit := split_trimMedia hsub heq
    simp only [hsplit, hfields, List.take_succ_cons, List.cons_append, List.head_cons]

/-- A media line without payload types that were left out has no more to lose. -/
theorem trimMedia_trimMedia (line : Line) : trimMedia (trimMedia line) = trimMedia line := by
  rcases trimMedia_cases line with heq | ⟨allowed, hne, hsub, hallowed, heq⟩
  · rw [heq, heq]
  · have hfields := split_trimMedia hsub heq
    have hlength : ((split ' ' line).take 3).length = 3 := by
      have hlost := hsub.length_le
      have hsome := List.length_pos_of_ne_nil hne
      rw [List.length_drop] at hlost
      rw [List.length_take]
      omega
    have htake : ((split ' ' line).take 3 ++ allowed).take 3 = (split ' ' line).take 3 :=
      List.take_left' hlength
    have hdrop : ((split ' ' line).take 3 ++ allowed).drop 3 = allowed := List.drop_left' hlength
    have hfilter : allowed.filter allowedTypes.contains = allowed :=
      List.filter_eq_self.mpr fun format hformat =>
        List.contains_iff_mem.mpr (hallowed format hformat)
    conv_lhs => rw [trimMedia]
    simp only [hfields, htake, hdrop, hfilter]
    rw [← heq]
    split
    · rfl
    · split <;> rfl

/-- Media lines are told by what they start with. -/
theorem kindOf_eq_media_iff : kindOf line = .media ↔ "m=".toList <+: line := by
  refine ⟨fun h => ?_, ?_⟩
  · rw [← List.isPrefixOf_iff_prefix]
    by_contra hstart
    have hnone : after? "m=" line = none := if_neg hstart
    unfold kindOf at h
    rw [hnone] at h
    split at h
    · split at h <;> cases h
    · split at h
      · contradiction
      · split at h
        · split at h <;> cases h
        · split at h <;> cases h
  · rintro ⟨rest, rfl⟩
    rfl

/-- A media line that lost payload types is a media line. -/
theorem kindOf_trimMedia (h : kindOf line = .media) : kindOf (trimMedia line) = .media := by
  have hspace : ' ' ∉ "m=".toList := by decide
  rw [kindOf_eq_media_iff, prefix_iff_prefix_head hspace] at h ⊢
  rwa [head_split_trimMedia]

/-! ## Kept lines met again -/

/-- **A cap behind a cap is the smaller one**, and nothing else happens to lines that were kept. -/
theorem keep_keep (m n : Nat) (lines : List Line) :
    keep n (keep m lines) = keep (min m n) lines := by
  induction lines generalizing m n with
  | nil => rfl
  | cons line lines ih =>
      cases hkind : kindOf line with
      | udpCandidate =>
          cases m with
          | zero => simp only [keep, hkind, Nat.zero_min, ih]
          | succ m =>
              cases n with
              | zero => simp only [keep, hkind, Nat.min_zero, ih]
              | succ n => simp only [keep, hkind, Nat.succ_min_succ, ih]
      | media => simp only [keep, hkind, kindOf_trimMedia hkind, trimMedia_trimMedia, ih]
      | kept => simp only [keep, hkind, ih]
      | dropped => simp only [keep, hkind, ih]

/-- No line starts with a byte-order mark and counts. -/
theorem head?_ne_mark (h : kindOf line ≠ .dropped) : line.head? ≠ some '\ufeff' := by
  intro hmark
  obtain ⟨rest, rfl⟩ := List.head?_eq_some_iff.mp hmark
  exact h rfl

theorem kindOf_of_mem_keep (h : line ∈ keep n lines) : kindOf line ≠ .dropped := by
  induction lines generalizing n with
  | nil => cases h
  | cons first lines ih =>
      unfold keep at h
      split at h
      · rename_i hkind
        split at h
        · exact ih h
        · rcases List.mem_cons.mp h with rfl | h
          · rw [hkind]
            exact LineKind.noConfusion
          · exact ih h
      · rename_i hkind
        rcases List.mem_cons.mp h with rfl | h
        · rw [kindOf_trimMedia hkind]
          exact LineKind.noConfusion
        · exact ih h
      · rename_i hkind
        rcases List.mem_cons.mp h with rfl | h
        · rw [hkind]
          exact LineKind.noConfusion
        · exact ih h
      · exact ih h

/-- A tidy line without a byte-order mark in front: it is met again as it is. -/
structure Clean (line : Line) : Prop extends Tidy line where
  head : line.head? ≠ some '\ufeff'

theorem clean_of_mem_minifiedLines (h : line ∈ minifiedLines text n) : Clean line :=
  ⟨tidy_of_mem_minifiedLines h, head?_ne_mark (kindOf_of_mem_keep h)⟩

/-! ## Lines joined or ended -/

/-- A text with each of its lines ended by a carriage return and a line feed. -/
def lineEnded (text : String) : String :=
  String.ofList ((Text.lines text.toList).flatMap (· ++ ['\r', '\n']))

/-- The lines of a text that begins with a clean one. -/
theorem linesOf_append (h : Clean line) (rest : List Char) :
    linesOf (line ++ rest) = ((split '\n' (line ++ rest)).map trimEnd).filter (· ≠ []) := by
  rw [linesOf]
  intro after hmark
  apply h.head
  have hhead : (line ++ rest).head? = line.head? := List.head?_append_of_ne_nil line h.ne_nil
  rw [← hhead, hmark]
  rfl

theorem filter_trimEnd (h : ∀ line ∈ lines, Clean line) :
    (lines.map trimEnd).filter (· ≠ []) = lines := by
  have htrimmed : lines.map trimEnd = lines := by
    calc lines.map trimEnd
      _ = lines.map id := List.map_congr_left fun line hline => (h line hline).trimmed
      _ = lines := List.map_id lines
  rw [htrimmed, List.filter_eq_self]
  exact fun line hline => decide_eq_true (h line hline).ne_nil

/-- Clean lines that are joined are the lines of the text. -/
theorem linesOf_joined (h : ∀ line ∈ lines, Clean line) :
    linesOf (['\n'].intercalate lines) = lines := by
  cases lines with
  | nil => rfl
  | cons first rest =>
      have hfirst := h first (List.mem_cons_self ..)
      obtain ⟨back, hback⟩ : ∃ back, ['\n'].intercalate (first :: rest) = first ++ back := by
        cases rest with
        | nil => exact ⟨[], by simp⟩
        | cons second rest => exact ⟨_, List.intercalate_cons_cons.trans (List.append_assoc ..)⟩
      rw [hback, linesOf_append hfirst, ← hback,
        split_intercalate (List.cons_ne_nil _ _) fun line hline => (h line hline).one]
      exact filter_trimEnd h

/-- Clean lines that are each ended are the lines of the text. -/
theorem linesOf_ended (h : ∀ line ∈ lines, Clean line) :
    linesOf (lines.flatMap (· ++ ['\r', '\n'])) = lines := by
  cases lines with
  | nil => rfl
  | cons first rest =>
      have hfirst := h first (List.mem_cons_self ..)
      have hpieces := Code.split_ended fun line hline => (h line hline).one
      have hreturn : ∀ line, trimEnd (line ++ ['\r']) = trimEnd line := trimEnd_concat_blank rfl
      have hlines := filter_trimEnd h
      rw [List.flatMap_cons, List.append_assoc] at hpieces ⊢
      rw [linesOf_append hfirst, hpieces, List.map_append, List.map_map, List.filter_append]
      simp only [Function.comp_def, hreturn, hlines]
      exact List.append_nil _

/-! ## Minified descriptions -/

/-- What is minified again under another cap is minified under the smaller one. -/
theorem minify_minify (sdp : String) (m n : Nat) :
    minify (minify sdp m) n = minify sdp (min m n) := by
  have hlines : linesOf (minify sdp m).toList = minifiedLines sdp.toList m := by
    rw [minify, String.toList_ofList]
    exact linesOf_joined fun _ => clean_of_mem_minifiedLines
  rw [minify, minifiedLines, hlines, minifiedLines, keep_keep]
  rfl

theorem minify_lineEnded (sdp : String) (m n : Nat) :
    minify (lineEnded (minify sdp m)) n = minify sdp (min m n) := by
  have hlines : linesOf (lineEnded (minify sdp m)).toList = minifiedLines sdp.toList m := by
    rw [lineEnded, String.toList_ofList, lines_minify]
    exact linesOf_ended fun _ => clean_of_mem_minifiedLines
  rw [minify, minifiedLines, hlines, minifiedLines, keep_keep]
  rfl

/-! ## Codes of decoded descriptions -/

section
open Code Deflate

/-- What a code made here decodes to has the kind that was encoded and the lines of the minified
description, each of them ended. -/
theorem eq_of_decode {deflate : Bytes → Bytes} (hdeflate : Faithful deflate) {sdp : String}
    (hsdp : Addressable sdp) {kind : SdpKind} {decoded : Decoded}
    (h : decode (encodeWith deflate kind sdp n) = .ok decoded) :
    decoded = ⟨kind, lineEnded (minify sdp n)⟩ :=
  (packed_of_decode hdeflate hsdp h).2

/-- **Minifying is a projection.** A description that was minified stays as it is, whether its lines
are joined or each of them is ended. So a description that comes out of a code packs the same bytes
when it is encoded again. -/
theorem minify_projection (sdp : String) (candidates : Nat) :
    minify (minify sdp candidates) candidates = minify sdp candidates ∧
    minify (lineEnded (minify sdp candidates)) candidates = minify sdp candidates ∧
    ∀ deflate kind decoded, Faithful deflate → Addressable sdp →
      decode (encodeWith deflate kind sdp candidates) = .ok decoded →
      pack decoded.kind decoded.sdp candidates = pack kind sdp candidates := by
  have hended : minify (lineEnded (minify sdp candidates)) candidates = minify sdp candidates := by
    rw [minify_lineEnded, Nat.min_self]
  refine ⟨by rw [minify_minify, Nat.min_self], hended, ?_⟩
  intro deflate kind decoded hdeflate hsdp hdecoded
  rw [eq_of_decode hdeflate hsdp hdecoded, pack, pack, hended]

/-- A byte-order mark, a media line with an empty field, a carriage return within a line and one
candidate too many. -/
def raggedOffer : String :=
  "\ufeffm=audio  9 0 5 96 \r\n\na=mid:\rx\t\r\na=candidate:1 1 Udp 5\na=candidate:2 1 udp 5\n"

theorem minify_projection_ragged :
    ∃ decoded, decode (encodeWith Deflate.deflate .offer raggedOffer 1) = .ok decoded ∧
      decoded.sdp = "m=audio  9 0 96\r\na=mid:\rx\r\na=candidate:1 1 Udp 5\r\n" ∧
      pack decoded.kind decoded.sdp 1 = pack .offer raggedOffer 1 := by
  have hshort : Addressable raggedOffer := by decide
  have hdecodes : decode (encodeWith Deflate.deflate .offer raggedOffer 1) =
      .ok ⟨.offer, carried raggedOffer 1⟩ := by
    rw [decode_encodeWith faithful_deflate]
    exact decodeCompact_of_le faithful_deflate hshort (by decide)
  exact ⟨_, hdecodes, by decide,
    (minify_projection raggedOffer 1).2.2 _ _ _ faithful_deflate hshort hdecodes⟩

end

end PeerCall.Sdp
