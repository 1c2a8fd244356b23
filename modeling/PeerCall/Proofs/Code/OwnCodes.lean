import Mathlib.Algebra.Group.Nat.Defs
import PeerCall.Code.Basic
import PeerCall.Proofs.Binary.RoundTrip
import PeerCall.Proofs.Code.Markers
import PeerCall.Proofs.Deflate.Stored
import PeerCall.Proofs.Json.Scalars
import PeerCall.Proofs.Sdp.Minified
import PeerCall.Proofs.Text.Base64

/-!
# Codes made here

A code gives back the minified description, whatever the description is and however its bytes were
deflated, as long as the packed form is no longer than what is inflated of a code. A longer one is
cut in the middle of its text and refused: nothing on the writing side keeps to the limit.
-/
namespace PeerCall.Code

open Binary Deflate Text

variable {deflate : Bytes → Bytes} {kind : SdpKind} {sdp : String} {candidates : Nat}

/-- The code of a description under any deflater. -/
def encodeWith (deflate : Bytes → Bytes) (kind : SdpKind) (sdp : String) (candidates : Nat) :
    String :=
  Base64.encode .urlSafe (deflate (pack kind sdp candidates))

theorem encode_eq (kind : SdpKind) (sdp : String) (candidates : Nat) :
    encode kind sdp candidates = encodeWith Deflate.deflate kind sdp candidates := rfl

/-- A text short enough for its bytes to be addressed. -/
def Addressable (s : String) : Prop := (Utf8.encode s).length < 2 ^ 63

instance (s : String) : Decidable (Addressable s) :=
  inferInstanceAs (Decidable ((Utf8.encode s).length < 2 ^ 63))

/-! ## What is packed -/

/-- The minified description with markers. -/
def body (sdp : String) (candidates : Nat) : String :=
  String.ofList (substitute (Sdp.minify sdp candidates).toList)

/-- What the code of a description packs. -/
def payload (kind : SdpKind) (sdp : String) (candidates : Nat) : Payload :=
  ⟨version, kind, body sdp candidates⟩

/-- What stands in front of the text: the version, the kind and how long the text is. -/
def packHead (kind : SdpKind) (length : Nat) : Bytes :=
  Format.u8.encode version ++
    ((Format.choice [.offer, .answer]).encode kind ++ (Format.number 8).encode length)

theorem length_packHead (kind : SdpKind) (length : Nat) : (packHead kind length).length = 13 := by
  cases kind <;> rfl

theorem pack_eq (kind : SdpKind) (sdp : String) (candidates : Nat) :
    pack kind sdp candidates = packHead kind (Utf8.encode (body sdp candidates)).length ++
      Utf8.encode (body sdp candidates) := by
  rw [packHead, List.append_assoc, List.append_assoc]
  rfl

theorem length_pack (kind : SdpKind) (sdp : String) (candidates : Nat) :
    (pack kind sdp candidates).length = 13 + (Utf8.encode (body sdp candidates)).length := by
  rw [pack_eq, List.length_append, length_packHead]

/-- Minifying only shortens, and markers make a text twice as long at most. -/
theorem length_body_le (sdp : String) (candidates : Nat) :
    (Utf8.encode (body sdp candidates)).length ≤ 2 * (Utf8.encode sdp).length := by
  rw [Utf8.length_encode, Utf8.length_encode, body, String.toList_ofList]
  have hminified := Utf8.size_le_of_sublist (Sdp.minify_sublist sdp candidates)
  have hmarked := size_substitute_le (Sdp.minify sdp candidates).toList
  omega

theorem Addressable.counted_body (h : Addressable sdp) (candidates : Nat) :
    Format.Counted (Utf8.encode (body sdp candidates)) := by
  have hle := length_body_le sdp candidates
  have hbound : Bytes.bound 8 = 2 * 2 ^ 63 := by decide
  rw [Format.Counted, hbound]
  rw [Addressable] at h
  omega

theorem reads_kind (kind : SdpKind) : (Format.choice [SdpKind.offer, .answer]).Reads kind :=
  Format.reads_choice (by cases kind <;> decide) (by decide)

/-- A packed description is read back. -/
theorem decode_pack (h : Addressable sdp) :
    Payload.format.decode (pack kind sdp candidates) = .ok (payload kind sdp candidates, []) := by
  have hreads : Payload.format.Reads (payload kind sdp candidates) :=
    Format.Reads.imap ((Format.reads_u8 version).pair ((reads_kind kind).pair
      (Format.reads_text (h.counted_body candidates)))) rfl
  have hall := hreads []
  rw [List.append_nil] at hall
  exact hall

/-- A packed description that was cut ends in the middle of its text. -/
theorem decode_pack_take (h : Addressable sdp) {limit : Nat} (hhead : 13 ≤ limit)
    (hlimit : limit < (pack kind sdp candidates).length) :
    Payload.format.decode ((pack kind sdp candidates).take limit) = .error .endsInText := by
  -- The head takes 13 bytes, so what is cut behind it is cut in the text.
  have hshort : limit - 13 < (Utf8.encode (body sdp candidates)).length := by
    rw [length_pack] at hlimit
    omega
  have htext := Format.decode_text_take (h.counted_body candidates) hshort
  rw [pack_eq, List.take_append, length_packHead,
    List.take_of_length_le (by rw [length_packHead]; exact hhead), packHead, List.append_assoc,
    List.append_assoc]
  simp only [Payload.format, Format.imap, Format.pair, Format.reads_u8 version _, reads_kind kind _,
    htext, bind, Except.bind, Except.map]

/-! ## What the text of a code looks like -/

theorem digit_plain {n : Nat} (hn : n < 64) : isBlank (Base64.digit .urlSafe n) = false ∧
    Json.isBlank (Base64.digit .urlSafe n) = false ∧
    Json.isStructural (Base64.digit .urlSafe n) = false := by
  have hall : ∀ n < 64, isBlank (Base64.digit .urlSafe n) = false ∧
      Json.isBlank (Base64.digit .urlSafe n) = false ∧
      Json.isStructural (Base64.digit .urlSafe n) = false := by
    decide
  exact hall n hn

/-- A text of digits has no JSON form of a description: it is one word or one number at most. -/
theorem decodeJson_digits {bs : Bytes} (hne : Base64.encodeList .urlSafe bs ≠ []) :
    decodeJson (Base64.encode .urlSafe bs) = none := by
  obtain ⟨c, rest, htext⟩ := List.exists_cons_of_ne_nil hne
  obtain ⟨n, hn, rfl⟩ := Base64.exists_digit_of_mem (htext ▸ List.mem_cons_self ..)
  obtain ⟨-, hblank, hstructural⟩ := digit_plain hn
  rw [decodeJson]
  cases hvalue : Json.parse? (Base64.encode .urlSafe bs) with
  | none => rfl
  | some v =>
      have hscalar := Json.isScalar_of_parse? (by rw [Base64.encode, String.toList_ofList, htext])
        hstructural hblank hvalue
      cases v with
      | text _ | array _ | object _ => cases hscalar
      | _ => rfl

/-! ## What a code carries -/

/-- The lines of the minified description, each with a carriage return and a line feed behind it. -/
def carried (sdp : String) (candidates : Nat) : String :=
  String.ofList ((lines (Sdp.minify sdp candidates).toList).flatMap (· ++ ['\r', '\n']))

theorem withLineEnds_minify (sdp : String) (candidates : Nat) :
    withLineEnds (Sdp.minify sdp candidates).toList =
      (lines (Sdp.minify sdp candidates).toList).flatMap (· ++ ['\r', '\n']) := by
  have htidy : ∀ line ∈ Sdp.minifiedLines sdp.toList candidates, Sdp.Tidy line :=
    fun _ hline => Sdp.tidy_of_mem_minifiedLines hline
  rw [Sdp.lines_minify, withLineEnds, Sdp.minify, String.toList_ofList]
  by_cases hnone : Sdp.minifiedLines sdp.toList candidates = []
  · rw [hnone]
    rfl
  · rw [split_intercalate hnone fun line hline => (htidy line hline).one,
      List.filter_eq_self.mpr fun line hline => decide_eq_true (htidy line hline).ne_nil]

theorem split_ended {lines : List (List Char)} (h : ∀ line ∈ lines, '\n' ∉ line) :
    split '\n' (lines.flatMap (· ++ ['\r', '\n'])) = lines.map (· ++ ['\r']) ++ [[]] := by
  induction lines with
  | nil => rfl
  | cons line lines ih =>
      have hline : '\n' ∉ line ++ ['\r'] := by
        rw [List.mem_append, List.mem_singleton]
        exact not_or.mpr ⟨h line (List.mem_cons_self ..), by decide⟩
      have hsplit := split_append hline (lines.flatMap (· ++ ['\r', '\n']))
      rw [ih fun x hx => h x (List.mem_cons_of_mem _ hx), List.append_assoc] at hsplit
      rw [List.flatMap_cons, List.map_cons, List.cons_append, ← hsplit, List.append_assoc]
      rfl

/-- Two minified descriptions that are carried alike are one. -/
theorem minify_eq_of_carried {sdp' : String} {candidates' : Nat}
    (h : carried sdp candidates = carried sdp' candidates') :
    Sdp.minify sdp candidates = Sdp.minify sdp' candidates' := by
  have hpieces : ∀ sdp candidates, split '\n' (carried sdp candidates).toList =
      (Sdp.minifiedLines sdp.toList candidates).map (· ++ ['\r']) ++ [[]] := by
    intro sdp candidates
    rw [carried, String.toList_ofList, Sdp.lines_minify]
    exact split_ended fun line hline => (Sdp.tidy_of_mem_minifiedLines hline).one
  have hlines := hpieces sdp candidates
  rw [h, hpieces sdp' candidates'] at hlines
  have hsame : Sdp.minifiedLines sdp'.toList candidates' =
      Sdp.minifiedLines sdp.toList candidates :=
    (List.map_injective_iff.mpr (List.append_left_injective _)) (List.append_cancel_right hlines)
  rw [Sdp.minify, Sdp.minify, hsame]

/-! ## Decoding -/

theorem unpack_encodeWith (hdeflate : Faithful deflate) :
    unpack (encodeWith deflate kind sdp candidates) =
      .ok ((pack kind sdp candidates).take maxInflated) := by
  rw [unpack, encodeWith, Base64.decode_encode]
  dsimp only
  rw [hdeflate.inflate_eq]

/-- A stream that holds something is not empty. -/
theorem encodeList_ne_nil (hdeflate : Faithful deflate) (content : Bytes) :
    Base64.encodeList .urlSafe (deflate content) ≠ [] := by
  intro hnil
  have hstream := Base64.decodeList_encodeList .urlSafe (deflate content)
  rw [hnil] at hstream
  have hinflate := hdeflate content (content.length + 1) (Nat.le_succ _)
  rw [← Option.some.inj hstream] at hinflate
  cases hinflate

/-- A code made here is read as the packed form or not at all. -/
theorem decode_encodeWith (hdeflate : Faithful deflate) :
    decode (encodeWith deflate kind sdp candidates) =
      decodeCompact (encodeWith deflate kind sdp candidates) := by
  have hne := encodeList_ne_nil hdeflate (pack kind sdp candidates)
  -- Digits are not blank, so nothing is trimmed, and no digit opens a description in JSON.
  have htrim : trim (encodeWith deflate kind sdp candidates).toList =
      (encodeWith deflate kind sdp candidates).toList := by
    apply trim_of_forall
    intro c hc
    rw [encodeWith, Base64.encode, String.toList_ofList] at hc
    obtain ⟨n, hn, rfl⟩ := Base64.exists_digit_of_mem hc
    exact (digit_plain hn).1
  have hempty : (encodeWith deflate kind sdp candidates).isEmpty = false := by
    rw [String.isEmpty_eq_false_iff, ne_eq, ← String.toList_eq_nil_iff, encodeWith, Base64.encode,
      String.toList_ofList]
    exact hne
  rw [decode, htrim, String.ofList_toList, if_neg (by rw [hempty]; exact Bool.false_ne_true)]
  cases hcompact : decodeCompact (encodeWith deflate kind sdp candidates) with
  | ok decoded => rfl
  | error e =>
      have hjson : decodeJson (encodeWith deflate kind sdp candidates) = none :=
        decodeJson_digits hne
      rw [hjson]

theorem decodeCompact_of_le (hdeflate : Faithful deflate) (h : Addressable sdp)
    (hle : (pack kind sdp candidates).length ≤ maxInflated) :
    decodeCompact (encodeWith deflate kind sdp candidates) =
      .ok ⟨kind, carried sdp candidates⟩ := by
  rw [decodeCompact, unpack_encodeWith hdeflate, List.take_of_length_le hle]
  simp only [bind, Except.bind, decode_pack h, payload, body, ne_eq, not_true_eq_false, if_false,
    String.toList_ofList, restore_substitute, withLineEnds_minify]
  rfl

theorem decodeCompact_of_gt (hdeflate : Faithful deflate) (h : Addressable sdp)
    (hgt : maxInflated < (pack kind sdp candidates).length) :
    decodeCompact (encodeWith deflate kind sdp candidates) = .error (.invalid .badPayload) := by
  rw [decodeCompact, unpack_encodeWith hdeflate]
  simp only [bind, Except.bind, decode_pack_take h (by decide) hgt]
  rfl

/-- A code that decodes packs no more than is inflated, and its description is the one carried. -/
theorem packed_of_decode (hdeflate : Faithful deflate) (hsdp : Addressable sdp)
    {decoded : Decoded} (h : decode (encodeWith deflate kind sdp candidates) = .ok decoded) :
    (pack kind sdp candidates).length ≤ maxInflated ∧ decoded = ⟨kind, carried sdp candidates⟩ := by
  rw [decode_encodeWith hdeflate] at h
  have hle : (pack kind sdp candidates).length ≤ maxInflated := by
    refine Nat.le_of_not_lt fun hgt => ?_
    rw [decodeCompact_of_gt hdeflate hsdp hgt] at h
    cases h
  rw [decodeCompact_of_le hdeflate hsdp hle] at h
  exact ⟨hle, (Except.ok.inj h).symm⟩

/-- **A code carries exactly the minified description.** What a code made here decodes to has the
kind that was encoded and the lines of the minified description, each with its line end; so two
descriptions with one code are the same once minified. -/
theorem decode_carries_minified (hdeflate : Faithful deflate) (h : Addressable sdp)
    {decoded : Decoded} (hdecoded : decode (encodeWith deflate kind sdp candidates) = .ok decoded) :
    decoded.kind = kind ∧
    decoded.sdp = String.ofList
      ((lines (Sdp.minify sdp candidates).toList).flatMap (· ++ ['\r', '\n'])) ∧
    ∀ kind' sdp' candidates', Addressable sdp' →
      decode (encodeWith deflate kind' sdp' candidates') = .ok decoded →
      kind' = kind ∧ Sdp.minify sdp' candidates' = Sdp.minify sdp candidates := by
  have hcarries : ∀ kind sdp candidates, Addressable sdp →
      decode (encodeWith deflate kind sdp candidates) = .ok decoded →
      decoded = ⟨kind, carried sdp candidates⟩ := by
    intro kind sdp candidates h hdecoded
    rw [decode_encodeWith hdeflate] at hdecoded
    rcases Nat.lt_or_ge maxInflated (pack kind sdp candidates).length with hgt | hle
    · rw [decodeCompact_of_gt hdeflate h hgt] at hdecoded
      cases hdecoded
    · rw [decodeCompact_of_le hdeflate h hle] at hdecoded
      exact (Except.ok.inj hdecoded).symm
  obtain rfl := hcarries kind sdp candidates h hdecoded
  refine ⟨rfl, rfl, ?_⟩
  intro kind' sdp' candidates' h' hdecoded'
  obtain ⟨hkind, hsdp⟩ := Decoded.mk.inj (hcarries kind' sdp' candidates' h' hdecoded')
  exact ⟨hkind.symm, (minify_eq_of_carried hsdp).symm⟩

/-- A name with pieces that look like a marker, an escape and a token, and an odd line ending. -/
theorem decode_carries_minified_lookalike :
    ∃ decoded,
      decode (encodeWith Deflate.deflate .answer "s=~A~~ typ host\rx \r\n" 3) = .ok decoded ∧
      decoded.kind = .answer ∧ decoded.sdp = "s=~A~~ typ host\rx\r\n" := by
  have hshort : Addressable "s=~A~~ typ host\rx \r\n" := by decide
  have hdecodes : decode (encodeWith Deflate.deflate .answer "s=~A~~ typ host\rx \r\n" 3) =
      .ok ⟨.answer, carried "s=~A~~ typ host\rx \r\n" 3⟩ := by
    rw [decode_encodeWith faithful_deflate]
    exact decodeCompact_of_le faithful_deflate hshort (by decide)
  obtain ⟨hkind, hsdp, -⟩ := decode_carries_minified faithful_deflate hshort hdecodes
  exact ⟨_, hdecodes, hkind, hsdp.trans (by decide)⟩

/-! ## Codes that are refused -/

/-- **A code made here is refused if and only if it packs more than is inflated of a code.** What is
refused then is the text that was cut. A description of up to 32761 bytes has a code that
decodes. -/
theorem decodes_iff_fits (hdeflate : Faithful deflate) (h : Addressable sdp) :
    ((∃ decoded, decode (encodeWith deflate kind sdp candidates) = .ok decoded) ↔
      (pack kind sdp candidates).length ≤ maxInflated) ∧
    (maxInflated < (pack kind sdp candidates).length →
      decode (encodeWith deflate kind sdp candidates) = .error (.invalid .badPayload)) ∧
    ((Utf8.encode sdp).length ≤ 32761 →
      ∃ decoded, decode (encodeWith deflate kind sdp candidates) = .ok decoded) := by
  rw [decode_encodeWith hdeflate]
  have hfits : (pack kind sdp candidates).length ≤ maxInflated →
      ∃ decoded, decodeCompact (encodeWith deflate kind sdp candidates) = .ok decoded :=
    fun hle => ⟨_, decodeCompact_of_le hdeflate h hle⟩
  refine ⟨⟨?_, hfits⟩, decodeCompact_of_gt hdeflate h, ?_⟩
  · rintro ⟨decoded, hdecoded⟩
    refine Nat.le_of_not_lt fun hgt => ?_
    rw [decodeCompact_of_gt hdeflate h hgt] at hdecoded
    cases hdecoded
  · intro hshort
    have hbody := length_body_le sdp candidates
    apply hfits
    rw [length_pack, maxInflated]
    omega

theorem decodes_iff_fits_candidate :
    ∃ decoded,
      decode (encodeWith Deflate.deflate .offer "a=candidate:1 1 udp 5 1.2.3.4 9 typ host" 3) =
        .ok decoded :=
  (decodes_iff_fits faithful_deflate (by decide)).2.2 (by decide)

/-- A session name of tildes, each of which takes two characters with markers. -/
def tildes (n : Nat) : String := String.ofList ('s' :: '=' :: List.replicate n '~')

theorem tidy_tildes (n : Nat) : Sdp.Tidy ('s' :: '=' :: List.replicate n '~') := by
  refine ⟨List.cons_ne_nil _ _, ?_, ?_⟩
  · rw [List.mem_cons, List.mem_cons, List.mem_replicate]
    rintro (heq | heq | ⟨-, heq⟩) <;> cases heq
  · cases n with
    | zero => rfl
    | succ n =>
        rw [List.replicate_succ']
        exact trimEnd_concat rfl ('s' :: '=' :: List.replicate n '~')

theorem substitute_replicate (n : Nat) :
    substitute (List.replicate n '~') = List.replicate (2 * n) '~' := by
  induction n with
  | zero => rfl
  | succ n ih =>
      rw [List.replicate_succ, substitute, substituteFrom, if_pos rfl, ← substitute, ih,
        Nat.mul_succ,
        List.replicate_succ, List.replicate_succ]

theorem length_pack_tildes (kind : SdpKind) (n candidates : Nat) :
    (pack kind (tildes n) candidates).length = 15 + 2 * n := by
  have hminified : Sdp.minify (tildes n) candidates = tildes n :=
    Sdp.minify_line (tidy_tildes n) rfl (by simp) candidates
  have hmarked : substitute ('s' :: '=' :: List.replicate n '~') =
      's' :: '=' :: List.replicate (2 * n) '~' :=
    congrArg ('s' :: '=' :: ·) (substitute_replicate n)
  have hsize : ('s').utf8Size = 1 ∧ ('=').utf8Size = 1 ∧ ('~').utf8Size = 1 := ⟨rfl, rfl, rfl⟩
  rw [length_pack, Utf8.length_encode, body, hminified, tildes, String.toList_ofList,
    String.toList_ofList, hmarked, Utf8.size_cons, Utf8.size_cons, Utf8.size_replicate, hsize.1,
    hsize.2.1, hsize.2.2]
  omega

/-- The code of a name of 32761 tildes is refused. -/
theorem tildes_refused :
    decode (encode .offer (tildes 32761) 3) = .error (.invalid .badPayload) := by
  have haddressable : Addressable (tildes 32761) := by
    rw [Addressable, Utf8.length_encode, tildes, String.toList_ofList, Utf8.size_cons,
      Utf8.size_cons,
      Utf8.size_replicate]
    decide
  rw [encode_eq, decode_encodeWith faithful_deflate]
  exact decodeCompact_of_gt faithful_deflate haddressable (by rw [length_pack_tildes]; decide)

end PeerCall.Code
