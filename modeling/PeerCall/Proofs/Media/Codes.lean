import PeerCall.Proofs.Media.Probe
import PeerCall.Proofs.Sdp.Needed

/-!
# Descriptions of the probe engine in codes

The probe engine writes only lines that a code carries as they are, whatever numbers stand in them,
and few enough of them for a code to be inflated to its end. So a description comes out of its code
letter by letter, and the peer finds it well formed. Numbers of one width are told apart by their
digits, and so are the credentials of a session before and after they were renewed.
-/
namespace PeerCall

open Text

/-! ## Words -/

/-- A text without blanks, such as a number. -/
structure Text.Solid (cs : List Char) : Prop where
  ne_nil : cs ≠ []
  solid : ∀ c ∈ cs, isBlank c = false

instance (cs : List Char) : Decidable (Solid cs) :=
  -- There are instances for all characters at once, too, and they do not compute.
  have : Decidable (∀ c ∈ cs, isBlank c = false) := List.decidableBAll (isBlank · = false) cs
  decidable_of_iff (cs ≠ [] ∧ ∀ c ∈ cs, isBlank c = false)
    ⟨fun h => ⟨h.1, h.2⟩, fun h => ⟨h.ne_nil, h.solid⟩⟩

namespace Text.Solid

variable {cs cs' : List Char}

theorem append (h : Solid cs) (h' : Solid cs') : Solid (cs ++ cs') := by
  refine ⟨List.append_ne_nil_of_left_ne_nil h.ne_nil _, ?_⟩
  intro c hc
  exact (List.mem_append.mp hc).elim (h.solid c) (h'.solid c)

theorem not_feed (h : Solid cs) : '\n' ∉ cs := by
  intro hfeed
  cases h.solid _ hfeed

theorem trimEnd_append (h : Solid cs) (front : List Char) :
    trimEnd (front ++ cs) = front ++ cs := by
  obtain ⟨before, c, rfl⟩ := (List.eq_nil_or_concat cs).resolve_left h.ne_nil
  have hc := h.solid c (by simp)
  rw [List.concat_eq_append, ← List.append_assoc]
  exact trimEnd_concat hc (front ++ before)

end Text.Solid

theorem Text.solid_intercalate {sep : List Char} {pieces : List (List Char)}
    (hsep : Solid sep) (hne : pieces ≠ []) (h : ∀ piece ∈ pieces, Solid piece) :
    Solid (sep.intercalate pieces) := by
  induction pieces with
  | nil => exact absurd rfl hne
  | cons piece pieces ih =>
      have hpiece := h piece (List.mem_cons_self ..)
      by_cases hlast : pieces = []
      · rwa [hlast, List.intercalate_singleton]
      · have hrest := ih hlast fun x hx => h x (List.mem_cons_of_mem _ hx)
        rw [List.intercalate_cons_of_ne_nil hlast]
        exact (hpiece.append hsep).append hrest

/-! ## Numbers -/

/-- The digits of a number are those of remainders. -/
theorem exists_of_mem_toDigits {b n : Nat} {c : Char} (hb : 1 < b) (h : c ∈ Nat.toDigits b n) :
    ∃ d < b, c = Nat.digitChar d := by
  induction n using Nat.strongRecOn with
  | ind n ih =>
      rw [Nat.toDigits_eq_if hb] at h
      split at h
      · rename_i hn
        exact ⟨n, hn, List.mem_singleton.mp h⟩
      · rcases List.mem_append.mp h with h | h
        · exact ih (n / b) (Nat.div_lt_self (by omega) hb) h
        · exact ⟨n % b, Nat.mod_lt n (by omega), List.mem_singleton.mp h⟩

theorem digitChar_solid : ∀ d < 16,
    isBlank (Nat.digitChar d) = false ∧ isBlank (Nat.digitChar d).toUpper = false := by
  decide

theorem solid_toDigits {b : Nat} (hb : 1 < b) (hb' : b ≤ 16) (n : Nat) :
    Solid (Nat.toDigits b n) := by
  refine ⟨Nat.toDigits_ne_nil, ?_⟩
  intro c hc
  obtain ⟨d, hd, rfl⟩ := exists_of_mem_toDigits hb hc
  exact (digitChar_solid d (Nat.lt_of_lt_of_le hd hb')).1

namespace ProbeSession

theorem toList_hexPadded (width n : Nat) : (hexPadded width n).toList =
    List.replicate (width - (Nat.toDigits 16 n).length) '0' ++ Nat.toDigits 16 n :=
  String.toList_ofList

theorem exists_of_mem_hexPadded {width n : Nat} {c : Char} (h : c ∈ (hexPadded width n).toList) :
    ∃ d < 16, c = Nat.digitChar d := by
  rw [toList_hexPadded] at h
  rcases List.mem_append.mp h with h | h
  · exact ⟨0, by decide, List.eq_of_mem_replicate h⟩
  · exact exists_of_mem_toDigits (by decide) h

theorem solid_hexPadded (width n : Nat) : Solid (hexPadded width n).toList := by
  refine ⟨?_, ?_⟩
  · rw [toList_hexPadded]
    exact List.append_ne_nil_of_right_ne_nil _ Nat.toDigits_ne_nil
  · intro c hc
    obtain ⟨d, hd, rfl⟩ := exists_of_mem_hexPadded hc
    exact (digitChar_solid d hd).1

/-- The last digit comes off the end. -/
theorem hexPadded_succ {width : Nat} (hwidth : 0 < width) (n : Nat) :
    (hexPadded (width + 1) n).toList =
      (hexPadded width (n / 16)).toList ++ [Nat.digitChar (n % 16)] := by
  rw [toList_hexPadded, toList_hexPadded]
  by_cases hn : n < 16
  · rw [Nat.div_eq_of_lt hn, Nat.mod_eq_of_lt hn, Nat.toDigits_of_lt_base hn, Nat.toDigits_zero]
    obtain ⟨width, rfl⟩ := Nat.exists_eq_succ_of_ne_zero (Nat.ne_of_gt hwidth)
    simp [List.replicate_succ']
  · rw [Nat.toDigits_of_base_le (by decide) (Nat.le_of_not_lt hn), List.length_append,
      List.length_singleton, Nat.add_sub_add_right, List.append_assoc]

/-- **Numbers of one width are told apart by their digits.** -/
theorem hexPadded_inj {width m n : Nat} (hwidth : 0 < width) (hm : m < 16 ^ width)
    (hn : n < 16 ^ width) (h : hexPadded width m = hexPadded width n) : m = n := by
  have hdigit : ∀ d < 16, ∀ e < 16, Nat.digitChar d = Nat.digitChar e → d = e := by decide
  induction width, hwidth using Nat.le_induction generalizing m n with
  | base =>
      have hone : ∀ k < 16, (hexPadded 1 k).toList = [Nat.digitChar k] := by decide
      have hchars := congrArg String.toList h
      rw [hone m hm, hone n hn] at hchars
      exact hdigit m hm n hn (List.singleton_inj.mp hchars)
  | succ width hwidth ih =>
      have hchars := congrArg String.toList h
      rw [hexPadded_succ hwidth, hexPadded_succ hwidth] at hchars
      -- The last digits tell the remainders apart, and the digits before them the quotients.
      obtain ⟨hfront, hlast⟩ := List.append_inj' hchars rfl
      rw [Nat.pow_succ] at hm hn
      have hrest := ih (m := m / 16) (n := n / 16) (by omega) (by omega)
        (String.toList_inj.mp hfront)
      have hremainder := hdigit (m % 16) (Nat.mod_lt m (by decide)) (n % 16)
        (Nat.mod_lt n (by decide)) (List.singleton_inj.mp hlast)
      omega

theorem solid_hexByte (x : UInt8) : Solid (hexByte x).toList := by
  have hdigits := solid_hexPadded 2 x.toNat
  rw [hexByte, String.toList_map]
  refine ⟨by simpa using hdigits.ne_nil, ?_⟩
  intro c hc
  obtain ⟨d, hd, rfl⟩ := List.mem_map.mp hc
  obtain ⟨n, hn, rfl⟩ := exists_of_mem_hexPadded hd
  exact (digitChar_solid n hn).2

theorem solid_fingerprint (id : UInt64) : Solid (fingerprint id).toList := by
  rw [fingerprint, String.toList_intercalate, List.map_map]
  refine solid_intercalate (by decide) (by simp [← List.length_eq_zero_iff]) ?_
  intro piece hpiece
  obtain ⟨x, -, rfl⟩ := List.mem_map.mp hpiece
  exact solid_hexByte x

end ProbeSession

/-! ## Lines that a code carries as they are -/

namespace Sdp

variable {line : Line} {lines : List Line}

instance (line : Line) : Decidable (Tidy line) :=
  decidable_of_iff (line ≠ [] ∧ '\n' ∉ line ∧ trimEnd line = line)
    ⟨fun h => ⟨h.1, h.2.1, h.2.2⟩, fun h => ⟨h.ne_nil, h.one, h.trimmed⟩⟩

/-- A line that is kept whole, also where it is a media line, and that is no candidate. -/
structure Stays (line : Line) : Prop extends Tidy line where
  kept : kindOf line = .kept ∨ kindOf line = .media ∧ trimMedia line = line

instance (line : Line) : Decidable (Stays line) :=
  decidable_of_iff
    (Tidy line ∧ (kindOf line = .kept ∨ kindOf line = .media ∧ trimMedia line = line))
    ⟨fun h => ⟨h.1, h.2⟩, fun h => ⟨h.toTidy, h.kept⟩⟩

/-- A line about the session stays as it is if it ends in a word. -/
theorem stays_of_word {front word : Line} (hstart : ∃ start ∈ keptStarts, start <+: front)
    (hfront : '\n' ∉ front) (hword : Solid word) : Stays (front ++ word) := by
  obtain ⟨start, hstart, hbegins⟩ := hstart
  have hsession : isSession (front ++ word) = true :=
    List.any_eq_true.mpr ⟨start, hstart, List.isPrefixOf_iff_prefix.mpr
      (hbegins.trans (List.prefix_append front word))⟩
  refine ⟨⟨?_, ?_, hword.trimEnd_append front⟩, .inl (kindOf_of_isSession hsession)⟩
  · exact List.append_ne_nil_of_right_ne_nil _ hword.ne_nil
  · rw [List.mem_append]
    exact not_or.mpr ⟨hfront, hword.not_feed⟩

theorem Stays.clean (h : Stays line) : Clean line := by
  refine ⟨h.toTidy, head?_ne_mark fun hdropped => ?_⟩
  rcases h.kept with hkind | ⟨hkind, -⟩ <;> rw [hkind] at hdropped <;> cases hdropped

theorem keep_of_stays (h : ∀ line ∈ lines, Stays line) (m : Nat) : keep m lines = lines := by
  induction lines with
  | nil => rfl
  | cons line lines ih =>
      have hrest := ih fun x hx => h x (List.mem_cons_of_mem _ hx)
      rcases (h line (List.mem_cons_self ..)).kept with hkind | ⟨hkind, htrim⟩
      · simp only [keep, hkind, hrest]
      · simp only [keep, hkind, hrest, htrim]

/-- A description of such lines, each of them ended, is left as it is. -/
theorem lineEnded_minify_of_stays {sdp : String} (h : ∀ line ∈ lines, Stays line)
    (hsdp : sdp.toList = lines.flatMap (· ++ ['\r', '\n'])) (m : Nat) :
    lineEnded (minify sdp m) = sdp := by
  have hlines := linesOf_ended fun line hline => (h line hline).clean
  rw [lineEnded, lines_minify, minifiedLines, hsdp, hlines, keep_of_stays h, ← hsdp,
    String.ofList_toList]

end Sdp

/-! ## Descriptions -/

namespace ProbeSession

open Sdp

theorem solid_decimal (n : Nat) : Solid (toString n).toList := by
  rw [Nat.toString_eq_ofList_toDigits, String.toList_ofList]
  exact solid_toDigits (by decide) (by decide) n

theorem solid_password (s : ProbeSession) : Solid s.password.toList := by
  rw [password, String.toList_append]
  exact (solid_hexPadded _ _).append (solid_hexPadded _ _)

theorem stays_append {front word : String}
    (hstart : ∃ start ∈ keptStarts, start <+: front.toList) (hfront : '\n' ∉ front.toList)
    (hword : Solid word.toList) : Stays (front ++ word).toList := by
  rw [String.toList_append]
  exact stays_of_word hstart hfront hword

theorem stays_sectionLines (s : ProbeSession) (kind : SdpKind) {m : MediaSection}
    (hm : m = audio ∨ m = picture) (mid : Nat) :
    ∀ l ∈ s.sectionLines kind m mid, Stays l.toList := by
  -- What depends on the kind of media alone.
  have hkind : Stays (s!"m={m.name} 9 UDP/TLS/RTP/SAVPF {m.payloads}").toList ∧
      ∀ l ∈ m.rtpmaps.map ("a=rtpmap:" ++ ·), Stays l.toList := by
    rcases hm with rfl | rfl <;> decide
  obtain ⟨hmedia, hmaps⟩ := hkind
  simp only [sectionLines, List.forall_mem_append, List.forall_mem_cons]
  refine ⟨⟨hmedia, by decide, ?_, ?_, ?_, ?_, ?_, by decide, by decide, by simp⟩, hmaps⟩
  · exact stays_append (by decide) (by decide) (solid_decimal mid)
  · exact stays_append (by decide) (by decide) (solid_hexPadded 8 _)
  · exact stays_append (by decide) (by decide) s.solid_password
  · exact stays_append (by decide) (by decide) (solid_fingerprint s.id)
  · exact stays_append (by decide) (by decide) (by cases kind <;> decide)

/-- The line with the id of the session and the number of the description. -/
theorem stays_origin (id version : Nat) :
    Stays (s!"o=- {id} {version} IN IP4 127.0.0.1").toList := by
  have htext : s!"o=- {id} {version} IN IP4 127.0.0.1" =
      ("o=- " ++ toString id ++ " " ++ toString version ++ " IN IP4 ") ++ "127.0.0.1" := by
    have hend : toString " IN IP4 127.0.0.1" = " IN IP4 " ++ "127.0.0.1" := by decide
    rw [hend, ← String.append_assoc]
    rfl
  rw [htext]
  refine stays_append ⟨"o=".toList, by decide, ?_⟩ ?_ (by decide)
  · simp only [String.toList_append, List.append_assoc]
    exact ⟨_, rfl⟩
  · simp only [String.toList_append, List.mem_append, not_or]
    exact ⟨⟨⟨⟨by decide, (solid_decimal id).not_feed⟩, by decide⟩,
      (solid_decimal version).not_feed⟩, by decide⟩

theorem stays_lines (s : ProbeSession) (kind : SdpKind) :
    ∀ l ∈ s.lines kind, Stays l.toList := by
  have hmids : Stays ("a=group:BUNDLE " ++
      " ".intercalate ((List.range s.sections.length).map toString)).toList := by
    rcases sections_cases s with h | h <;> rw [h] <;> decide
  simp only [lines, List.forall_mem_append, List.forall_mem_cons]
  refine ⟨⟨by decide, stays_origin _ _, by decide, by decide, hmids, by simp⟩, ?_⟩
  rcases sections_cases s with h | h <;>
    simp only [h, List.zipIdx_cons, List.zipIdx_nil, List.flatMap_cons, List.flatMap_nil,
      List.append_nil, List.forall_mem_append]
  · exact stays_sectionLines s kind (.inl rfl) 0
  · exact ⟨stays_sectionLines s kind (.inl rfl) 0, stays_sectionLines s kind (.inr rfl) 1⟩

theorem toList_describe (s : ProbeSession) (kind : SdpKind) :
    (s.describe kind).toList = ((s.lines kind).map String.toList).flatMap (· ++ ['\r', '\n']) := by
  rw [describe, String.toList_join, List.flatMap_map, List.flatMap_map]
  simp only [String.toList_append]
  rfl

/-- Minifying leaves a description as it is. -/
theorem lineEnded_minify_describe (s : ProbeSession) (kind : SdpKind) (m : Nat) :
    lineEnded (minify (s.describe kind) m) = s.describe kind :=
  lineEnded_minify_of_stays (List.forall_mem_map.mpr (stays_lines s kind))
    (toList_describe s kind) m

theorem linesOf_describe (s : ProbeSession) (kind : SdpKind) :
    linesOf (s.describe kind).toList = (s.lines kind).map String.toList := by
  rw [toList_describe]
  exact linesOf_ended (List.forall_mem_map.mpr fun l hl => (stays_lines s kind l hl).clean)

/-! ## Credentials -/

/-- What a text says behind the starts of some of its lines. -/
def valuesOf (start sdp : String) : List Line := (linesOf sdp.toList).filterMap (after? start)

/-- A description tells a credential once for each kind of media, and nowhere else. -/
theorem valuesOf_describe {s : ProbeSession} {kind : SdpKind} {start : String} {value : Line}
    (hstart : start = "a=ice-ufrag:" ∨ start = "a=ice-pwd:")
    (hsection : ∀ m mid, m = audio ∨ m = picture →
      ((s.sectionLines kind m mid).map String.toList).filterMap (after? start) = [value]) :
    valuesOf start (s.describe kind) = List.replicate s.sections.length value := by
  have haudio := hsection audio 0 (.inl rfl)
  have hpicture := hsection picture 1 (.inr rfl)
  -- The starts of the lines in front of the sections decide, whatever numbers stand behind them.
  rw [valuesOf, linesOf_describe]
  rcases hstart with rfl | rfl <;> rcases sections_cases s with h | h <;>
    simp only [lines, h, List.zipIdx_cons, List.zipIdx_nil, List.flatMap_cons, List.flatMap_nil,
      List.append_nil, List.map_append, List.filterMap_append, List.map_cons, String.toList_append,
      haudio, hpicture] <;>
    rfl

theorem credentials_describe (s : ProbeSession) (kind : SdpKind) :
    valuesOf "a=ice-ufrag:" (s.describe kind) =
      List.replicate s.sections.length s.ufrag.toList ∧
    valuesOf "a=ice-pwd:" (s.describe kind) =
      List.replicate s.sections.length s.password.toList := by
  refine ⟨valuesOf_describe (.inl rfl) ?_, valuesOf_describe (.inr rfl) ?_⟩ <;>
  · rintro m mid (rfl | rfl) <;>
      simp only [sectionLines, List.map_cons, List.map_append, String.toList_append] <;> rfl

/-- Both texts tell a credential, and none that one tells is told by the other. -/
structure Renews (start before after : String) : Prop where
  before_ne_nil : valuesOf start before ≠ []
  after_ne_nil : valuesOf start after ≠ []
  disjoint : (valuesOf start before).Disjoint (valuesOf start after)

section Renewed

variable {s t : ProbeSession}

theorem sections_ne_nil (s : ProbeSession) : s.sections.length ≠ 0 := by
  rcases sections_cases s with h | h <;> rw [h] <;> decide

theorem renews_of_ne {start before after : String} {x y : Line} (hne : x ≠ y)
    (hbefore : valuesOf start before = List.replicate s.sections.length x)
    (hafter : valuesOf start after = List.replicate t.sections.length y) :
    Renews start before after := by
  refine ⟨?_, ?_, ?_⟩
  · rw [hbefore, ne_eq, List.replicate_eq_nil_iff]
    exact sections_ne_nil s
  · rw [hafter, ne_eq, List.replicate_eq_nil_iff]
    exact sections_ne_nil t
  · rw [hbefore, hafter]
    intro value hx hy
    exact hne ((List.eq_of_mem_replicate hx).symm.trans (List.eq_of_mem_replicate hy))

theorem ufrag_ne (hid : t.id = s.id) (h : t.generation ≠ s.generation) : s.ufrag ≠ t.ufrag := by
  intro heq
  have hnumber := hexPadded_inj (by decide) (UInt32.toNat_lt _) (UInt32.toNat_lt _) heq
  rw [hid] at hnumber
  exact h (UInt32.add_right_inj _ |>.mp (UInt32.toNat_inj.mp hnumber)).symm

theorem password_ne (h : t.generation ≠ s.generation) : s.password ≠ t.password := by
  intro heq
  have hlength : ∀ g : UInt32, (hexPadded 8 g.toNat).toList.length = 8 :=
    fun g => length_hexPadded (by decide) g.toNat_lt
  have hchars := congrArg String.toList heq
  rw [password, password, String.toList_append, String.toList_append] at hchars
  obtain ⟨-, hlast⟩ := List.append_inj' hchars ((hlength _).trans (hlength _).symm)
  have hnumber := hexPadded_inj (by decide) (UInt32.toNat_lt _) (UInt32.toNat_lt _)
    (String.toList_inj.mp hlast)
  exact h (UInt32.toNat_inj.mp hnumber).symm

/-- Descriptions of two generations of one session share no credential. -/
theorem renews_describe (hid : t.id = s.id) (h : t.generation ≠ s.generation)
    (kind kind' : SdpKind) :
    Renews "a=ice-ufrag:" (s.describe kind) (t.describe kind') ∧
      Renews "a=ice-pwd:" (s.describe kind) (t.describe kind') := by
  have hufrag : s.ufrag.toList ≠ t.ufrag.toList := fun heq =>
    ufrag_ne hid h (String.toList_inj.mp heq)
  have hpassword : s.password.toList ≠ t.password.toList := fun heq =>
    password_ne h (String.toList_inj.mp heq)
  obtain ⟨hufrags, hpasswords⟩ := credentials_describe s kind
  obtain ⟨hufrags', hpasswords'⟩ := credentials_describe t kind'
  exact ⟨renews_of_ne hufrag hufrags hufrags', renews_of_ne hpassword hpasswords hpasswords'⟩

end Renewed

end ProbeSession

/-! ## Descriptions that are taken -/

namespace Probe

variable {p : Probe} {s : ProbeSession} {sdp : String}

/-- What comes of a text that starts as descriptions do. -/
theorem setRemote_fst (hsdp : sdp.startsWith "v=0" = true) (kind : SdpKind) (p : Probe) :
    (p.setRemote kind sdp).1 = match p.session with
      | none => .error .noSession
      | some t =>
        if kind = .answer ∧ t.ours ≠ some .offer then
          .error (.negotiation "answer without a local offer")
        else .ok () := by
  rw [setRemote, hsdp, if_neg (by decide)]
  cases p.session with
  | none => rfl
  | some t =>
      dsimp only
      split <;> rfl

/-- It is taken by an engine that has a session for it, -/
theorem setRemote_eq_ok_iff (hsdp : sdp.startsWith "v=0" = true) (kind : SdpKind) (p : Probe) :
    (p.setRemote kind sdp).1 = .ok () ↔
      ∃ t, p.session = some t ∧ (kind = .answer → t.ours = some .offer) := by
  rw [setRemote_fst hsdp]
  cases p.session with
  | none => simp
  | some t => by_cases hours : t.ours = some .offer <;> cases kind <;> simp [hours]

/-- and an engine that refuses it does not call it malformed. -/
theorem setRemote_wellFormed (hsdp : sdp.startsWith "v=0" = true) (kind : SdpKind) (p : Probe) :
    (p.setRemote kind sdp).1 ≠ .error (.negotiation s!"malformed remote {kind.text}") := by
  have hwording : "answer without a local offer" ≠ s!"malformed remote {kind.text}" := by
    cases kind <;> decide
  rw [setRemote_fst hsdp]
  cases p.session with
  | none => simp
  | some t =>
      dsimp only
      split
      · simpa using hwording
      · simp

/-- A restart offers the next generation of the session. -/
theorem restart_of_session (host : Net.Address) (h : p.session = some s) :
    ∃ t : ProbeSession, (p.restart host).1 = .ok (t.describe .offer) ∧
      (p.restart host).2.session = some t ∧ t.id = s.id ∧ t.generation = s.generation + 1 := by
  simp only [restart, h]
  exact ⟨_, rfl, rfl, rfl, rfl⟩

end Probe

/-! ## Codes of descriptions -/

namespace ProbeSession

open Code Deflate

/-- A description comes out of its code letter by letter. -/
theorem decode_encodeWith_describe {deflate : Bytes → Bytes} (hdeflate : Faithful deflate)
    (s : ProbeSession) (kind : SdpKind) (candidates : Nat) :
    decode (encodeWith deflate kind (s.describe kind) candidates) =
      .ok ⟨kind, s.describe kind⟩ := by
  have hlength := length_describe s kind
  have hbody := length_body_le (s.describe kind) candidates
  have haddressable : Addressable (s.describe kind) := Nat.lt_of_le_of_lt hlength (by decide)
  have hcarried : carried (s.describe kind) candidates = s.describe kind :=
    lineEnded_minify_describe s kind candidates
  rw [decode_encodeWith hdeflate, decodeCompact_of_le hdeflate haddressable, hcarried]
  rw [length_pack, maxInflated]
  omega

/-- **Descriptions survive codes.** A code of a description decodes to its kind and to the
description itself, whatever the session and however many candidates are allowed. The peer finds it
well formed: it takes an offer if it has a session, and an answer if it has made an offer in it. A
restart succeeds, and the descriptions after it share neither user name nor password with those
before. -/
theorem description_survives_code {deflate : Bytes → Bytes} (hdeflate : Faithful deflate)
    (s : ProbeSession) :
    (∀ kind candidates, decode (encodeWith deflate kind (s.describe kind) candidates) =
      .ok ⟨kind, s.describe kind⟩) ∧
    (∀ kind (peer : Probe),
      (peer.setRemote kind (s.describe kind)).1 ≠
        .error (.negotiation s!"malformed remote {kind.text}") ∧
      ((peer.setRemote kind (s.describe kind)).1 = .ok () ↔
        ∃ t, peer.session = some t ∧ (kind = .answer → t.ours = some .offer))) ∧
    (∀ host (p : Probe), p.session = some s →
      ∃ t : ProbeSession, (p.restart host).1 = .ok (t.describe .offer) ∧
        (p.restart host).2.session = some t ∧
        ∀ kind kind', Renews "a=ice-ufrag:" (s.describe kind) (t.describe kind') ∧
          Renews "a=ice-pwd:" (s.describe kind) (t.describe kind')) := by
  refine ⟨decode_encodeWith_describe hdeflate s, ?_, ?_⟩
  · intro kind peer
    have hstart := startsWith_describe s kind
    exact ⟨Probe.setRemote_wellFormed hstart kind peer, Probe.setRemote_eq_ok_iff hstart kind peer⟩
  · intro host p hp
    obtain ⟨t, hoffer, hsession, hid, hgeneration⟩ := Probe.restart_of_session host hp
    have hnext : t.generation ≠ s.generation := by
      rw [hgeneration]
      simp
    exact ⟨t, hoffer, hsession, renews_describe hid hnext⟩

/-- The largest id and number, and the last generation. -/
def extreme : ProbeSession :=
  ⟨true, 0xffffffffffffffff, 0xffffffffffffffff, 0xffffffff, none, none, 0, none⟩

theorem description_survives_code_extreme :
    decode (encodeWith Deflate.deflate .answer (extreme.describe .answer) 0) =
      .ok ⟨.answer, extreme.describe .answer⟩ :=
  (description_survives_code faithful_deflate extreme).1 .answer 0

end ProbeSession

end PeerCall
