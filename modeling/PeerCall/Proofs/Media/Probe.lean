import Mathlib.Algebra.Group.Nat.Defs
import PeerCall.Probe
import PeerCall.Proofs.Text.Utf8

/-!
# What the probe engine writes and does

The texts of the probe engine are short, whatever numbers and addresses stand in them, and each of
its descriptions begins as descriptions have to. With a session in place its calls do not fail, and
an offer of one side and an answer of the other connect both. What the engine reports tells whether
it has a session and whether a description is in place, and no call leads out of that.
-/
namespace PeerCall

/-! ## Lengths of texts -/

theorem length_decimal {n k : Nat} (hk : 0 < k) (h : n < 10 ^ k) : (toString n).length ≤ k := by
  rw [Nat.toString_eq_repr]
  exact (Nat.length_repr_le_iff hk).mpr h

theorem length_intercalate_le (sep : String) {l : List String} {n : Nat}
    (h : ∀ s ∈ l, s.length ≤ n) : (sep.intercalate l).length ≤ l.length * (n + sep.length) := by
  induction l with
  | nil => simp
  | cons s l ih =>
      have hs := h s List.mem_cons_self
      by_cases hl : l = []
      · subst hl
        simp only [String.intercalate_singleton, List.length_cons, List.length_nil]
        omega
      · have hrest := ih fun t ht => h t (List.mem_cons_of_mem _ ht)
        rw [String.intercalate_cons_of_ne_nil hl]
        simp only [String.length_append, List.length_cons, Nat.succ_mul]
        omega

theorem length_join_le {l : List String} {n : Nat} (h : ∀ s ∈ l, s.length ≤ n) :
    (String.join l).length ≤ l.length * n := by
  induction l with
  | nil => simp
  | cons s l ih =>
      have hs := h s List.mem_cons_self
      have hrest := ih fun t ht => h t (List.mem_cons_of_mem _ ht)
      simp only [String.join_cons, String.length_append, List.length_cons, Nat.succ_mul]
      omega

/-! ## Descriptions -/

namespace ProbeSession

theorem length_hexPadded {width n : Nat} (hwidth : 0 < width) (h : n < 16 ^ width) :
    (hexPadded width n).length = width := by
  have hdigits := (Nat.length_toDigits_le_iff (b := 16) (by decide) hwidth).mpr h
  simp only [hexPadded, String.length_ofList, List.length_append, List.length_replicate]
  omega

theorem length_fingerprint (id : UInt64) : (fingerprint id).length ≤ 96 := by
  let bytes := Bytes.ofNatLE 8 id.toNat
  let once := bytes.reverse ++ bytes
  have hdigits : ∀ s ∈ (once ++ once).map hexByte, s.length ≤ 2 := by
    intro s hs
    obtain ⟨b, -, rfl⟩ := List.mem_map.mp hs
    apply Nat.le_of_eq
    rw [hexByte, String.length_map, length_hexPadded (by decide) b.toNat_lt]
  have hcount : ((once ++ once).map hexByte).length = 32 := by
    simp only [once, bytes, List.length_map, List.length_append, List.length_reverse,
      Bytes.length_ofNatLE]
  have hcolon : (":" : String).length = 1 := by decide
  have hlength := length_intercalate_le ":" hdigits
  rw [hcount, hcolon] at hlength
  exact hlength

theorem length_sectionLines (s : ProbeSession) (kind : SdpKind) {m : MediaSection} {mid : Nat}
    (hm : m = audio ∨ m = picture) (hmid : mid < 10) :
    (s.sectionLines kind m mid).length ≤ 12 ∧
      ∀ l ∈ s.sectionLines kind m mid, l.length ≤ 200 := by
  have htext : ∀ t : String, toString t = t := fun _ => rfl
  have hfingerprint := length_fingerprint s.id
  have hufrag : s.ufrag.length = 8 := length_hexPadded (by decide) (UInt32.toNat_lt _)
  have hpassword : s.password.length = 24 := by
    rw [password, String.length_append, length_hexPadded (by decide) (UInt64.toNat_lt _),
      length_hexPadded (by decide) (UInt32.toNat_lt _)]
  have hnumber : (toString mid).length ≤ 1 := length_decimal (by decide) hmid
  have hrole : (setupRole kind).length ≤ 7 := by cases kind <;> decide
  have hlabels : ∀ a ∈ ["a=mid:", "a=ice-ufrag:", "a=ice-pwd:", "a=fingerprint:sha-256 ",
      "a=setup:"], a.length ≤ 22 := by decide
  -- What depends on the kind of media alone.
  have hkind : (s!"m={m.name} 9 UDP/TLS/RTP/SAVPF {m.payloads}").length ≤ 40 ∧
      m.rtpmaps.length ≤ 3 ∧ ∀ l ∈ m.rtpmaps.map ("a=rtpmap:" ++ ·), l.length ≤ 40 := by
    rcases hm with rfl | rfl <;> decide
  obtain ⟨hname, hcount, hmaps⟩ := hkind
  simp only [List.forall_mem_cons] at hlabels
  simp only [String.length_append, htext] at hname
  refine ⟨?_, ?_⟩
  · simp only [sectionLines, List.length_append, List.length_map, List.length_cons,
      List.length_nil]
    omega
  · simp only [sectionLines, List.forall_mem_append, List.forall_mem_cons, String.length_append,
      htext]
    refine ⟨⟨?_, ?_, ?_, ?_, ?_, ?_, ?_, ?_, ?_, by simp⟩, ?_⟩
    any_goals first | decide | omega
    intro l hl
    exact Nat.le_trans (hmaps l hl) (by decide)

theorem sections_cases (s : ProbeSession) :
    s.sections = [audio] ∨ s.sections = [audio, picture] := by
  by_cases h : s.video = true
  · exact Or.inr (if_pos h)
  · exact Or.inl (if_neg h)

theorem length_lines (s : ProbeSession) (kind : SdpKind) :
    (s.lines kind).length ≤ 29 ∧ ∀ l ∈ s.lines kind, l.length ≤ 200 := by
  have htext : ∀ t : String, toString t = t := fun _ => rfl
  have hid : (toString s.id.toNat).length ≤ 20 :=
    length_decimal (by decide) (Nat.lt_trans s.id.toNat_lt (by decide))
  have hversion : (toString s.version.toNat).length ≤ 20 :=
    length_decimal (by decide) (Nat.lt_trans s.version.toNat_lt (by decide))
  have hlabels : ∀ a ∈ ["o=- ", " ", " IN IP4 127.0.0.1", "a=group:BUNDLE "], a.length ≤ 22 := by
    decide
  have hmids : (" ".intercalate ((List.range s.sections.length).map toString)).length ≤ 3 := by
    rcases sections_cases s with h | h <;> rw [h] <;> decide
  simp only [List.forall_mem_cons] at hlabels
  have hsection := fun m (hm : m = audio ∨ m = picture) mid (hmid : mid < 10) =>
    length_sectionLines s kind hm hmid
  have haudio := hsection audio (Or.inl rfl) 0 (by decide)
  have hpicture := hsection picture (Or.inr rfl) 1 (by decide)
  refine ⟨?_, ?_⟩
  · rcases sections_cases s with h | h <;>
      simp only [lines, h, List.zipIdx_cons, List.zipIdx_nil, List.flatMap_cons, List.flatMap_nil,
        List.length_append, List.length_cons, List.length_nil, Nat.zero_add] <;> omega
  · simp only [lines, List.forall_mem_append, List.forall_mem_cons, String.length_append, htext]
    refine ⟨⟨by decide, ?_, by decide, by decide, ?_, by simp⟩, ?_⟩
    · omega
    · omega
    · rcases sections_cases s with h | h <;>
        simp only [h, List.zipIdx_cons, List.zipIdx_nil, List.flatMap_cons, List.flatMap_nil,
          List.append_nil, List.forall_mem_append, Nat.zero_add]
      · exact haudio.2
      · exact ⟨haudio.2, hpicture.2⟩

/-- A description is short. -/
theorem length_describe (s : ProbeSession) (kind : SdpKind) :
    (Text.Utf8.encode (s.describe kind)).length ≤ 23432 := by
  obtain ⟨hcount, hlines⟩ := length_lines s kind
  have hended : ∀ l ∈ (s.lines kind).map (· ++ "\r\n"), l.length ≤ 202 := by
    intro l hl
    obtain ⟨line, hline, rfl⟩ := List.mem_map.mp hl
    have hlength := hlines line hline
    have hend : ("\r\n" : String).length = 2 := by decide
    rw [String.length_append]
    omega
  have hjoin := length_join_le hended
  have hbytes := Text.Utf8.length_encode_le (s.describe kind)
  rw [List.length_map] at hjoin
  rw [describe] at hbytes ⊢
  omega

/-- A description begins with its version. -/
theorem startsWith_describe (s : ProbeSession) (kind : SdpKind) :
    (s.describe kind).startsWith "v=0" = true := by
  rw [String.startsWith_string_iff, describe, String.toList_join]
  exact ⟨_, rfl⟩

end ProbeSession

/-! ## Network paths -/

namespace Net

theorem length_dotted (a b c d : UInt8) : (dotted a b c d).length ≤ 16 := by
  have hnumbers : ∀ s ∈ [a, b, c, d].map (fun x => toString x.toNat), s.length ≤ 3 := by
    intro s hs
    obtain ⟨x, -, rfl⟩ := List.mem_map.mp hs
    exact length_decimal (by decide) (Nat.lt_trans x.toNat_lt (by decide))
  exact length_intercalate_le "." hnumbers

theorem length_colons (gs : List UInt16) : (colons gs).length ≤ gs.length * 5 := by
  have hgroups : ∀ s ∈ gs.map (fun g => String.ofList (Nat.toDigits 16 g.toNat)),
      s.length ≤ 4 := by
    intro s hs
    obtain ⟨g, -, rfl⟩ := List.mem_map.mp hs
    rw [String.length_ofList]
    exact (Nat.length_toDigits_le_iff (by decide) (by decide)).mpr g.toNat_lt
  have hlength := length_intercalate_le ":" hgroups
  rwa [List.length_map] at hlength

theorem length_printV6 (groups : Vector UInt16 8) : (printV6 groups).length ≤ 60 := by
  have hcount : groups.toList.length = 8 := groups.length_toList
  have hmark : ("::" : String).length = 2 ∧ ("::ffff:" : String).length = 7 := by decide
  unfold printV6
  dsimp only
  split
  · rw [String.length_append]
    have hdotted := length_dotted
    rename_i x y _
    have hx := hdotted (x >>> 8).toUInt8 x.toUInt8 (y >>> 8).toUInt8 y.toUInt8
    omega
  · split
    · have hfront := length_colons (groups.toList.take (longestZeroRun groups.toList).1)
      have hback := length_colons
        (groups.toList.drop ((longestZeroRun groups.toList).1 + (longestZeroRun groups.toList).2))
      simp only [String.length_append, List.length_take, List.length_drop] at *
      omega
    · have hwhole := length_colons groups.toList
      omega

theorem length_print (a : Address) : a.print.length ≤ 60 := by
  cases a with
  | v4 a b c d => exact Nat.le_trans (length_dotted a b c d) (by decide)
  | v6 groups => exact length_printV6 groups

end Net

/-! ## The engine -/

namespace Probe

variable {p : Probe} {s : ProbeSession} {sdp : String}

/-- A host's network path is short. -/
theorem length_hostCandidate (host : Net.Address) :
    (Text.Utf8.encode (hostCandidate host).candidate).length ≤ 1000 := by
  have htext : (hostCandidate host).candidate =
      "candidate:1 1 udp 2122260223 " ++ host.print ++ " " ++ "9" ++ " typ host" := rfl
  have hprint := Net.length_print host
  have hlabels : ∀ a ∈ ["candidate:1 1 udp 2122260223 ", " ", "9", " typ host"],
      a.length ≤ 30 := by decide
  simp only [List.forall_mem_cons] at hlabels
  have hlength : (hostCandidate host).candidate.length ≤ 180 := by
    rw [htext]
    simp only [String.length_append]
    omega
  exact Nat.le_trans (Text.Utf8.length_encode_le _) (by omega)

/-- A text that describes a session. -/
def IsDescription (sdp : String) : Prop := ∃ s kind, sdp = ProbeSession.describe s kind

theorem IsDescription.length_le (h : IsDescription sdp) :
    (Text.Utf8.encode sdp).length ≤ 23432 := by
  obtain ⟨s, kind, rfl⟩ := h
  exact ProbeSession.length_describe s kind

theorem IsDescription.startsWith (h : IsDescription sdp) : sdp.startsWith "v=0" = true := by
  obtain ⟨s, kind, rfl⟩ := h
  exact ProbeSession.startsWith_describe s kind

/-- An engine without a session gets one. -/
theorem setUp_of_none (h : p.session = none) (video : Bool) :
    ∃ s, setUp video p =
        (.ok (), { p with session := some s, report := p.report.set .ready }) ∧
      s.video = video ∧ s.ours = none ∧ s.theirs = none := by
  refine ⟨⟨video, p.nextId, 0, 0, none, none, 0, none⟩, ?_, rfl, rfl, rfl⟩
  simp only [setUp, h]

theorem addIce_of_none (h : p.session = none) : addIce p = (.error .noSession, p) := by
  simp only [addIce, h]

theorem restart_of_none (host : Net.Address) (h : p.session = none) :
    restart host p = (.error .noSession, p) := by
  simp only [restart, h]

/-- Without a session no description is taken, whatever it says. -/
theorem setRemote_of_none (h : p.session = none) (kind : SdpKind) (sdp : String) :
    ∃ cause, setRemote kind sdp p = (.error cause, p) := by
  rw [setRemote]
  split
  · exact ⟨_, rfl⟩
  · simp only [h]
    exact ⟨_, rfl⟩

/-- A session is switched to a mode and keeps its descriptions. -/
theorem setUp_of_session (h : p.session = some s) (video : Bool) :
    setUp video p = (.ok (), { p with session := some { s with video } }) := by
  simp only [setUp, h]

theorem addIce_of_session (h : p.session = some s) :
    addIce p = (.ok (), { p with
      session := some { s with remoteCandidates := s.remoteCandidates + 1 } }) := by
  simp only [addIce, h]

/-- An offer of ours waits for its answer. -/
theorem createOffer_of_session (host : Net.Address) (h : p.session = some s) :
    ∃ sdp p' s', describe host .offer p = (.ok sdp, p') ∧ IsDescription sdp ∧
      p'.session = some s' ∧ s'.video = s.video ∧ s'.ours = some .offer ∧
      p'.report.value = .connecting ∧ p'.gathered = p.gathered ++ [hostCandidate host] := by
  let s' : ProbeSession :=
    { s with version := s.version + 1, ours := some .offer, theirs := none }
  refine ⟨s'.describe .offer, settle false { p with
    session := some s', gathered := p.gathered ++ [hostCandidate host] }, s',
    ?_, ⟨s', .offer, rfl⟩, rfl, rfl, rfl, Watched.value_set _ _, rfl⟩
  simp only [describe, h]
  rfl

/-- An answer to the peer's offer connects. -/
theorem createAnswer_of_session (host : Net.Address) (h : p.session = some s)
    (htheirs : s.theirs = some .offer) :
    ∃ sdp p' s', describe host .answer p = (.ok sdp, p') ∧ IsDescription sdp ∧
      p'.session = some s' ∧ s'.video = s.video ∧
      p'.report.value = .connected ∧ p'.gathered = p.gathered ++ [hostCandidate host] := by
  let s' : ProbeSession := { s with version := s.version + 1, ours := some .answer }
  refine ⟨s'.describe .answer, settle true { p with
    session := some s', gathered := p.gathered ++ [hostCandidate host] }, s',
    ?_, ⟨s', .answer, rfl⟩, rfl, rfl, Watched.value_set _ _, rfl⟩
  simp only [describe, h, makeDescription, htheirs]
  simp [s', htheirs]

/-- The peer's offer is taken at any time. -/
theorem setRemote_offer (h : p.session = some s) (hsdp : IsDescription sdp) :
    setRemote .offer sdp p =
      (.ok (), { p with
        session := some { s with theirs := some .offer }
        report := p.report.set .connecting }) := by
  simp only [setRemote, hsdp.startsWith, h]
  rfl

/-- The peer's answer connects where an offer is in place, also if it comes again. -/
theorem setRemote_answer (h : p.session = some s) (hours : s.ours = some .offer)
    (hsdp : IsDescription sdp) :
    setRemote .answer sdp p =
      (.ok (), { p with
        session := some { s with theirs := some .answer }
        report := p.report.set .connected }) := by
  simp only [setRemote, hsdp.startsWith, h, hours]
  rfl

/-! ## What the engine reports -/

/-- Whether a description of either side is in place, if there is a session. -/
def negotiating? (p : Probe) : Option Bool :=
  p.session.map fun s => s.ours.isSome || s.theirs.isSome

/-- A description is in place, and the connection is reported or is coming. -/
structure Negotiates (p : Probe) : Prop where
  described : p.negotiating? = some true
  report : p.report.value = .connecting ∨ p.report.value = .connected

/-- What an engine reports fits what it has in place. -/
inductive Coherent (p : Probe) : Prop
  | absent (h : p.negotiating? = none) (hreport : p.report.value = .idle ∨ p.report.value = .closed)
  | fresh (h : p.negotiating? = some false) (hreport : p.report.value = .ready)
  | negotiates (h : p.Negotiates)

/-- What comes of a call for a description, or with one: where it succeeds a description is in
place, and where it fails nothing has changed. -/
def Describes {α : Type} (p : Probe) : Except MediaError α × Probe → Prop
  | (.ok _, p') => p'.Negotiates
  | (.error _, p') => p' = p

variable {p' : Probe}

theorem Negotiates.of_eq (h : p.Negotiates) (hsession : p'.negotiating? = p.negotiating?)
    (hreport : p'.report = p.report) : p'.Negotiates :=
  ⟨hsession.trans h.described, by rw [hreport]; exact h.report⟩

/-- Only the descriptions and the report matter. -/
theorem Coherent.of_eq (h : p.Coherent) (hsession : p'.negotiating? = p.negotiating?)
    (hreport : p'.report = p.report) : p'.Coherent := by
  cases h with
  | absent h hvalue => exact .absent (hsession.trans h) (by rw [hreport]; exact hvalue)
  | fresh h hvalue => exact .fresh (hsession.trans h) (by rw [hreport]; exact hvalue)
  | negotiates h => exact .negotiates (h.of_eq hsession hreport)

/-- An engine that is not connected is coming to that exactly if a description is in place. -/
theorem Coherent.connecting_iff (h : p.Coherent) (hdown : p.report.value ≠ .connected) :
    p.report.value = .connecting ↔ p.negotiating? = some true := by
  cases h with
  | absent h hreport => rcases hreport with hreport | hreport <;> simp [h, hreport]
  | fresh h hreport => simp [h, hreport]
  | negotiates h => simp [h.described, h.report.resolve_right hdown]

/-- A probe engine never reports a failure. -/
theorem Coherent.report_cases (h : p.Coherent) (hdown : p.report.value ≠ .connected)
    (hconnecting : p.report.value ≠ .connecting) :
    p.report.value = .idle ∨ p.report.value = .ready ∨ p.report.value = .closed := by
  cases h with
  | absent _ hreport => exact hreport.imp_right .inr
  | fresh _ hreport => exact .inr (.inl hreport)
  | negotiates h => exact absurd h.report (not_or.mpr ⟨hconnecting, hdown⟩)

theorem negotiates_settle {paired : Bool} (h : p.negotiating? = some true) :
    (settle paired p).Negotiates := by
  refine ⟨h, ?_⟩
  rw [settle, Watched.value_set]
  cases paired
  · exact .inl rfl
  · exact .inr rfl

theorem describes_makeDescription (host : Net.Address) (kind : SdpKind) (s : ProbeSession)
    (p : Probe) : p.Describes (p.makeDescription host kind s) := by
  unfold makeDescription
  split
  · exact rfl
  · exact negotiates_settle (p := { p with session := some _, gathered := _ }) rfl

theorem describes_describe (host : Net.Address) (kind : SdpKind) (p : Probe) :
    p.Describes (describe host kind p) := by
  unfold describe
  split
  · exact describes_makeDescription host kind _ p
  · exact rfl

theorem describes_restart (host : Net.Address) (p : Probe) : p.Describes (restart host p) := by
  unfold restart
  split
  · exact describes_makeDescription host .offer _ p
  · exact rfl

theorem describes_setRemote (kind : SdpKind) (sdp : String) (p : Probe) :
    p.Describes (setRemote kind sdp p) := by
  unfold setRemote
  split
  · exact rfl
  · split
    · exact rfl
    · split
      · exact rfl
      · exact negotiates_settle (congrArg some (Bool.or_true _))

/-- To count a network path, or to allow a bitrate, is no matter of descriptions. -/
theorem negotiating?_addIce (p : Probe) :
    (addIce p).2.negotiating? = p.negotiating? ∧ (addIce p).2.report = p.report := by
  unfold addIce negotiating?
  cases h : p.session <;> simp [h]

theorem negotiating?_allowBitrate (kbps : Nat) (p : Probe) :
    (allowBitrate kbps p).negotiating? = p.negotiating? := by
  simp only [negotiating?, allowBitrate, Option.map_map]
  rfl

theorem Coherent.describes {α : Type} {result : Except MediaError α × Probe} (hp : p.Coherent)
    (h : p.Describes result) : result.2.Coherent := by
  rcases result with ⟨_ | _, p'⟩
  · rw [show p' = p from h]
    exact hp
  · exact .negotiates h

theorem Coherent.setUp (hp : p.Coherent) (video : Bool) : (setUp video p).2.Coherent := by
  cases h : p.session with
  | none =>
      obtain ⟨s, hs, -, hours, htheirs⟩ := setUp_of_none h video
      rw [hs]
      exact .fresh (by simp [negotiating?, hours, htheirs]) (Watched.value_set _ _)
  | some s =>
      rw [setUp_of_session h]
      exact hp.of_eq (by simp [negotiating?, h]) rfl

theorem Coherent.addIce (hp : p.Coherent) : (addIce p).2.Coherent :=
  hp.of_eq (negotiating?_addIce p).1 (negotiating?_addIce p).2

theorem coherent_close (p : Probe) : (close p).Coherent :=
  .absent rfl (.inr (Watched.value_set _ _))

theorem coherent_start (nextId : UInt64) : (start nextId).Coherent := .absent rfl (.inl rfl)

end Probe

end PeerCall
