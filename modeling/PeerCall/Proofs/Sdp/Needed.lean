import PeerCall.Proofs.Sdp.Projection

/-!
# What a peer needs is kept

A minified description has the lines of its description that are about the session and its
transport, its media lines, what it says of the payload types in use and its first candidates over
UDP, all in their order and nothing else. A media line is without the payload types that are not in
use, except where it is one of an application or none of its types is in use.
-/
namespace PeerCall.Sdp

open Text

variable {line : Line} {lines : List Line} {m : Nat}

/-! ## Lines of a description -/

/-- A text without a byte-order mark in front. -/
def withoutMark : List Char → List Char
  | '\ufeff' :: rest => rest
  | text => text

/-- The lines of a description without blanks at their ends, except the empty ones. -/
def givenLines (text : List Char) : List Line :=
  ((Text.lines (withoutMark text)).map trimEnd).filter (· ≠ [])

/-- Where lines are trimmed and empty ones do not count, it does not matter what ends a line. -/
theorem filter_trimEnd_linesOfPieces (pieces : List (List Char)) :
    ((linesOfPieces pieces).map trimEnd).filter (· ≠ []) =
      (pieces.map trimEnd).filter (· ≠ []) := by
  induction pieces with
  | nil => rfl
  | cons piece pieces ih =>
      cases pieces with
      | nil =>
          rw [linesOfPieces]
          split
          · rename_i hempty
            rw [hempty]
            rfl
          · rfl
      | cons next pieces =>
          have htrim : trimEnd (if piece.getLast? = some '\r' then piece.dropLast else piece) =
              trimEnd piece := by
            split
            · rename_i hlast
              obtain ⟨front, rfl⟩ := List.getLast?_eq_some_iff.mp hlast
              rw [List.dropLast_concat, trimEnd_concat_blank rfl]
            · rfl
          rw [linesOfPieces, List.map_cons, List.map_cons, htrim, List.filter_cons,
            List.filter_cons, ih]
          simp

theorem linesOf_eq (text : List Char) : linesOf text = givenLines text := by
  rw [givenLines, Text.lines, filter_trimEnd_linesOfPieces]
  unfold linesOf withoutMark
  rfl

/-! ## What lines start with -/

/-- A line about the session or its transport: it starts with what is kept whole. -/
def isSession (line : Line) : Bool := keptStarts.any (·.isPrefixOf line)

def isCandidate (line : Line) : Bool := (after? "a=candidate:" line).isSome

/-- A candidate whose third word is UDP. -/
def isUdpCandidate (line : Line) : Bool := (after? "a=candidate:" line).any isUdp

def isMedia (line : Line) : Bool := (after? "m=" line).isSome

/-- What a line says of a payload type, from its number on, if it does say something. -/
def note? (line : Line) : Option Line := (after? "a=rtpmap:" line).or (after? "a=fmtp:" line)

/-- A line that says something of a payload type. -/
def isNote (line : Line) : Bool := (note? line).isSome

/-- A line that says something of a payload type in use. -/
def isAllowedNote (line : Line) : Bool := (note? line).any isAllowed

/-- A candidate is one over UDP if its third word is that, in whatever case. -/
theorem isUdp_iff {candidate : Line} : isUdp candidate = true ↔
    ∃ transport, (words candidate)[2]? = some transport ∧
      asciiLower transport = "udp".toList := by
  unfold isUdp
  cases (words candidate)[2]? <;> simp

/-- A payload type is in use if the first word is one of those that are. -/
theorem isAllowed_iff {description : Line} : isAllowed description = true ↔
    ∃ type ∈ allowedTypes, (words description).head? = some type := by
  have hempty : [] ∉ allowedTypes := by decide
  unfold isAllowed
  cases words description with
  | nil => simpa using hempty
  | cons type rest => simp

theorem isSome_after? {start : String} :
    (after? start line).isSome = true ↔ start.toList <+: line := by
  rw [after?, ← List.isPrefixOf_iff_prefix]
  split <;> simp_all

/-- What other lines start with. -/
def otherStarts : List Line :=
  ["a=candidate:", "m=", "a=rtpmap:", "a=fmtp:"].map String.toList

theorem starts_apart : ∀ start ∈ otherStarts, ∀ kept ∈ keptStarts,
    ¬ start <+: kept ∧ ¬ kept <+: start := by
  decide

/-- A line about the session is no other line. -/
theorem not_prefix_of_isSession (h : isSession line = true) :
    ∀ start ∈ otherStarts, ¬ start <+: line := by
  intro start hstart hprefix
  obtain ⟨kept, hkept, hline⟩ := List.any_eq_true.mp h
  obtain ⟨hleft, hright⟩ := starts_apart start hstart kept hkept
  rcases List.prefix_or_prefix_of_prefix hprefix (List.isPrefixOf_iff_prefix.mp hline) with h | h
  · exact hleft h
  · exact hright h

/-- The kinds of lines, by what they start with. -/
theorem kindOf_eq (line : Line) : kindOf line =
    if isCandidate line then if isUdpCandidate line then .udpCandidate else .dropped
    else if isMedia line then .media
    else if isNote line then if isAllowedNote line then .kept else .dropped
    else if isSession line then .kept else .dropped := by
  unfold kindOf isCandidate isUdpCandidate isMedia isNote isAllowedNote note? isSession
  cases after? "a=candidate:" line with
  | some candidate => rfl
  | none =>
      cases after? "m=" line with
      | some _ => rfl
      | none => cases (after? "a=rtpmap:" line).or (after? "a=fmtp:" line) <;> rfl

/-- A line about the session is kept whole. -/
theorem kindOf_of_isSession (h : isSession line = true) : kindOf line = .kept := by
  have hnone : ∀ start, start.toList ∈ otherStarts → after? start line = none := by
    intro start hstart
    rw [← Option.not_isSome_iff_eq_none, isSome_after?]
    exact not_prefix_of_isSession h _ hstart
  have hcandidate := hnone "a=candidate:" (by decide)
  have hmedia := hnone "m=" (by decide)
  have hmap := hnone "a=rtpmap:" (by decide)
  have hparameters := hnone "a=fmtp:" (by decide)
  simp only [kindOf_eq, isCandidate, isMedia, isNote, note?, hcandidate, hmedia, hmap, hparameters,
    h]
  rfl

theorem kindOf_of_isCandidate (h : isCandidate line = true) :
    kindOf line = if isUdpCandidate line then .udpCandidate else .dropped := by
  rw [kindOf_eq, if_pos h]

theorem kindOf_eq_media_iff_isMedia : kindOf line = .media ↔ isMedia line = true :=
  kindOf_eq_media_iff.trans isSome_after?.symm

theorem kindOf_of_isNote (h : isNote line = true) :
    kindOf line = if isAllowedNote line then .kept else .dropped := by
  rw [isNote, note?, Option.isSome_or, Bool.or_eq_true, isSome_after?, isSome_after?] at h
  rcases h with ⟨rest, rfl⟩ | ⟨rest, rfl⟩ <;> rfl

theorem kindOf_eq_udpCandidate_iff : kindOf line = .udpCandidate ↔ isUdpCandidate line = true := by
  refine ⟨fun h => ?_, fun h => ?_⟩
  · rw [kindOf_eq] at h
    grind
  · rw [kindOf_of_isCandidate (Option.isSome_of_any h), if_pos h]

theorem kindOf_eq_kept_iff :
    kindOf line = .kept ↔ isSession line = true ∨ isAllowedNote line = true := by
  refine ⟨fun h => ?_, ?_⟩
  · rw [kindOf_eq] at h
    grind
  · rintro (h | h)
    · exact kindOf_of_isSession h
    · rw [kindOf_of_isNote (Option.isSome_of_any h), if_pos h]

/-! ## The lines of each kind -/

/-- **The first candidates over UDP are kept, all media lines trimmed, and whole lines whole.** -/
theorem filter_keep (m : Nat) (lines : List Line) :
    (keep m lines).filter (kindOf · = .udpCandidate) =
      (lines.filter (kindOf · = .udpCandidate)).take m ∧
    (keep m lines).filter (kindOf · = .media) =
      (lines.filter (kindOf · = .media)).map trimMedia ∧
    (keep m lines).filter (kindOf · = .kept) = lines.filter (kindOf · = .kept) := by
  induction lines generalizing m with
  | nil => exact ⟨List.take_nil.symm, rfl, rfl⟩
  | cons line lines ih =>
      cases hkind : kindOf line with
      | udpCandidate => cases m <;> simp [keep, hkind, ih]
      | media => simp [keep, hkind, kindOf_trimMedia hkind, ih]
      | kept | dropped => simp [keep, hkind, ih]

/-! ## Media lines without payload types -/

/-- A media line keeps all its payload types if it is one of an application or if none of them is in
use. -/
def Untouched (line : Line) : Prop :=
  "m=application".toList <+: line ∨ ∀ format ∈ (split ' ' line).drop 3, format ∉ allowedTypes

instance (line : Line) : Decidable (Untouched line) := inferInstanceAs (Decidable (_ ∨ _))

/-- A media line with its first three fields, and behind them its payload types in use, or all of
them if it is to be left as it is. -/
structure Trims (line trimmed : Line) : Prop where
  front : (split ' ' trimmed).take 3 = (split ' ' line).take 3
  formats : (split ' ' trimmed).drop 3 = if Untouched line then (split ' ' line).drop 3
    else ((split ' ' line).drop 3).filter (· ∈ allowedTypes)

theorem trimMedia_of_untouched (h : Untouched line) : trimMedia line = line := by
  unfold trimMedia
  dsimp only
  split
  · rfl
  · rename_i hother
    have hnone : ((split ' ' line).drop 3).filter allowedTypes.contains = [] := by
      rw [List.filter_eq_nil_iff]
      intro format hformat
      rw [List.contains_iff_mem]
      refine h.resolve_left (fun happlication => hother ?_) format hformat
      rw [isSome_after?.mpr happlication, Bool.or_true]
    rw [hnone]
    rfl

theorem lt_length_of_not_untouched (h : ¬ Untouched line) : 3 < (split ' ' line).length := by
  refine Nat.lt_of_not_le fun hfew => h (.inr fun format hformat => ?_)
  rw [List.drop_of_length_le hfew] at hformat
  exact absurd hformat List.not_mem_nil

theorem trimMedia_of_not_untouched (h : ¬ Untouched line) :
    trimMedia line = [' '].intercalate
      ((split ' ' line).take 3 ++ ((split ' ' line).drop 3).filter (· ∈ allowedTypes)) := by
  obtain ⟨happlication, hsome⟩ := not_or.mp h
  have hfields : ¬ (split ' ' line).length ≤ 3 := Nat.not_le.mpr (lt_length_of_not_untouched h)
  have hother : (after? "m=application" line).isSome = false := by
    rw [Bool.eq_false_iff, ne_eq, isSome_after?]
    exact happlication
  have hallowed : ((split ' ' line).drop 3).filter allowedTypes.contains =
      ((split ' ' line).drop 3).filter (· ∈ allowedTypes) := by
    refine List.filter_congr fun format _ => ?_
    rw [List.contains_eq_mem]
  have hne : ((split ' ' line).drop 3).filter (· ∈ allowedTypes) ≠ [] := by
    rw [ne_eq, List.filter_eq_nil_iff]
    simpa using hsome
  unfold trimMedia
  dsimp only
  rw [hother, hallowed, Bool.or_false, if_neg (by simpa using hfields),
    if_neg (by rwa [List.isEmpty_iff])]

theorem trims_trimMedia (line : Line) : Trims line (trimMedia line) := by
  by_cases h : Untouched line
  · rw [trimMedia_of_untouched h]
    exact ⟨rfl, (if_pos h).symm⟩
  · have hfields := split_trimMedia List.filter_sublist (trimMedia_of_not_untouched h)
    have hlength : ((split ' ' line).take 3).length = 3 :=
      List.length_take_of_le (Nat.le_of_lt (lt_length_of_not_untouched h))
    refine ⟨?_, ?_⟩
    · rw [hfields, List.take_left' hlength]
    · rw [hfields, List.drop_left' hlength, if_neg h]

/-! ## Places -/

/-- Whether a line is needed, by how many candidates over UDP stand before it. -/
def isNeeded (m before : Nat) (line : Line) : Bool :=
  isSession line || isMedia line || isAllowedNote line ||
    (isUdpCandidate line && decide (before < m))

/-- The lines that are needed, each in its place. -/
def needed (m : Nat) (lines : List Line) : List Line :=
  (lines.zipIdx.filter fun (line, i) =>
    isNeeded m ((lines.take i).countP isUdpCandidate) line).map (·.1)

/-- What is left of a line: of a media line what `Trims` says, and of another line all of it. -/
def Leaves (line left : Line) : Prop :=
  if isMedia line then Trims line left else left = line

theorem isNeeded_eq (m before : Nat) (line : Line) :
    isNeeded m before line = match kindOf line with
      | .udpCandidate => decide (before < m)
      | .media | .kept => true
      | .dropped => false := by
  have hmedia := @kindOf_eq_media_iff_isMedia line
  have hkept := @kindOf_eq_kept_iff line
  have hcandidate := @kindOf_eq_udpCandidate_iff line
  rw [isNeeded]
  cases hkind : kindOf line <;> grind

theorem needed_cons (m : Nat) (line : Line) (lines : List Line) :
    needed m (line :: lines) = (if isNeeded m 0 line then [line] else []) ++
      needed (if isUdpCandidate line then m - 1 else m) lines := by
  have hlater : ∀ x : Line × Nat,
      isNeeded m (((line :: lines).take (x.2 + 1)).countP isUdpCandidate) x.1 =
        isNeeded (if isUdpCandidate line then m - 1 else m)
          ((lines.take x.2).countP isUdpCandidate) x.1 := by
    intro x
    rw [List.take_succ_cons, List.countP_cons, isNeeded, isNeeded]
    congr 2
    by_cases hline : isUdpCandidate line = true
    · simp only [hline, if_true, decide_eq_decide]
      omega
    · rw [if_neg hline, if_neg hline, Nat.add_zero]
  have hrest : ((line, 0) :: lines.zipIdx 1).filter (fun (x, i) =>
        isNeeded m (((line :: lines).take i).countP isUdpCandidate) x) =
      (if isNeeded m 0 line then [(line, 0)] else []) ++
        ((lines.zipIdx).filter fun (x, i) =>
          isNeeded (if isUdpCandidate line then m - 1 else m)
            ((lines.take i).countP isUdpCandidate) x).map fun (x, i) => (x, i + 1) := by
    rw [List.filter_cons, List.zipIdx_succ, List.filter_map]
    simp only [Function.comp_def, hlater]
    split <;> simp_all
  rw [needed, List.zipIdx_cons, hrest, List.map_append, List.map_map]
  split <;> rfl

theorem leaves_self (line : Line) (h : kindOf line ≠ .media) : Leaves line line := by
  rw [Leaves, if_neg fun hmedia => h (kindOf_eq_media_iff_isMedia.mpr hmedia)]

theorem leaves_trimMedia (line : Line) (h : kindOf line = .media) :
    Leaves line (trimMedia line) := by
  rw [Leaves, if_pos (kindOf_eq_media_iff_isMedia.mp h)]
  exact trims_trimMedia line

/-- **A line is kept in its place, by what it is and by the candidates before it.** -/
theorem forall₂_keep (m : Nat) (lines : List Line) :
    List.Forall₂ Leaves (needed m lines) (keep m lines) := by
  induction lines generalizing m with
  | nil => exact .nil
  | cons line lines ih =>
      have hcandidate := @kindOf_eq_udpCandidate_iff line
      rw [needed_cons, isNeeded_eq]
      cases hkind : kindOf line with
      | udpCandidate =>
          have hself := leaves_self line (by rw [hkind]; exact LineKind.noConfusion)
          simp only [keep, hkind, hcandidate.mp hkind, if_true]
          cases m with
          | zero => exact ih 0
          | succ m => exact .cons hself (ih m)
      | media =>
          simp only [keep, hkind, ← hcandidate, reduceCtorEq, if_false, if_true]
          exact .cons (leaves_trimMedia line hkind) (ih m)
      | kept =>
          have hself := leaves_self line (by rw [hkind]; exact LineKind.noConfusion)
          simp only [keep, hkind, ← hcandidate, reduceCtorEq, if_false, if_true]
          exact .cons hself (ih m)
      | dropped =>
          simp only [keep, hkind, ← hcandidate, reduceCtorEq, if_false]
          exact ih m

/-! ## Minified descriptions -/

/-- Lines that are all of one kind are found among those of that kind. -/
theorem filter_eq_filter_kind {p : Line → Bool} {kind : LineKind}
    (h : ∀ line, p line = true → kindOf line = kind) (lines : List Line) :
    lines.filter p = (lines.filter (kindOf · = kind)).filter p := by
  rw [List.filter_filter]
  refine List.filter_congr fun line _ => ?_
  cases hp : p line with
  | true => simp [h line hp]
  | false => rfl

theorem filter_keep_isSession (m : Nat) (lines : List Line) :
    (keep m lines).filter isSession = lines.filter isSession := by
  rw [filter_eq_filter_kind (fun _ => kindOf_of_isSession), (filter_keep m lines).2.2,
    ← filter_eq_filter_kind fun _ => kindOf_of_isSession]

theorem filter_keep_isCandidate (m : Nat) (lines : List Line) :
    (keep m lines).filter isCandidate = (lines.filter isUdpCandidate).take m := by
  have hkept : (keep m lines).filter isCandidate =
      (keep m lines).filter (kindOf · = .udpCandidate) := by
    refine List.filter_congr fun line hline => ?_
    have hdropped := kindOf_of_mem_keep hline
    rw [Bool.eq_iff_iff, decide_eq_true_iff]
    refine ⟨fun hcandidate => ?_, fun hkind => ?_⟩
    · rw [kindOf_of_isCandidate hcandidate] at hdropped ⊢
      grind
    · exact Option.isSome_of_any (kindOf_eq_udpCandidate_iff.mp hkind)
  have hlines : lines.filter (kindOf · = .udpCandidate) = lines.filter isUdpCandidate := by
    refine List.filter_congr fun line _ => ?_
    rw [Bool.eq_iff_iff, decide_eq_true_iff, kindOf_eq_udpCandidate_iff]
  rw [hkept, (filter_keep m lines).1, hlines]

theorem filter_keep_isNote (m : Nat) (lines : List Line) :
    (keep m lines).filter isNote = lines.filter isAllowedNote := by
  have hkind : ∀ line, isAllowedNote line = true → kindOf line = .kept :=
    fun line h => kindOf_eq_kept_iff.mpr (.inr h)
  have hkept : (keep m lines).filter isNote = (keep m lines).filter isAllowedNote := by
    refine List.filter_congr fun line hline => ?_
    have hdropped := kindOf_of_mem_keep hline
    rw [Bool.eq_iff_iff]
    refine ⟨fun hnote => ?_, Option.isSome_of_any⟩
    rw [kindOf_of_isNote hnote] at hdropped
    grind
  rw [hkept, filter_eq_filter_kind hkind, (filter_keep m lines).2.2, ← filter_eq_filter_kind hkind]

theorem filter_keep_isMedia (m : Nat) (lines : List Line) :
    (keep m lines).filter isMedia = (lines.filter isMedia).map trimMedia := by
  have hmedia : isMedia = fun line => decide (kindOf line = .media) := by
    funext line
    rw [Bool.eq_iff_iff, decide_eq_true_iff, kindOf_eq_media_iff_isMedia]
  rw [hmedia, (filter_keep m lines).2.1]

/-- **Minifying keeps what a peer needs.** The lines of a minified description are those of the
description that are needed, in their places and whole, or trimmed if they are media lines. Among
them are all lines about the session, the first candidates over UDP, what is said of the payload
types in use, and every media line. -/
theorem minify_keeps_needed (sdp : String) (m : Nat) :
    List.Forall₂ Leaves (needed m (givenLines sdp.toList)) (Text.lines (minify sdp m).toList) ∧
    (Text.lines (minify sdp m).toList).filter isSession =
      (givenLines sdp.toList).filter isSession ∧
    (Text.lines (minify sdp m).toList).filter isCandidate =
      ((givenLines sdp.toList).filter isUdpCandidate).take m ∧
    (Text.lines (minify sdp m).toList).filter isNote =
      (givenLines sdp.toList).filter isAllowedNote ∧
    List.Forall₂ Trims ((givenLines sdp.toList).filter isMedia)
      ((Text.lines (minify sdp m).toList).filter isMedia) := by
  have hkept : Text.lines (minify sdp m).toList = keep m (givenLines sdp.toList) := by
    rw [lines_minify, minifiedLines, linesOf_eq]
  rw [hkept]
  refine ⟨forall₂_keep m _, filter_keep_isSession m _, filter_keep_isCandidate m _,
    filter_keep_isNote m _, ?_⟩
  rw [filter_keep_isMedia, List.forall₂_map_right_iff, List.forall₂_same]
  exact fun line _ => trims_trimMedia line

example :
    minify ("\r\n".intercalate ["v=0", "m=audio 9 RTP/SAVPF 0 9 111", "a=rtpmap:9 G722/8000",
      "a=rtpmap:111 opus/48000/2", "a=candidate:1 1 TCP 5 10.0.0.1 9 typ host",
      "a=candidate:2 1 Udp 5 10.0.0.1 9 typ host"]) 5 =
    "\n".intercalate ["v=0", "m=audio 9 RTP/SAVPF 0 111", "a=rtpmap:111 opus/48000/2",
      "a=candidate:2 1 Udp 5 10.0.0.1 9 typ host"] := by
  decide +kernel

end PeerCall.Sdp
