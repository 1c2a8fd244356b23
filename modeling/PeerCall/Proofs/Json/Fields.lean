import Mathlib.Data.List.Perm.Basic
import PeerCall.Proofs.Json.Reading
import PeerCall.WireForm

/-!
# The text form as a set of named fields

A message is read from the values that stand under the names of the form, wherever in its object
they stand, and however names and values are spelled. Other members may stand there too, with
whatever values, as long as their names are texts. Under no name of the form may two values stand.
-/
namespace PeerCall

namespace Json

variable {name : String} {entries entries' : List (Text × Value)}

/-- The values under a name, in order. -/
def valuesAt (name : String) (entries : List (Text × Value)) : List Value :=
  entries.filterMap fun e => if e.1 = some name then some e.2 else none

/-- Whether all names are texts. -/
def isNamed (entries : List (Text × Value)) : Bool := entries.all fun e => e.1.isSome

theorem valuesAt_append (name : String) (entries entries' : List (Text × Value)) :
    valuesAt name (entries ++ entries') = valuesAt name entries ++ valuesAt name entries' :=
  List.filterMap_append

theorem valuesAt_singleton (name : String) (e : Text × Value) :
    valuesAt name [e] = if e.1 = some name then [e.2] else [] := by
  by_cases h : e.1 = some name <;> simp [valuesAt, h]

/-- Members with texts for names. -/
def named (members : List (String × Value)) : List (Text × Value) :=
  members.map fun m => (some m.1, m.2)

theorem namedMembers?_named (members : List (String × Value)) :
    namedMembers? (named members) = some members := by
  induction members with
  | nil => rfl
  | cons m rest ih => simp_all [namedMembers?, named]

theorem exists_named (h : isNamed entries = true) : ∃ members, entries = named members := by
  induction entries with
  | nil => exact ⟨[], rfl⟩
  | cons e rest ih =>
      obtain ⟨key, v⟩ := e
      simp only [isNamed, List.all_cons, Bool.and_eq_true] at h
      obtain ⟨name, rfl⟩ := Option.isSome_iff_exists.mp h.1
      obtain ⟨members, rfl⟩ := ih h.2
      exact ⟨(name, v) :: members, rfl⟩

theorem namedMembers?_of_not (h : isNamed entries = false) : namedMembers? entries = none := by
  induction entries with
  | nil => cases h
  | cons e rest ih =>
      obtain ⟨name, v⟩ := e
      cases name with
      | none => simp [namedMembers?]
      | some name =>
          have hrest : isNamed rest = false := by simpa [isNamed] using h
          have hnone := ih hrest
          simp_all [namedMembers?]

theorem valuesAt_named (name : String) (members : List (String × Value)) :
    valuesAt name (named members) = (members.filter (·.1 = name)).map Prod.snd := by
  induction members with
  | nil => rfl
  | cons m rest ih => by_cases h : m.1 = name <;> simp_all [valuesAt, named]

theorem lookup_eq_head? (name : String) (members : List (String × Value)) :
    members.lookup name = (valuesAt name (named members)).head? := by
  rw [valuesAt_named]
  induction members with
  | nil => rfl
  | cons m rest ih =>
      obtain ⟨key, v⟩ := m
      by_cases h : key = name
      · simp [h]
      · have hbeq : (name == key) = false := beq_false_of_ne (Ne.symm h)
        rw [List.lookup_cons, hbeq, List.filter_cons_of_neg (by simpa using h)]
        exact ih

theorem isNamed_of_perm (h : entries.Perm entries') :
    isNamed entries = isNamed entries' := by
  rw [Bool.eq_iff_iff, isNamed, isNamed, List.all_eq_true, List.all_eq_true]
  exact ⟨fun hall e he => hall e (h.mem_iff.mpr he), fun hall e he => hall e (h.mem_iff.mp he)⟩

end Json

open Json

namespace WireForm

variable {entries entries' : List (Text × Value)} {field field' : String → Option Value}

/-- Only the values under the names of the form count. -/
theorem ofFields_congr (h : ∀ name ∈ names, field name = field' name) :
    ofFields field = ofFields field' := by
  simp only [ofFields, h "type" (by decide), h "senderId" (by decide), h "sdp" (by decide),
    h "iceCandidate" (by decide), h "sdpMid" (by decide), h "sdpMLineIndex" (by decide),
    h "ephemeralKey" (by decide), h "encryptedPayload" (by decide)]

/-- All names are texts, and under no name of the form stand two values. -/
structure Fit (entries : List (Text × Value)) : Prop where
  named : isNamed entries = true
  single : ∀ name ∈ names, (valuesAt name entries).length ≤ 1

/-- Members that fit are read by the names of the form. -/
theorem ofJson_of_fit (h : Fit entries) :
    ofJson (.object entries) = ofFields fun name => (valuesAt name entries).head? := by
  obtain ⟨members, rfl⟩ := exists_named h.named
  have hsingle : (names.any fun name => (members.filter (·.1 = name)).length > 1) = false := by
    rw [List.any_eq_false]
    intro name hname hmany
    have hle := h.single name hname
    rw [valuesAt_named, List.length_map] at hle
    exact absurd (of_decide_eq_true hmany) (Nat.not_lt.mpr hle)
  rw [ofJson, namedMembers?_named, Option.bind_eq_bind, Option.bind_some, hsingle,
    if_neg Bool.false_ne_true]
  exact ofFields_congr fun name _ => lookup_eq_head? name members

/-- Others are refused. -/
theorem ofJson_of_not_fit (h : ¬ Fit entries) : ofJson (.object entries) = none := by
  cases hnamed : isNamed entries with
  | false => rw [ofJson, namedMembers?_of_not hnamed, Option.bind_eq_bind, Option.bind_none]
  | true =>
      obtain ⟨members, rfl⟩ := exists_named hnamed
      have hmany : ∃ name ∈ names, 1 < (valuesAt name (Json.named members)).length := by
        by_contra hnone
        refine h ⟨hnamed, fun name hname => ?_⟩
        by_contra hlt
        exact hnone ⟨name, hname, Nat.lt_of_not_le hlt⟩
      obtain ⟨name, hname, hlt⟩ := hmany
      rw [valuesAt_named, List.length_map] at hlt
      rw [ofJson, namedMembers?_named, Option.bind_eq_bind, Option.bind_some,
        if_pos (List.any_eq_true.mpr ⟨name, hname, decide_eq_true hlt⟩)]

/-- In which order the values of a field stand is all the same, for one that has two is refused. -/
theorem ofJson_congr (hnamed : isNamed entries = isNamed entries')
    (hvalues : ∀ name ∈ names, (valuesAt name entries).Perm (valuesAt name entries')) :
    ofJson (.object entries) = ofJson (.object entries') := by
  by_cases hfit : Fit entries
  · have hfit' : Fit entries' := by
      refine ⟨hnamed ▸ hfit.named, fun name hname => ?_⟩
      rw [← (hvalues name hname).length_eq]
      exact hfit.single name hname
    rw [ofJson_of_fit hfit, ofJson_of_fit hfit']
    refine ofFields_congr fun name hname => ?_
    have hperm := hvalues name hname
    have hle := hfit.single name hname
    match hv : valuesAt name entries with
    | [] => rw [hv] at hperm; rw [hperm.nil_eq]
    | [v] => rw [hv] at hperm; rw [List.singleton_perm.mp hperm]
    | _ :: _ :: _ => simp [hv] at hle
  · have hfit' : ¬ Fit entries' := by
      intro hfit'
      refine hfit ⟨hnamed.trans hfit'.named, fun name hname => ?_⟩
      rw [(hvalues name hname).length_eq]
      exact hfit'.single name hname
    rw [ofJson_of_not_fit hfit, ofJson_of_not_fit hfit']

/-- A text is read as its members are. -/
theorem parse_text (o : ObjectText) : parse o.text =
    match ofJson (.object o.entries) with
    | some w => .ok w
    | none => .error .json := by
  have hparse : (parse? o.text).bind ofJson = ofJson (.object o.entries) := by
    rw [o.parse?_text, Option.bind_some]
  cases hjson : ofJson (.object o.entries) <;> simp [parse, hparse, hjson]

end WireForm

namespace Message

open WireForm

theorem ofJson_text_of_none {o : ObjectText} (h : WireForm.ofJson (.object o.entries) = none) :
    ofJson o.text = .error .json := by
  rw [ofJson, parse_text, h]
  rfl

/-- Texts whose members stand for the same values of all fields are read alike. -/
theorem ofJson_text_congr {o o' : ObjectText} (hnamed : isNamed o.entries = isNamed o'.entries)
    (hvalues : ∀ name ∈ names, (valuesAt name o.entries).Perm (valuesAt name o'.entries)) :
    ofJson o.text = ofJson o'.text := by
  rw [ofJson, ofJson, parse_text, parse_text, ofJson_congr hnamed hvalues]

/-- **An object is read as a set of named fields.** From its text the values under the names of the
form are read, if all names are texts and none of the form stands there twice; texts of which one of
this does not hold are refused. So it is all the same which other members there are, of whatever
nesting, in which order the members stand, how they are spelled and where there are blanks. -/
theorem object_texts_read_by_name :
    (∀ o : ObjectText, Fit o.entries → WireForm.parse o.text =
      match ofFields fun name => (valuesAt name o.entries).head? with
      | some w => .ok w
      | none => .error .json) ∧
    (∀ o : ObjectText, ∀ name ∈ names, 1 < (valuesAt name o.entries).length →
      ofJson o.text = .error .json) ∧
    (∀ o : ObjectText, isNamed o.entries = false → ofJson o.text = .error .json) ∧
    (∀ o o' : ObjectText, isNamed o.entries = true → isNamed o'.entries = true →
      (∀ name ∈ names, valuesAt name o.entries = valuesAt name o'.entries) →
        ofJson o.text = ofJson o'.text) ∧
    (∀ o o' : ObjectText, o.entries.Perm o'.entries → ofJson o.text = ofJson o'.text) ∧
    (∀ (o : ObjectText) (front back : List (Name × Spelling)) (key : Name) (s : Spelling),
      o.members = front ++ back → (∃ name ∉ names, key.text = some name) →
        ofJson { o with members := front ++ (key, s) :: back }.text = ofJson o.text) ∧
    (∀ o : ObjectText, ofJson o.bare.text = ofJson o.text) := by
  refine ⟨?_, ?_, ?_, ?_, ?_, ?_, ?_⟩
  · intro o hfit
    rw [parse_text, ofJson_of_fit hfit]
  · intro o name hname hmany
    refine ofJson_text_of_none (ofJson_of_not_fit fun hfit => ?_)
    exact absurd (hfit.single name hname) (Nat.not_le.mpr hmany)
  · intro o hunnamed
    refine ofJson_text_of_none (ofJson_of_not_fit fun hfit => ?_)
    exact Bool.false_ne_true (hunnamed.symm.trans hfit.named)
  · intro o o' hnamed hnamed' hvalues
    refine ofJson_text_congr (hnamed.trans hnamed'.symm) fun name hname => ?_
    rw [hvalues name hname]
  · intro o o' hperm
    exact ofJson_text_congr (isNamed_of_perm hperm) fun name _ => hperm.filterMap _
  · rintro o front back key s hmembers ⟨name, hforeign, hkey⟩
    have hentries : o.entries = front.map (fun m => (m.1.text, m.2.value)) ++
        back.map fun m => (m.1.text, m.2.value) := by
      rw [ObjectText.entries, hmembers, List.map_append]
    have hentries' : ({ o with members := front ++ (key, s) :: back } : ObjectText).entries =
        front.map (fun m => (m.1.text, m.2.value)) ++
          ([(some name, s.value)] ++ back.map fun m => (m.1.text, m.2.value)) := by
      rw [ObjectText.entries, List.map_append, List.map_cons, hkey]
      rfl
    refine ofJson_text_congr ?_ fun field hfield => ?_
    · rw [hentries, hentries']
      simp [isNamed]
    · have hne : name ≠ field := fun heq => hforeign (heq ▸ hfield)
      rw [hentries, hentries', valuesAt_append, valuesAt_append, valuesAt_append,
        valuesAt_singleton, if_neg fun heq => hne (Option.some.inj heq), List.nil_append]
  · intro o
    rw [ofJson, ofJson, parse_text, parse_text, o.entries_bare]

/-- A foreign member of some depth, with half of a pair of surrogates for a name in it and a number
that no field takes, is skipped. A second kind is not, though it is the same. -/
theorem object_texts_read_by_name_nested :
    let kind : Name × Spelling := (⟨.none, plainly "type" (by decide), .none⟩,
      .atom (.text (plainly "JOIN" (by decide))))
    let sender : Name × Spelling := (⟨.none, plainly "senderId" (by decide), .none⟩,
      .atom (.text (plainly "a" (by decide))))
    let blank : Blanks := ⟨[' '], by decide⟩
    let half : Name :=
      ⟨.none, [.unit ⟨⟨'d', 13, rfl⟩, ⟨'8', 8, rfl⟩, ⟨'0', 0, rfl⟩, ⟨'0', 0, rfl⟩⟩], blank⟩
    let seven : Digits := ⟨['7'], by decide, by decide⟩
    let number : Spelling := .atom (.number ⟨true, seven, by decide, some seven, none⟩)
    let key : Name := ⟨blank, plainly "x" (by decide), .none⟩
    let value : Spelling := .array .none
      [.object .none [(half, .array blank []), (⟨blank, [], .none⟩, number)], .atom .null]
    let o : ObjectText := ⟨.none, .none, [sender, kind], .none⟩
    let nested : ObjectText := { o with members := [sender, (key, value), kind] }
    let twice : ObjectText := { o with members := [kind, sender, kind] }
    nested.text = "\x7b\"senderId\":\"a\", \"x\":[\x7b\"\\ud800\" :[ ], \"\":-7.7\x7d,null]," ++
        "\"type\":\"JOIN\"\x7d" ∧
      ofJson nested.text = .ok ⟨"a", .join⟩ ∧ ofJson twice.text = .error .json := by
  intro kind sender blank half seven number key value o nested twice
  obtain ⟨-, hrepeated, -, -, -, hinserted, -⟩ := object_texts_read_by_name
  have hsame : ofJson nested.text = ofJson o.text :=
    hinserted o [sender] [kind] key value rfl ⟨"x", by decide, by decide +kernel⟩
  refine ⟨by decide +kernel, ?_, hrepeated twice "type" (by decide) (by decide +kernel)⟩
  rw [hsame]
  decide +kernel

end Message

end PeerCall
