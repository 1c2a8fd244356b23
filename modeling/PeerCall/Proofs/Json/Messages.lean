import Mathlib.Data.List.Nodup
import PeerCall.Proofs.Json.Objects
import PeerCall.Proofs.Text.Base64
import PeerCall.WireForm

/-!
# The text form of messages read back

The members that are written have names of the form, in its order, so none of them stands there
twice and each field finds its own value. The one message that is not read back is a message
without a sender: it is written, and refused by who reads it.
-/
namespace PeerCall

open Json

namespace Json

theorem sublist_intercalate {piece sep : List Char} {pieces : List (List Char)}
    (h : piece ∈ pieces) : piece.Sublist (sep.intercalate pieces) := by
  induction pieces with
  | nil => cases h
  | cons first rest ih =>
      rcases rest with _ | ⟨second, rest⟩
      · rw [List.mem_singleton.mp h, List.intercalate_singleton]
      · rw [List.intercalate_cons_cons, List.append_assoc]
        rcases List.mem_cons.mp h with rfl | h
        · exact List.sublist_append_left _ _
        · exact (ih h).trans ((List.sublist_append_right _ _).trans (List.sublist_append_right _ _))

/-- What is written of a member stands in the object. -/
theorem sublist_object {members : List (String × List Char)} {name : String} {written : List Char}
    (h : (name, written) ∈ members) : written.Sublist (object members) := by
  have hpiece : quote name ++ ':' :: written ∈
      members.map fun m => quote m.1 ++ ':' :: m.2 := List.mem_map.mpr ⟨_, h, rfl⟩
  have hwritten : written.Sublist (quote name ++ ':' :: written) :=
    ((List.Sublist.refl _).cons _).trans (List.sublist_append_right _ _)
  have hbody : written.Sublist ([','].intercalate _) := hwritten.trans (sublist_intercalate hpiece)
  exact (hbody.cons _).trans (List.sublist_append_left _ _)

end Json

namespace WireForm

variable {w : WireForm}

/-- A text field that is present. -/
def textMember (name : String) (value : Option String) : List Member :=
  (value.map (Member.text name)).toList

/-- A number that is present. -/
def indexMember (name : String) (value : Option UInt16) : List Member :=
  (value.map fun n => Member.natural name n.toNat).toList

/-- The kind, which is null where there is none. -/
def tagMember : Option Tag → Member
  | some tag => .text "type" tag.text
  | none => .null "type"

/-- The members of the written form. -/
def members (w : WireForm) : List Member :=
  [tagMember w.tag, .text "senderId" w.sender] ++ textMember "sdp" w.sdp
    ++ textMember "iceCandidate" w.iceCandidate ++ textMember "sdpMid" w.sdpMid
    ++ indexMember "sdpMLineIndex" w.sdpMLineIndex ++ textMember "ephemeralKey" w.ephemeralKey
    ++ textMember "encryptedPayload" w.encryptedPayload

theorem map_textMember (name : String) (value : Option String) :
    (textMember name value).map (fun m => (m.name, m.written)) =
      (value.map fun v => (name, quote v)).toList := by
  cases value <;> rfl

theorem print_eq (w : WireForm) :
    w.print = object (w.members.map fun m => (m.name, m.written)) := by
  have hindex : (indexMember "sdpMLineIndex" w.sdpMLineIndex).map (fun m => (m.name, m.written)) =
      (w.sdpMLineIndex.map fun n => ("sdpMLineIndex", (toString n.toNat).toList)).toList := by
    cases w.sdpMLineIndex <;> simp [indexMember, Member.natural]
  rw [print, members]
  simp only [List.map_append, map_textMember, hindex]
  cases w.tag <;> rfl

theorem parse?_print (w : WireForm) :
    parse? (String.ofList w.print) = some (.object (entries w.members)) := by
  rw [print_eq]
  exact parse?_object w.members

/-! ## Fields -/

/-- What is found under a name among members. -/
def found (name : String) (ms : List Member) : Option Value :=
  (ms.map fun m => (m.name, m.value)).lookup name

theorem namedMembers?_entries (ms : List Member) :
    namedMembers? (entries ms) = some (ms.map fun m => (m.name, m.value)) := by
  induction ms with
  | nil => rfl
  | cons m ms ih => simp_all [namedMembers?, entries]

theorem found_cons (name : String) (m : Member) (ms : List Member) :
    found name (m :: ms) = if name = m.name then some m.value else found name ms := by
  by_cases h : name = m.name
  · simp [found, h]
  · have hbeq : (name == m.name) = false := beq_false_of_ne h
    simp [found, List.lookup_cons, hbeq, h]

theorem found_append (name : String) (ms ms' : List Member) :
    found name (ms ++ ms') = (found name ms).or (found name ms') := by
  rw [found, List.map_append, List.lookup_append]
  rfl

@[simp] theorem name_tagMember (tag : Option Tag) : (tagMember tag).name = "type" := by
  cases tag <;> rfl

theorem found_textMember (name other : String) (value : Option String) :
    found name (textMember other value) =
      if name = other then value.map fun s => .text (some s) else none := by
  cases value with
  | none => simp [found, textMember]
  | some s =>
      by_cases h : name = other <;> simp [found, textMember, Member.text, h]

theorem found_indexMember (name other : String) (value : Option UInt16) :
    found name (indexMember other value) =
      if name = other then value.map fun n => .natural n.toNat else none := by
  cases value with
  | none => simp [found, indexMember]
  | some s =>
      by_cases h : name = other <;> simp [found, indexMember, Member.natural, h]

theorem map_name_textMember (name : String) (value : Option String) :
    ((textMember name value).map (·.name)).Sublist [name] := by
  cases value with
  | none => exact List.nil_sublist _
  | some s => exact List.Sublist.refl _

/-- The names written stand in the order of the form, each once at most. -/
theorem map_name_members (w : WireForm) : (w.members.map (·.name)).Sublist names := by
  have hindex : ((indexMember "sdpMLineIndex" w.sdpMLineIndex).map (·.name)).Sublist
      ["sdpMLineIndex"] := by
    cases w.sdpMLineIndex with
    | none => exact List.nil_sublist _
    | some n => exact List.Sublist.refl _
  have hfront : ([tagMember w.tag, .text "senderId" w.sender].map (·.name)).Sublist
      ["type", "senderId"] := by
    cases w.tag <;> exact List.Sublist.refl _
  simp only [members, List.map_append]
  exact (((((hfront.append (map_name_textMember _ _)).append (map_name_textMember _ _)).append
    (map_name_textMember _ _)).append hindex).append (map_name_textMember _ _)).append
      (map_name_textMember _ _)

theorem textField_map (value : Option String) :
    textField (value.map fun s => .text (some s)) = some value := by
  cases value <;> rfl

theorem indexField_map (value : Option UInt16) :
    indexField (value.map fun n => .natural n.toNat) = some value := by
  cases value with
  | none => rfl
  | some n => simp [indexField, n.toNat_lt]

theorem textField_tagMember (tag : Option Tag) :
    textField (some (tagMember tag).value) = some (tag.map Tag.text) := by
  cases tag <;> rfl

/-- Each field finds the value that was written for it. -/
theorem ofFields_found (w : WireForm) : ofFields (fun name => found name w.members) = some w := by
  have htag : found "type" w.members = some (tagMember w.tag).value := by
    simp [members, found_cons]
  have hsender : found "senderId" w.members = some (.text (some w.sender)) := by
    simp [members, found_cons, Member.text]
  have hsdp : found "sdp" w.members = w.sdp.map fun s => .text (some s) := by
    simp [members, found_cons, found_append, found_textMember, found_indexMember, Member.text]
  have hcandidate : found "iceCandidate" w.members =
      w.iceCandidate.map fun s => .text (some s) := by
    simp [members, found_cons, found_append, found_textMember, found_indexMember, Member.text]
  have hmid : found "sdpMid" w.members = w.sdpMid.map fun s => .text (some s) := by
    simp [members, found_cons, found_append, found_textMember, found_indexMember, Member.text]
  have hindex : found "sdpMLineIndex" w.members =
      w.sdpMLineIndex.map fun n => .natural n.toNat := by
    simp [members, found_cons, found_append, found_textMember, found_indexMember, Member.text]
  have hkey : found "ephemeralKey" w.members = w.ephemeralKey.map fun s => .text (some s) := by
    simp [members, found_cons, found_append, found_textMember, found_indexMember, Member.text]
  have hpayload : found "encryptedPayload" w.members =
      w.encryptedPayload.map fun s => .text (some s) := by
    simp [members, found_cons, found_append, found_textMember, found_indexMember, Member.text]
  have htext : textField (some (.text (some w.sender))) = some (some w.sender) := rfl
  have hkind : (w.tag.map Tag.text).map Tag.ofText = w.tag := by
    cases w.tag <;> simp
  simp only [ofFields, htag, hsender, hsdp, hcandidate, hmid, hindex, hkey, hpayload,
    textField_tagMember, htext, textField_map, indexField_map, Option.bind_eq_bind,
    Option.bind_some, hkind]
  rfl

/-- A name of the form stands in the written members once at most. -/
theorem length_filter_le (w : WireForm) (name : String) :
    ((w.members.map fun m => (m.name, m.value)).filter (·.1 = name)).length ≤ 1 := by
  have hnodup : (w.members.map (·.name)).Nodup :=
    (map_name_members w).nodup (by decide)
  have hcount := List.nodup_iff_count_le_one.mp hnodup name
  rw [List.count_eq_countP, List.countP_map] at hcount
  rw [← List.countP_eq_length_filter, List.countP_map]
  refine Nat.le_trans (Nat.le_of_eq ?_) hcount
  congr 1

/-- **The fields are read back from their written form.** -/
theorem parse_print (w : WireForm) : parse (String.ofList w.print) = .ok w := by
  have hunique : (names.any fun name =>
      ((w.members.map fun m => (m.name, m.value)).filter (·.1 = name)).length > 1) = false := by
    rw [List.any_eq_false]
    intro name _ hmany
    have hle := length_filter_le w name
    exact absurd (of_decide_eq_true hmany) (Nat.not_lt.mpr hle)
  have hjson : ofJson (.object (entries w.members)) = some w := by
    rw [ofJson, namedMembers?_entries, Option.bind_eq_bind, Option.bind_some, hunique]
    exact ofFields_found w
  rw [parse, parse?_print, Option.bind_some, hjson]

/-! ## Messages -/

theorem parseKey_encode (key : PublicKey) : parseKey (Text.Hex.encode key.bytes) = .ok key := by
  simp [parseKey]

theorem parsePayload_encode (payload : Bytes) :
    parsePayload (Text.Base64.encode .standard payload) = .ok payload := by
  simp [parsePayload]

/-- The fields of a message stand for its signal. -/
theorem signal_ofMessage (m : Message) : (ofMessage m).signal = .ok m.signal := by
  obtain ⟨sender, signal⟩ := m
  cases signal with
  | join => rfl
  | offer sdp => rfl
  | answer sdp => rfl
  | iceCandidate c => rfl
  | bye => rfl
  | chat text => rfl
  | identity key =>
      change (parseKey (Text.Hex.encode key.bytes)).map Signal.identity = _
      rw [parseKey_encode]
      rfl
  | encrypted key payload =>
      change (do
        let key ← parseKey (Text.Hex.encode key.bytes)
        let payload ← parsePayload (Text.Base64.encode .standard payload)
        pure (Signal.encrypted key payload)) = _
      rw [parseKey_encode, parsePayload_encode]
      rfl
  | selectMode mode => cases mode <;> rfl
  | unknown => rfl

@[simp] theorem sender_ofMessage (m : Message) : (ofMessage m).sender = m.sender := by
  obtain ⟨sender, signal⟩ := m
  cases signal <;> rfl

end WireForm

/-- **A message is read back from its text form**, unless it has no sender. -/
theorem Message.ofJson_toJson (m : Message) :
    ofJson m.toJson = if m.sender.isEmpty then .error .missingSender else .ok m := by
  rw [ofJson, toJson, WireForm.parse_print]
  change (WireForm.ofMessage m).toMessage = _
  rw [WireForm.toMessage, WireForm.sender_ofMessage, WireForm.signal_ofMessage]
  rfl

namespace Message

variable {m : Message} {text : String}

theorem ofJson_toJson_eq_ok_iff : ofJson m.toJson = .ok m ↔ m.sender ≠ "" := by
  rw [ofJson_toJson, ne_eq, ← String.isEmpty_iff]
  by_cases hsender : m.sender.isEmpty = true
  · simp [hsender]
  · simp [hsender]

/-- Fields without a sender stand for no message. -/
theorem sender_ne_of_toMessage {w : WireForm} (h : w.toMessage = .ok m) : m.sender ≠ "" := by
  unfold WireForm.toMessage at h
  split at h
  · cases h
  · rename_i hsender
    cases hsignal : w.signal with
    | error e =>
        rw [hsignal] at h
        cases h
    | ok signal =>
        rw [hsignal] at h
        cases h
        rwa [String.isEmpty_iff] at hsender

/-- A text is read as the message that its fields stand for. -/
theorem ofJson_eq_ok (h : ofJson text = .ok m) :
    ∃ w, WireForm.parse text = .ok w ∧ w.toMessage = .ok m := by
  rw [ofJson] at h
  cases hparse : WireForm.parse text with
  | error e =>
      rw [hparse] at h
      cases h
  | ok w =>
      rw [hparse] at h
      exact ⟨w, rfl, h⟩

/-- The text of a chat stands in its written form, if nothing in it is escaped. -/
theorem sublist_toJson_chat (sender : String) (hplain : ∀ c ∈ text.toList, escape c = [c]) :
    text.toList.Sublist (toJson ⟨sender, .chat text⟩).toList := by
  have hmember : ("sdp", quote text) ∈
      (WireForm.ofMessage ⟨sender, .chat text⟩).members.map fun m => (m.name, m.written) := by
    simp [WireForm.members, WireForm.ofMessage, WireForm.textMember, Member.text]
  have hquote : text.toList.Sublist (quote text) := by
    rw [quote, List.flatMap_congr hplain, List.flatMap_singleton']
    exact ((List.Sublist.refl _).cons _).trans (List.sublist_append_left _ _)
  rw [toJson, String.toList_ofList, WireForm.print_eq]
  exact hquote.trans (sublist_object hmember)

/-- **The text form keeps every message that has a sender**, whatever characters its texts hold,
and no text is read as a message without one. So a message that was read, in whatever spelling it
came, is written in a form that is read as the same message again. -/
theorem text_form_round_trip :
    (∀ m, ofJson m.toJson = .ok m ↔ m.sender ≠ "") ∧
      ∀ text m, ofJson text = .ok m → m.sender ≠ "" ∧ ofJson m.toJson = .ok m := by
  refine ⟨fun m => ofJson_toJson_eq_ok_iff, ?_⟩
  intro text m hread
  obtain ⟨w, -, hmessage⟩ := ofJson_eq_ok hread
  have hsender := sender_ne_of_toMessage hmessage
  exact ⟨hsender, ofJson_toJson_eq_ok_iff.mpr hsender⟩

/-- A text with its members in another order, blanks, escapes and a pair of surrogates. -/
def chatText : String :=
  "\x7b \"sdp\": \"\\ud83d\\ude00\\u000a\\/\", \"other\": [1.5, \x7b\x7d],
    \"sen\\u0064erId\": \"\\\"p\\\"\", \"type\": \"MESSAGE\" \x7d"

/-- The chat that was read from there is read again from its own text form. -/
theorem text_form_round_trip_surrogates :
    ofJson chatText = .ok ⟨"\"p\"", .chat "😀\n/"⟩ ∧
      ofJson (toJson ⟨"\"p\"", .chat "😀\n/"⟩) = .ok ⟨"\"p\"", .chat "😀\n/"⟩ := by
  have hread : ofJson chatText = .ok ⟨"\"p\"", .chat "😀\n/"⟩ := by decide +kernel
  exact ⟨hread, (text_form_round_trip.2 chatText _ hread).2⟩

end Message

end PeerCall
