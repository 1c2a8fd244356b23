import PeerCall.Proofs.Text.Base64
import PeerCall.Proofs.Text.Hex
import PeerCall.WireForm

/-!
# What a form is read as

The sender is looked at first, then the key, then the payload of an envelope, the last two only
where the kind of the message calls for them. A form that passes stands for a message, and the form
of this message is the one that was read, without the fields that mean nothing for its kind.
-/
namespace PeerCall

namespace WireForm

/-- The fields that a form may lack. -/
inductive Field
  | sdp
  | iceCandidate
  | sdpMid
  | sdpMLineIndex
  | ephemeralKey
  | encryptedPayload
  deriving DecidableEq

/-- Whether a field is present. -/
def has (w : WireForm) : Field → Bool
  | .sdp => w.sdp.isSome
  | .iceCandidate => w.iceCandidate.isSome
  | .sdpMid => w.sdpMid.isSome
  | .sdpMLineIndex => w.sdpMLineIndex.isSome
  | .ephemeralKey => w.ephemeralKey.isSome
  | .encryptedPayload => w.encryptedPayload.isSome

end WireForm

open WireForm (Field)

/-- The fields that mean something for a kind. -/
def Tag.fields : Tag → List Field
  | .offer | .answer | .message => [.sdp]
  | .iceCandidate => [.iceCandidate, .sdpMid, .sdpMLineIndex]
  | .identity => [.ephemeralKey]
  | .encrypted => [.ephemeralKey, .encryptedPayload]
  | .join | .bye | .voiceCall | .videoCall | .unknown => []

/-- The payload that a kind needs. -/
def Tag.needs : Tag → List Field
  | .offer | .answer | .message => [.sdp]
  | .iceCandidate => [.iceCandidate]
  | .identity => [.ephemeralKey]
  | .encrypted => [.ephemeralKey, .encryptedPayload]
  | .join | .bye | .voiceCall | .videoCall | .unknown => []

namespace WireForm

variable {w : WireForm} {text : String}

/-- The form is of a kind known here, with the payload that this kind needs. -/
def Understood (w : WireForm) : Prop :=
  ∃ tag, w.tag = some tag ∧ tag ≠ .unknown ∧ ∀ f ∈ tag.needs, w.has f = true

/-- A field that means something for the form's kind; nothing in the place of any other. -/
def own {α : Type} (w : WireForm) (f : Field) (value : Option α) : Option α :=
  if f ∈ (w.tag.getD .unknown).fields then value else none

/-- The form without the fields foreign to its kind, and with its key in lower case. -/
def cleared (w : WireForm) : WireForm where
  tag := w.tag
  sender := w.sender
  sdp := w.own .sdp w.sdp
  iceCandidate := w.own .iceCandidate w.iceCandidate
  sdpMid := w.own .sdpMid w.sdpMid
  sdpMLineIndex := w.own .sdpMLineIndex w.sdpMLineIndex
  ephemeralKey := w.own .ephemeralKey (w.ephemeralKey.map String.toLower)
  encryptedPayload := w.own .encryptedPayload w.encryptedPayload

/-- The key that has to be read: that of an introduction, or of an envelope with a payload. -/
def key? (w : WireForm) : Option String :=
  match w.tag with
  | some .identity => w.ephemeralKey
  | some .encrypted => if w.encryptedPayload.isSome then w.ephemeralKey else none
  | _ => none

/-- The payload that has to be read: that of an envelope with a key. -/
def payload? (w : WireForm) : Option String :=
  match w.tag with
  | some .encrypted => if w.ephemeralKey.isSome then w.encryptedPayload else none
  | _ => none

/-- A text of 64 hexadecimal digits. -/
def IsKey (text : String) : Prop := text.length = 64 ∧ ∀ c ∈ text.toList, c ∈ Text.Hex.digits

/-- The key is one, if any has to be read. -/
def KeyFine (w : WireForm) : Prop := ∀ key, w.key? = some key → IsKey key

/-- The payload is strict padded Base64, if any has to be read. -/
def PayloadFine (w : WireForm) : Prop :=
  ∀ payload, w.payload? = some payload → Text.Base64.Strict payload.toList

/-! ## Keys and payloads -/

theorem parseKey_spec (text : String) :
    (∃ key, parseKey text = .ok key ∧ IsKey text ∧ Text.Hex.encode key.bytes = text.toLower) ∨
      parseKey text = .error .invalidKey ∧ ¬ IsKey text := by
  have hkey : IsKey text ↔ ∃ bs, Text.Hex.decodeList text.toList = some bs ∧ bs.length = 32 := by
    rw [Text.Hex.decodeList_eq_some_iff, IsKey, String.length_toList]
  cases hread : (Text.Hex.decode text).bind (Octets.ofBytes? 32) with
  | none =>
      refine Or.inr ⟨by rw [parseKey, hread], ?_⟩
      rw [hkey]
      rintro ⟨bs, hbs, hlength⟩
      simp [Text.Hex.decode, hbs, Octets.ofBytes?, hlength] at hread
  | some key =>
      obtain ⟨bs, hbs, hoctets⟩ := Option.bind_eq_some_iff.mp hread
      have hbytes := Octets.bytes_of_ofBytes? hoctets
      refine Or.inl ⟨key, by rw [parseKey, hread], hkey.mpr ⟨bs, hbs, ?_⟩, ?_⟩
      · rw [← hbytes, key.length_eq]
      · have hlower : text.toLower = text.map Char.toLower := rfl
        rw [hbytes, Text.Hex.encode, Text.Hex.encodeList_of_decodeList hbs, hlower,
          ← String.toList_map, String.ofList_toList]

theorem parsePayload_spec (text : String) :
    (∃ payload, parsePayload text = .ok payload ∧ Text.Base64.Strict text.toList ∧
      Text.Base64.encode .standard payload = text) ∨
      parsePayload text = .error .invalidPayload ∧ ¬ Text.Base64.Strict text.toList := by
  cases hread : Text.Base64.decode .standard text with
  | none =>
      refine Or.inr ⟨by rw [parsePayload, hread], ?_⟩
      rw [← Text.Base64.decode_isSome_iff, hread]
      rintro ⟨_, h⟩
      cases h
  | some payload =>
      exact Or.inl ⟨payload, by rw [parsePayload, hread],
        Text.Base64.decode_isSome_iff.mp ⟨payload, hread⟩, Text.Base64.encode_of_decode hread⟩

/-! ## Signals -/

/-- What the fields can stand for, beside the sender. -/
inductive Stands (w : WireForm) : Except WireError Signal → Prop
  | invalidKey (hkey : ¬ w.KeyFine) : Stands w (.error .invalidKey)
  | invalidPayload (hkey : w.KeyFine) (hpayload : ¬ w.PayloadFine) :
    Stands w (.error .invalidPayload)
  | unknown (hkey : w.KeyFine) (hpayload : w.PayloadFine) (hunknown : ¬ w.Understood) :
    Stands w (.ok .unknown)
  | understood {signal : Signal} (hkey : w.KeyFine) (hpayload : w.PayloadFine)
    (hunderstood : w.Understood) (hform : ofMessage ⟨w.sender, signal⟩ = w.cleared) :
    Stands w (.ok signal)

/-- An introduction stands for its key. -/
theorem stands_identity {key : String} (htag : w.tag = some .identity)
    (hkey : w.ephemeralKey = some key) : Stands w w.signal := by
  have hfine : w.KeyFine ↔ IsKey key := by simp [KeyFine, key?, htag, hkey]
  have hpayload : w.PayloadFine := by simp [PayloadFine, payload?, htag]
  have hsignal : w.signal = (parseKey key).map .identity := by simp [signal, htag, hkey]
  rw [hsignal]
  rcases parseKey_spec key with ⟨k, hread, hisKey, hwritten⟩ | ⟨hread, hnoKey⟩
  · rw [hread]
    refine .understood (hfine.mpr hisKey) hpayload ?_ ?_
    · simp [Understood, Tag.needs, has, htag, hkey]
    · simp [ofMessage, bare, Message.tag, Signal.tag, cleared, own, Tag.fields, htag, hkey,
        hwritten]
  · rw [hread]
    exact .invalidKey (mt hfine.mp hnoKey)

/-- An envelope stands for its key and its payload; the key is read first. -/
theorem stands_encrypted {key payload : String} (htag : w.tag = some .encrypted)
    (hkey : w.ephemeralKey = some key) (hpayload : w.encryptedPayload = some payload) :
    Stands w w.signal := by
  have hfine : w.KeyFine ↔ IsKey key := by simp [KeyFine, key?, htag, hkey, hpayload]
  have hstrict : w.PayloadFine ↔ Text.Base64.Strict payload.toList := by
    simp [PayloadFine, payload?, htag, hkey, hpayload]
  have hsignal : w.signal = (parseKey key).bind fun k =>
      (parsePayload payload).bind fun bytes => .ok (.encrypted k bytes) := by
    simp only [signal, htag, hkey, hpayload, Option.getD_some]
    rfl
  rw [hsignal]
  rcases parseKey_spec key with ⟨k, hread, hisKey, hwritten⟩ | ⟨hread, hnoKey⟩
  · rcases parsePayload_spec payload with ⟨bytes, hbytes, hisStrict, hencoded⟩ | ⟨hbytes, hnoStrict⟩
    · rw [hread, Except.bind, hbytes]
      refine .understood (hfine.mpr hisKey) (hstrict.mpr hisStrict) ?_ ?_
      · simp [Understood, Tag.needs, has, htag, hkey, hpayload]
      · simp [ofMessage, bare, Message.tag, Signal.tag, cleared, own, Tag.fields, htag, hkey,
          hpayload, hwritten, hencoded]
    · rw [hread, Except.bind, hbytes]
      exact .invalidPayload (hfine.mpr hisKey) (mt hstrict.mp hnoStrict)
  · rw [hread]
    exact .invalidKey (mt hfine.mp hnoKey)

theorem stands_signal (w : WireForm) : Stands w w.signal := by
  obtain ⟨tag, sender, sdp, candidate, mid, index, key, payload⟩ := w
  cases tag with
  | none => exact .unknown nofun nofun (by simp [Understood])
  | some tag =>
      cases tag with
      | unknown => exact .unknown nofun nofun (by simp [Understood])
      | join | bye | voiceCall | videoCall =>
          exact .understood nofun nofun (by simp [Understood, Tag.needs]) rfl
      | offer | answer | message =>
          cases sdp with
          | none => exact .unknown nofun nofun (by simp [Understood, Tag.needs, has])
          | some sdp => exact .understood nofun nofun (by simp [Understood, Tag.needs, has]) rfl
      | iceCandidate =>
          cases candidate with
          | none => exact .unknown nofun nofun (by simp [Understood, Tag.needs, has])
          | some c => exact .understood nofun nofun (by simp [Understood, Tag.needs, has]) rfl
      | identity =>
          cases key with
          | none => exact .unknown nofun nofun (by simp [Understood, Tag.needs, has])
          | some key => exact stands_identity rfl rfl
      | encrypted =>
          cases key with
          | none => refine .unknown ?_ ?_ ?_ <;>
              simp [KeyFine, key?, PayloadFine, payload?, Understood, Tag.needs, has]
          | some key =>
              cases payload with
              | none => refine .unknown ?_ ?_ ?_ <;>
                  simp [KeyFine, key?, PayloadFine, payload?, Understood, Tag.needs, has]
              | some payload => exact stands_encrypted rfl rfl rfl

/-! ## Messages -/

/-- What a form is read as, and when. -/
structure Reads (w : WireForm) : Prop where
  missingSender : w.toMessage = .error .missingSender ↔ w.sender = ""
  invalidKey : w.toMessage = .error .invalidKey ↔ w.sender ≠ "" ∧ ¬ w.KeyFine
  invalidPayload : w.toMessage = .error .invalidPayload ↔
    w.sender ≠ "" ∧ w.KeyFine ∧ ¬ w.PayloadFine
  /-- Everything else is a message. -/
  message : (∃ m, w.toMessage = .ok m) ↔ w.sender ≠ "" ∧ w.KeyFine ∧ w.PayloadFine
  /-- What is not understood is an unknown message of the sender. -/
  unknown : ∀ m, w.toMessage = .ok m → ¬ w.Understood → m = ⟨w.sender, .unknown⟩
  /-- What is understood is the message with these fields. -/
  understood : ∀ m, w.toMessage = .ok m → w.Understood → ofMessage m = w.cleared

/-- **The fields of a message that was read are those that it was read from.** A form without a
sender is refused, then one with a key that has to be read and is none, then one with such a
payload. Every other form is a message: an unknown one if its kind is not known or not given, or if
it lacks the payload of its kind, and otherwise the one whose form this is, except for fields
foreign to the kind and the case of the key. -/
theorem forms_read_exactly (w : WireForm) : Reads w := by
  have hstands := stands_signal w
  by_cases hsender : w.sender = ""
  · have hrefused : w.toMessage = .error .missingSender := by simp [toMessage, hsender]
    refine ⟨?_, ?_, ?_, ?_, ?_, ?_⟩ <;> simp [hrefused, hsender]
  · have hmessage : w.toMessage = w.signal.map (⟨w.sender, ·⟩) := by
      simp [toMessage, String.isEmpty_iff, hsender]
    generalize w.signal = outcome at hstands hmessage
    cases hstands with
    | invalidKey hkey =>
        refine ⟨?_, ?_, ?_, ?_, ?_, ?_⟩ <;> simp [hmessage, Except.map, hsender, hkey]
    | invalidPayload hkey hpayload =>
        refine ⟨?_, ?_, ?_, ?_, ?_, ?_⟩ <;> simp [hmessage, Except.map, hsender, hkey, hpayload]
    | unknown hkey hpayload hunknown =>
        refine ⟨?_, ?_, ?_, ?_, ?_, ?_⟩ <;>
          simp [hmessage, Except.map, hsender, hkey, hpayload, hunknown]
    | understood hkey hpayload hunderstood hform =>
        refine ⟨?_, ?_, ?_, ?_, ?_, ?_⟩ <;>
          simp [hmessage, Except.map, hsender, hkey, hpayload, hunderstood, hform]

/-- An introduction with a key in capitals, and with a description that means nothing for it. -/
def shouted : WireForm :=
  { bare (some .identity) "a" with
    sdp := some "v=0", ephemeralKey := some (String.ofList (List.replicate 64 'A')) }

/-- It is read, and written with the key in lower case and without the description. -/
theorem forms_read_exactly_shouted :
    ∃ m, shouted.toMessage = .ok m ∧ ofMessage m =
      { bare (some .identity) "a" with
        ephemeralKey := some (String.ofList (List.replicate 64 'a')) } := by
  have hreads := forms_read_exactly shouted
  have hkey : shouted.KeyFine := by
    rintro key ⟨rfl⟩
    have hdigits : (String.ofList (List.replicate 64 'A')).toList.all
        (fun c => decide (c ∈ Text.Hex.digits)) = true := by decide +kernel
    exact ⟨by decide +kernel, fun c hc => of_decide_eq_true (List.all_eq_true.mp hdigits c hc)⟩
  obtain ⟨m, hm⟩ := hreads.message.mpr ⟨by decide, hkey, nofun⟩
  refine ⟨m, hm, ?_⟩
  rw [hreads.understood m hm ⟨.identity, rfl, by decide, by decide⟩]
  decide +kernel

end WireForm

end PeerCall
