import Mathlib.Data.List.Induction
import Mathlib.Data.List.TakeWhile
import PeerCall.Proofs.Binary.Guard
import PeerCall.Proofs.Lan.Delivery

/-!
# How long a message may be on a link

A frame holds messages up to its limit, and a reader holds every record to the same limit. But a
record is longer than the message in it, by the length in front of the frame and by the tag of the
cipher. So a message that just has a frame may have no room in a record: the other end refuses the
record, delivers nothing of it, and gives the link up.
-/
namespace PeerCall

open Crypto

namespace Lan

/-- Bytes of the tag that a cipher puts behind what it encrypts. -/
def tagSize : Nat := 16

/-- A ciphertext is longer than its frame by the tag, and every frame can be encrypted. -/
structure Tags (s : Suite) : Prop where
  decrypts : s.DecryptsUpTo (Frame.lengthSize + Frame.maxLength)
  lengthens : s.Lengthens tagSize

theorem tags_standard : Tags .standard :=
  ⟨Suite.decryptsUpTo_standard.mono (by decide), Suite.lengthens_standard⟩

end Lan

namespace Message

/-- A record with the message is within the limit. -/
def HasRoom (m : Message) : Prop := Frame.lengthSize + m.size + Lan.tagSize ≤ Frame.maxLength

instance (m : Message) : Decidable m.HasRoom :=
  inferInstanceAs (Decidable (Frame.lengthSize + m.size + Lan.tagSize ≤ Frame.maxLength))

theorem HasRoom.size_le {m : Message} (h : m.HasRoom) : m.size ≤ Frame.maxLength := by
  unfold HasRoom at h
  omega

end Message

namespace Lan

variable {s : Suite} {c : Channel} {l : Link} {w : Writer} {m : Message} {messages : List Message}
  {bytes ciphertext : Bytes} {peer : DeviceId}

/-- The frame of a message is not too long to be encrypted. -/
theorem length_frame_le_of_size (h : m.size ≤ Frame.maxLength) :
    m.frame.length ≤ Frame.lengthSize + Frame.maxLength := by
  rw [Message.length_frame]
  omega

/-- A message that has a frame is encrypted, and others after it. -/
theorem recordsOf_cons (hs : Tags s) (hsize : m.size ≤ Frame.maxLength) (messages : List Message)
    (w : Writer) : ∃ ciphertext, encryptNumbered s w.key w.nonce m.frame = .ok ciphertext ∧
      ciphertext.length = Frame.lengthSize + m.size + tagSize ∧
        recordsOf s w (m :: messages) =
          record ciphertext :: recordsOf s ⟨w.key, nextNonce w.nonce⟩ messages := by
  obtain ⟨ciphertext, hencrypt, -⟩ := decrypts_numbered hs.decrypts w.key w.nonce
    (length_frame_le_of_size hsize)
  refine ⟨ciphertext, hencrypt, ?_, ?_⟩
  · have hlength := Sealing.length_ciphertext hs.lengthens
      ⟨w.key, w.nonce, m.frame, ciphertext, hencrypt⟩
    rwa [Message.length_frame] at hlength
  · rw [recordsOf, recordsOf, List.map_cons, Writer.encryptAll, Writer.encrypt, hencrypt]
    rfl

/-! ## One link among others -/

/-- The record to be written to a device. -/
def ChannelRequest.recordFor? (peer : DeviceId) : ChannelRequest → Option Bytes
  | .write other bytes => if other = peer then some bytes else none
  | _ => none

/-- All records that a channel writes to a device. -/
def writtenTo (peer : DeviceId) (requests : List ChannelRequest) : List Bytes :=
  requests.filterMap (ChannelRequest.recordFor? peer)

theorem writtenTo_append (first second : List ChannelRequest) :
    writtenTo peer (first ++ second) = writtenTo peer first ++ writtenTo peer second :=
  List.filterMap_append ..

theorem Link.peer_write (frame : Bytes) (l : Link) : (l.write s frame).2.peer = l.peer := by
  rw [write]
  split
  · rfl
  · split <;> rfl

/-- What a frame is to the links of one device is what it would be without all others. -/
theorem writtenTo_writes (frame : Bytes) (links : List Link) :
    writtenTo peer ((links.map fun l => (l.peer, l.write s frame)).filterMap
        fun (peer, bytes, _) => bytes.map (.write peer)) =
      (links.filter (·.peer = peer)).filterMap fun l => (l.write s frame).1 := by
  rw [writtenTo, List.filterMap_filterMap, List.filterMap_map, List.filterMap_filter]
  refine congrArg (List.filterMap · links) (funext fun l => ?_)
  dsimp only [Function.comp_apply]
  cases (l.write s frame).1 with
  | none => exact (ite_self none).symm
  | some bytes =>
      rw [Option.map_some, Option.bind_some, ChannelRequest.recordFor?]
      simp only [decide_eq_true_eq]

namespace Channel

/-- A connected channel has this link, and no other one to the same device. -/
structure Has (c : Channel) (l : Link) : Prop where
  running : c.running = true
  only : c.links.filter (·.peer = l.peer) = [l]

theorem Has.isLinked (h : c.Has l) : c.isLinked l.peer = true := by
  have hmem : l ∈ c.links.filter (·.peer = l.peer) := h.only ▸ List.mem_singleton_self l
  exact List.any_eq_true.mpr ⟨l, (List.mem_filter.mp hmem).1, decide_eq_true rfl⟩

theorem Has.find? (h : c.Has l) : c.links.find? (·.peer = l.peer) = some l := by
  rw [← List.head?_filter, h.only]
  rfl

/-- A change to the links that leaves them to their devices. -/
theorem Has.map {f : Link → Link} (h : c.Has l) (hpeer : ∀ l, (f l).peer = l.peer) :
    Has { c with links := c.links.map f } (f l) := by
  refine ⟨h.running, ?_⟩
  have hsame : ((fun m : Link => decide (m.peer = (f l).peer)) ∘ f) =
      fun m : Link => decide (m.peer = l.peer) := by
    funext m
    rw [Function.comp_apply, hpeer, hpeer]
  rw [List.filter_map, hsame, h.only, List.map_singleton]

theorem Has.send {w' : Writer} (h : c.Has l) (hsize : m.size ≤ Frame.maxLength)
    (hwriter : l.writer = some w) (hencrypt : w.encrypt s m.frame = .ok (ciphertext, w')) :
    writtenTo l.peer (c.handle s (.send m)).1 = [record ciphertext] ∧
      (c.handle s (.send m)).2.Has { l with writer := some w' } := by
  have hwrite : l.write s m.frame = (some (record ciphertext), { l with writer := some w' }) := by
    rw [Link.write, hwriter]
    simp only [hencrypt]
  have hhas := h.map (Link.peer_write (s := s) m.frame)
  rw [hwrite] at hhas
  rw [handle_running h.running, react]
  simp only [Message.encode_frame hsize, writtenTo_writes, h.only, List.filterMap_cons, hwrite,
    List.filterMap_nil, List.map_map]
  exact ⟨trivial, hhas⟩

theorem handleAll_cons (c : Channel) (event : ChannelEvent) (events : List ChannelEvent) :
    c.handleAll s (event :: events) =
      ((c.handle s event).1 ++ ((c.handle s event).2.handleAll s events).1,
        ((c.handle s event).2.handleAll s events).2) := by
  induction events using List.reverseRecOn with
  | nil =>
      have hconcat := handleAll_concat (s := s) c [] event
      rw [List.nil_append] at hconcat
      rw [hconcat]
      exact Prod.ext (List.append_nil _).symm rfl
  | append_singleton events last ih =>
      rw [← List.cons_append, handleAll_concat, ih, handleAll_concat, List.append_assoc]

/-- A channel writes the record of every message that it sends. -/
theorem Has.sendAll (hs : Tags s) (hsize : ∀ m ∈ messages, m.size ≤ Frame.maxLength) (h : c.Has l)
    (hwriter : l.writer = some w) :
    writtenTo l.peer (c.handleAll s (messages.map .send)).1 = recordsOf s w messages := by
  induction messages generalizing c l w with
  | nil => rfl
  | cons m messages ih =>
      have hm := hsize m (List.mem_cons_self ..)
      obtain ⟨ciphertext, hencrypt, -, hrecords⟩ := recordsOf_cons hs hm messages w
      have hwrites : w.encrypt s m.frame = .ok (ciphertext, ⟨w.key, nextNonce w.nonce⟩) := by
        rw [Writer.encrypt, hencrypt]
        rfl
      obtain ⟨hfirst, hhas⟩ := h.send hm hwriter hwrites
      have hrest := ih (fun m hm => hsize m (List.mem_cons_of_mem _ hm)) hhas rfl
      rw [List.map_cons, handleAll_cons, writtenTo_append, hfirst, hrecords]
      exact congrArg (record ciphertext :: ·) hrest

/-- A channel has heard bytes on a link: it has delivered what the link's reader reads, and has the
link as long as the reader goes on. -/
structure Heard (s : Suite) (l : Link) (bytes : Bytes) (out : List ChannelRequest × Channel) :
    Prop where
  delivered_eq : delivered out.1 = (l.reader.feed s bytes).messages
  linked : ∀ r, (l.reader.feed s bytes).next = .ok r → out.2.Has { l with reader := r }
  ended : ∀ fault, (l.reader.feed s bytes).next = .error fault → out.2.running = true ∧
    out.2.isLinked l.peer = false

theorem Has.hear (h : c.Has l) (bytes : Bytes) :
    Heard s l bytes (c.handle s (.arrived l.peer bytes)) := by
  have hreads : c.handle s (.arrived l.peer bytes) = c.read s bytes l := by
    have hfind := h.find?
    rw [handle_running h.running, react, hfind]
  rw [hreads, read]
  cases hnext : (l.reader.feed s bytes).next with
  | ok r =>
      refine ⟨delivered_deliver _, ?_, ?_⟩
      · intro r' hr'
        cases hnext.symm.trans hr'
        refine ⟨h.running, ?_⟩
        have hmap := h.map (f := fun m => if m.peer = l.peer then { m with reader := r } else m)
          fun m => by split <;> rfl
        rw [if_pos rfl] at hmap
        exact hmap.only
      · intro fault hfault
        cases hnext.symm.trans hfault
  | error fault =>
      refine ⟨?_, ?_, fun _ _ => ⟨h.running, ?_⟩⟩
      · rw [delivered_append, delivered_deliver, delivered_close, List.append_nil]
      · intro r hr
        cases hnext.symm.trans hr
      · rw [Channel.isLinked, List.any_eq_false]
        intro m hm
        have hother := (List.mem_filter.mp hm).2
        rw [decide_eq_true_eq] at hother ⊢
        exact hother

theorem Heard.step {out : List ChannelRequest × Channel} (h : Heard s l bytes out) (more : Bytes) :
    Heard s l (bytes ++ more) (out.1 ++ (out.2.handle s (.arrived l.peer more)).1,
      (out.2.handle s (.arrived l.peer more)).2) := by
  have hfed : l.reader.feed s (bytes ++ more) = (l.reader.feed s bytes).feed s more :=
    Reader.feed_append ..
  rw [Reading.feed] at hfed
  cases hnext : (l.reader.feed s bytes).next with
  | error fault =>
      -- The link is gone, and what arrives is for nobody.
      obtain ⟨hrunning, hunlinked⟩ := h.ended fault hnext
      have hnone : out.2.links.find? (·.peer = l.peer) = none := by
        rw [List.find?_eq_none]
        exact List.any_eq_false.mp hunlinked
      simp only [hnext] at hfed
      rw [handle_running hrunning, react, hnone, List.append_nil]
      refine ⟨?_, ?_, ?_⟩ <;> rw [hfed]
      · exact h.delivered_eq
      · exact h.linked
      · exact h.ended
  | ok r =>
      have hmore := (h.linked r hnext).hear (s := s) more
      simp only [hnext] at hfed
      refine ⟨?_, ?_, ?_⟩ <;> rw [hfed]
      · rw [delivered_append, h.delivered_eq, hmore.delivered_eq]
      · exact hmore.linked
      · exact hmore.ended

/-- **A channel delivers what a link's reader reads**, in whatever pieces the bytes arrive. -/
theorem Has.hearAll (h : c.Has l) (hfresh : l.reader.waiting = []) (pieces : List Bytes) :
    Heard s l pieces.flatten (c.handleAll s (pieces.map (.arrived l.peer))) := by
  induction pieces using List.reverseRecOn with
  | nil =>
      have hnothing : l.reader.feed s [] = ⟨[], .ok l.reader⟩ := by
        rw [Reader.feed, List.append_nil]
        exact Reader.drain_incomplete (by rw [hfresh]; rfl)
      rw [List.flatten_nil]
      refine ⟨?_, ?_, ?_⟩ <;> rw [hnothing]
      · rfl
      · rintro r ⟨⟩
        exact h
      · rintro fault ⟨⟩
  | append_singleton pieces piece ih =>
      rw [List.flatten_append, List.flatten_singleton, List.map_append, List.map_singleton,
        handleAll_concat]
      exact ih.step piece

end Channel

/-! ## What has no room -/

/-- What is read in a record is no longer than a frame's content may be. -/
theorem size_of_frameMessage? {frame : Bytes} (h : frameMessage? frame = some m) :
    m.size ≤ Frame.maxLength := by
  obtain ⟨⟨m', used⟩, hdecode, rfl⟩ := Option.map_eq_some_iff.mp h
  have hread : Frame.decode Message.format frame = .ok (m', used) := by
    cases hdecoded : Frame.decode Message.format frame with
    | error cause =>
        rw [hdecoded] at hdecode
        cases hdecode
    | ok x =>
        rw [hdecoded] at hdecode
        cases hdecode
        rfl
  have hstarts := Message.framable.decode_eq_ok_iff.mp hread
  have hvalue := hstarts.value.length_le
  rw [List.length_take] at hvalue
  exact Nat.le_trans hvalue (Nat.le_trans (Nat.min_le_left _ _) hstarts.limit)

namespace Reader

theorem size_of_mem_drain {r : Reader} (h : m ∈ (r.drain s).messages) :
    m.size ≤ Frame.maxLength := by
  fun_induction drain s r with
  | case1 r hcontent => cases h
  | case2 r cause hcontent hcause => cases h
  | case3 r ciphertext used hcontent fault hdecrypt => cases h
  | case4 r ciphertext used hcontent message next hdecrypt more ih =>
      rcases List.mem_append.mp h with hfirst | hmore
      · rw [decrypt] at hdecrypt
        split at hdecrypt
        · cases hdecrypt
        · cases hdecrypt
          exact size_of_frameMessage? (Option.mem_toList.mp hfirst)
      · exact ih hmore

/-- A record that is longer than a frame's content may be is refused. -/
theorem drain_long {key : Octets 32} {nonce : UInt64} (hlong : Frame.maxLength < ciphertext.length)
    (hbound : ciphertext.length < Bytes.bound Frame.lengthSize) (rest : Bytes) :
    drain s ⟨key, nonce, record ciphertext ++ rest⟩ = ⟨[], .error .oversized⟩ := by
  refine drain_oversized ?_
  have hannounced : Frame.announced (record ciphertext ++ rest) = ciphertext.length := by
    rw [Frame.announced, record, List.append_assoc, List.take_left' (Bytes.length_ofNatLE ..),
      Bytes.toNatLE_ofNatLE, Nat.mod_eq_of_lt hbound]
  have hlength : Frame.lengthSize ≤ (record ciphertext ++ rest).length := by
    rw [record, List.length_append, List.length_append, Bytes.length_ofNatLE]
    omega
  rw [Frame.content_eq, hannounced, if_neg (Nat.not_lt.mpr hlength), if_pos hlong]

/-- **A reader takes the records in turn, up to the first that has no room for its message.** -/
theorem drain_recordsOf (hs : Tags s) (hsize : ∀ m ∈ messages, m.size ≤ Frame.maxLength)
    (w : Writer) :
    drain s ⟨w.key, w.nonce, (recordsOf s w messages).flatten⟩ =
      ⟨messages.takeWhile (·.HasRoom), if ∀ m ∈ messages, m.HasRoom
        then .ok ⟨w.key, nextNonce^[messages.length] w.nonce, []⟩ else .error .oversized⟩ := by
  induction messages generalizing w with
  | nil => exact drain_incomplete rfl
  | cons m messages ih =>
      have hm := hsize m (List.mem_cons_self ..)
      have hshort := length_frame_le_of_size hm
      obtain ⟨ciphertext, hencrypt, hlength, hrecords⟩ := recordsOf_cons hs hm messages w
      rw [hrecords, List.flatten_cons]
      by_cases hroom : m.HasRoom
      · have hlater := ih (fun m hm => hsize m (List.mem_cons_of_mem _ hm))
          ⟨w.key, nextNonce w.nonce⟩
        rw [drain_front (by rw [hlength]; exact hroom) (decrypt_next hs.decrypts hshort hencrypt)]
        simp only [hlater, Message.frameMessage?_frame hm]
        simp [hroom]
      · rw [drain_long (by rw [hlength]; exact Nat.lt_of_not_le hroom) ?_]
        · simp [hroom]
        · have hbound :
              Frame.lengthSize + Frame.maxLength + tagSize < Bytes.bound Frame.lengthSize := by
            decide
          omega

end Reader

/-- **Of messages in turn those are delivered that stand in front of the first without room**, and
the link is up exactly if there is room for all of them. -/
theorem delivered_while_room (hs : Tags s) (hsize : ∀ m ∈ messages, m.size ≤ Frame.maxLength)
    {sender receiver : Channel} {l' : Link} {pieces : List Bytes} (hsender : sender.Has l)
    (hwriter : l.writer = some w) (hreceiver : receiver.Has l')
    (hreader : l'.reader = ⟨w.key, w.nonce, []⟩)
    (harrived : pieces.flatten =
      (writtenTo l.peer (sender.handleAll s (messages.map .send)).1).flatten) :
    let out := receiver.handleAll s (pieces.map (.arrived l'.peer))
    delivered out.1 = messages.takeWhile (·.HasRoom) ∧
      (out.2.isLinked l'.peer = true ↔ ∀ m ∈ messages, m.HasRoom) := by
  intro out
  have hheard : Channel.Heard s l' pieces.flatten out :=
    hreceiver.hearAll (by rw [hreader]) pieces
  have hread : l'.reader.feed s pieces.flatten =
      Reader.drain s ⟨w.key, w.nonce, (recordsOf s w messages).flatten⟩ := by
    rw [harrived, hsender.sendAll hs hsize hwriter, hreader, Reader.feed, List.nil_append]
  rw [Reader.drain_recordsOf hs hsize w] at hread
  refine ⟨by rw [hheard.delivered_eq, hread], ?_⟩
  by_cases hroom : ∀ m ∈ messages, m.HasRoom
  · rw [if_pos hroom] at hread
    exact iff_of_true (hheard.linked _ (congrArg Reading.next hread)).isLinked hroom
  · rw [if_neg hroom] at hread
    refine iff_of_false ?_ hroom
    rw [(hheard.ended _ (congrArg Reading.next hread)).2]
    exact Bool.false_ne_true

/-- **Messages are delivered and the link stays up exactly if all of them have room in a record.**
Two channels hold the two ends of a link, and the reader of one is where the writer of the other
is. One sends messages, and what it writes arrives at the other one, in whatever pieces. If the
messages are no longer than a frame allows, those in front of the first without room are
delivered, and with it the link is gone. -/
theorem delivers_iff_room (hs : Tags s) {sender receiver : Channel} {l' : Link}
    (hsender : sender.Has l) (hwriter : l.writer = some w) (hreceiver : receiver.Has l')
    (hreader : l'.reader = ⟨w.key, w.nonce, []⟩) (messages : List Message) (pieces : List Bytes)
    (harrived : pieces.flatten =
      (writtenTo l.peer (sender.handleAll s (messages.map .send)).1).flatten) :
    let out := receiver.handleAll s (pieces.map (.arrived l'.peer))
    (delivered out.1 = messages ∧ out.2.isLinked l'.peer = true ↔ ∀ m ∈ messages, m.HasRoom) ∧
      ((∀ m ∈ messages, m.size ≤ Frame.maxLength) →
        delivered out.1 = messages.takeWhile (·.HasRoom) ∧
          (out.2.isLinked l'.peer = true ↔ ∀ m ∈ messages, m.HasRoom)) := by
  intro out
  have hwhile : (∀ m ∈ messages, m.size ≤ Frame.maxLength) →
      delivered out.1 = messages.takeWhile (·.HasRoom) ∧
        (out.2.isLinked l'.peer = true ↔ ∀ m ∈ messages, m.HasRoom) :=
    fun hsize => delivered_while_room hs hsize hsender hwriter hreceiver hreader harrived
  refine ⟨⟨?_, ?_⟩, hwhile⟩
  · rintro ⟨hdelivered, hlinked⟩
    have hheard : Channel.Heard s l' pieces.flatten out :=
      hreceiver.hearAll (by rw [hreader]) pieces
    have hsize : ∀ m ∈ messages, m.size ≤ Frame.maxLength := by
      intro m hm
      rw [← hdelivered, hheard.delivered_eq] at hm
      exact Reader.size_of_mem_drain hm
    exact (hwhile hsize).2.mp hlinked
  · intro hroom
    obtain ⟨hdelivered, hlinked⟩ := hwhile fun m hm => (hroom m hm).size_le
    refine ⟨?_, hlinked.mpr hroom⟩
    rw [hdelivered]
    exact List.takeWhile_eq_self_iff.mpr fun m hm => decide_eq_true (hroom m hm)

/-- What the dialing device writes for messages. -/
def dialerWrites (messages : List Message) : List Bytes :=
  writtenTo dialedDevice
    ((linkedTo dialedDevice true).handleAll .standard (messages.map .send)).1

/-- What becomes of the dialed device when that arrives. -/
def dialedOut (messages : List Message) : List ChannelRequest × Channel :=
  (linkedTo dialingDevice false).handleAll .standard
    ((dialerWrites messages).map (.arrived dialingDevice))

theorem has_linkedTo (peer : DeviceId) (dialer : Bool) :
    (linkedTo peer dialer).Has (.start peer sharedKey dialer) :=
  ⟨rfl, by simp [linkedTo, Link.start]⟩

/-- A short message is delivered, and the link stays up. -/
theorem delivers_iff_room_joining :
    delivered (dialedOut [joining]).1 = [joining] ∧
      (dialedOut [joining]).2.isLinked dialingDevice = true := by
  refine ((delivers_iff_room tags_standard (has_linkedTo dialedDevice true) rfl
    (has_linkedTo dialingDevice false) rfl [joining] (dialerWrites [joining]) rfl).1).mpr ?_
  decide

/-! ## The longest message of a frame -/

/-- A chat that just has a frame. -/
def longest : Message := ⟨"", .chat (String.ofList (List.replicate (Frame.maxLength - 20) 'a'))⟩

theorem size_longest : longest.size = Frame.maxLength :=
  (Frame.length_encode_longChat _).trans (by decide)

/-- The message has a frame, and its record is written, but the record is refused: nothing is
delivered, and the link is gone. -/
theorem refuses_longest : (∃ frame, Frame.encode Message.format longest = .ok frame) ∧
    (∃ ciphertext, dialerWrites [longest] = [record ciphertext]) ∧
      delivered (dialedOut [longest]).1 = [] ∧
        (dialedOut [longest]).2.isLinked dialingDevice = false := by
  have hsize : ∀ m ∈ [longest], m.size ≤ Frame.maxLength := by
    intro m hm
    rw [List.mem_singleton.mp hm, size_longest]
  have hroom : ¬longest.HasRoom := by
    rw [Message.HasRoom, size_longest]
    decide
  have harrived : (dialerWrites [longest]).flatten = (writtenTo dialedDevice
      ((linkedTo dialedDevice true).handleAll .standard ([longest].map .send)).1).flatten := rfl
  obtain ⟨hdelivered, hlinked⟩ := delivered_while_room tags_standard hsize
    (has_linkedTo dialedDevice true) rfl (has_linkedTo dialingDevice false) rfl harrived
  refine ⟨⟨_, Message.encode_frame (Nat.le_of_eq size_longest)⟩, ?_, ?_, ?_⟩
  · obtain ⟨ciphertext, -, -, hrecords⟩ :=
      recordsOf_cons tags_standard (Nat.le_of_eq size_longest) [] ⟨sharedKey, 0⟩
    refine ⟨ciphertext, ?_⟩
    rw [dialerWrites]
    exact ((has_linkedTo dialedDevice true).sendAll tags_standard hsize rfl).trans hrecords
  · rw [List.takeWhile_cons_of_neg (by rwa [decide_eq_true_eq])] at hdelivered
    exact hdelivered
  · refine Bool.eq_false_iff.mpr fun hlink => hroom ?_
    exact hlinked.mp hlink longest (List.mem_singleton_self _)

end Lan

end PeerCall
