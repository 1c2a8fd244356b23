import Mathlib.Algebra.Group.Nat.Defs
import Mathlib.Data.List.Induction
import PeerCall.Proofs.Lan.Places

/-!
# A link delivers a prefix

Two channels hold the two ends of one link. Whatever their applications send, however the bytes are
cut into pieces, and in whatever order it all happens, each channel delivers what the other one sent
as long as records arrive in their places. Records that are left out, repeated, moved or sent back
to where they come from end the link where the first of them arrives.
-/
namespace PeerCall

/-! ## Frames of messages -/

namespace Message

variable {m : Message}

/-- The frame of a message that is small enough for one. -/
def frame (m : Message) : Bytes := Bytes.ofNatLE Frame.lengthSize m.size ++ format.encode m

theorem length_frame (m : Message) : m.frame.length = Frame.lengthSize + m.size := by
  rw [frame, List.length_append, Bytes.length_ofNatLE, size]

theorem encode_frame (h : m.size ≤ Frame.maxLength) : Frame.encode format m = .ok m.frame :=
  Frame.wrap_of_le h

theorem frameMessage?_frame (h : m.size ≤ Frame.maxLength) :
    Lan.frameMessage? m.frame = some m := by
  have hread := framable.decode_eq_ok_iff.mpr (Frame.startsWith_own h [])
  rw [List.append_nil] at hread
  change (Frame.decode format m.frame).toOption.map _ = _
  rw [frame, size, hread]
  rfl

end Message

namespace Lan

open Crypto

/-! ## One end of a link -/

/-- What happens at one end of a link. -/
inductive Traffic
  /-- The application sends. -/
  | send (message : Message)
  | arrive (bytes : Bytes)

namespace Traffic

/-- What it is to the channel. -/
def event (peer : DeviceId) : Traffic → ChannelEvent
  | .send m => .send m
  | .arrive bytes => .arrived peer bytes

/-- The message that is sent. -/
def message? : Traffic → Option Message
  | .send m => some m
  | .arrive _ => none

/-- The bytes that arrive. -/
def bytes : Traffic → Bytes
  | .send _ => []
  | .arrive bytes => bytes

/-- All messages that are sent. -/
def sent (ts : List Traffic) : List Message := ts.filterMap message?

/-- All bytes that arrive. -/
def arrived (ts : List Traffic) : Bytes := ts.flatMap bytes

end Traffic

namespace ChannelRequest

/-- The record to be written. -/
def record? : ChannelRequest → Option Bytes
  | .write _ bytes => some bytes
  | _ => none

/-- The message to be delivered. -/
def message? : ChannelRequest → Option Message
  | .deliver m => some m
  | _ => none

end ChannelRequest

/-- All records that a channel writes. -/
def written (requests : List ChannelRequest) : List Bytes :=
  requests.filterMap ChannelRequest.record?

/-- All messages that a channel delivers. -/
def delivered (requests : List ChannelRequest) : List Message :=
  requests.filterMap ChannelRequest.message?

@[simp] theorem written_append (first second : List ChannelRequest) :
    written (first ++ second) = written first ++ written second := List.filterMap_append ..

@[simp] theorem delivered_append (first second : List ChannelRequest) :
    delivered (first ++ second) = delivered first ++ delivered second := List.filterMap_append ..

@[simp] theorem written_deliver (messages : List Message) :
    written (messages.map .deliver) = [] := by
  induction messages with
  | nil => rfl
  | cons m messages ih => exact ih

@[simp] theorem delivered_deliver (messages : List Message) :
    delivered (messages.map .deliver) = messages := by
  induction messages with
  | nil => rfl
  | cons m messages ih => exact congrArg (m :: ·) ih

@[simp] theorem written_close (peer : DeviceId) : written [.close peer] = [] := rfl

@[simp] theorem delivered_close (peer : DeviceId) : delivered [.close peer] = [] := rfl

variable {s : Suite} {overhead : Nat} {c : Channel} {l : Link} {w : Writer} {r : Reader}
  {peer : DeviceId} {ts : List Traffic}

namespace Channel

/-- React to events in turn: all requests, and the channel after them. -/
def handleAll (s : Suite) (c : Channel) (events : List ChannelEvent) :
    List ChannelRequest × Channel :=
  events.foldl (fun done event =>
    let (requests, c) := done.2.handle s event
    (done.1 ++ requests, c)) ([], c)

theorem handleAll_concat (c : Channel) (events : List ChannelEvent) (event : ChannelEvent) :
    c.handleAll s (events ++ [event]) =
      ((c.handleAll s events).1 ++ ((c.handleAll s events).2.handle s event).1,
        ((c.handleAll s events).2.handle s event).2) := by
  rw [handleAll, List.foldl_append]
  rfl

/-- A connected channel has these links and no others. -/
structure Holds (c : Channel) (links : List Link) : Prop where
  running : c.running = true
  links_eq : c.links = links

theorem Holds.isLinked (h : c.Holds [l]) : c.isLinked l.peer = true := by
  rw [Channel.isLinked, h.links_eq, List.any_cons, decide_eq_true rfl, Bool.true_or]

theorem Holds.not_isLinked (h : c.Holds []) (peer : DeviceId) : c.isLinked peer = false := by
  rw [Channel.isLinked, h.links_eq, List.any_nil]

theorem handle_running (h : c.running = true) (event : ChannelEvent) :
    c.handle s event = c.react s event := by
  simp only [handle, h, if_true]

theorem handle_send {m : Message} {ciphertext : Bytes} {w' : Writer} (h : c.Holds [l])
    (hsize : m.size ≤ Frame.maxLength) (hwriter : l.writer = some w)
    (hencrypt : w.encrypt s m.frame = .ok (ciphertext, w')) :
    (c.handle s (.send m)).1 = [.write l.peer (record ciphertext)] ∧
      (c.handle s (.send m)).2.Holds [{ l with writer := some w' }] := by
  have hwrite : l.write s m.frame = (some (record ciphertext), { l with writer := some w' }) := by
    rw [Link.write, hwriter]
    simp only [hencrypt]
  rw [handle_running h.running, react]
  simp only [Message.encode_frame hsize, h.links_eq, List.map_cons, List.map_nil, hwrite]
  exact ⟨rfl, h.running, rfl⟩

/-- Bytes arrive on the one link of a channel. -/
theorem handle_arrived (h : c.Holds [l]) (bytes : Bytes) :
    c.handle s (.arrived l.peer bytes) = c.read s bytes l := by
  rw [handle_running h.running, react, h.links_eq]
  simp only [List.find?_cons_of_pos, decide_true]

theorem read_ok {bytes : Bytes} {messages : List Message} (h : c.Holds [l])
    (hread : l.reader.feed s bytes = ⟨messages, .ok r⟩) :
    (c.read s bytes l).1 = messages.map .deliver ∧
      (c.read s bytes l).2.Holds [{ l with reader := r }] := by
  rw [read]
  simp only [hread, h.links_eq, List.map_cons, List.map_nil, if_true]
  exact ⟨trivial, h.running, rfl⟩

theorem read_error {bytes : Bytes} {messages : List Message} {fault : RecordFault} (h : c.Holds [l])
    (hread : l.reader.feed s bytes = ⟨messages, .error fault⟩) :
    (c.read s bytes l).1 = messages.map .deliver ++ [.close l.peer] ∧
      (c.read s bytes l).2.Holds [] := by
  rw [read]
  simp only [hread]
  refine ⟨trivial, h.running, ?_⟩
  simp only [dropLink, refreshState, h.links_eq]
  simp

/-- Whoever reads does not write. -/
theorem written_arrived (h : c.running = true) (peer : DeviceId) (bytes : Bytes) :
    written (c.handle s (.arrived peer bytes)).1 = [] := by
  rw [handle_running h, react]
  split
  · rename_i l hl
    rw [read]
    cases (l.reader.feed s bytes).next <;> simp
  · rfl

/-- Without a link nothing is written or delivered. -/
theorem handle_unlinked (h : c.Holds []) (t : Traffic) :
    (c.handle s (t.event peer)).1 = [] ∧ (c.handle s (t.event peer)).2.Holds [] := by
  rw [handle_running h.running]
  cases t with
  | send m =>
      simp only [Traffic.event, react]
      split
      · exact ⟨rfl, h⟩
      · simp only [h.links_eq, List.map_nil, List.filterMap_nil]
        exact ⟨trivial, h.running, rfl⟩
  | arrive bytes =>
      simp only [Traffic.event, react, h.links_eq, List.find?_nil]
      exact ⟨trivial, h⟩

end Channel

/-! ## How far an end has come -/

/-- The records of messages in turn. -/
def recordsOf (s : Suite) (w : Writer) (messages : List Message) : List Bytes :=
  (w.encryptAll s (messages.map Message.frame)).map record

/-- What has become of one end of a fresh link: its channel delivers what its reader reads, and
writes a record for every message, until the reader gives the link up. -/
inductive Progress (s : Suite) (l : Link) (w : Writer) (ts : List Traffic) :
    List ChannelRequest × Channel → Prop
  | linked {requests : List ChannelRequest} {c : Channel} {r : Reader}
      (reads : l.reader.feed s (Traffic.arrived ts) = ⟨delivered requests, .ok r⟩)
      (writes : written requests = recordsOf s w (Traffic.sent ts))
      (holds : c.Holds [⟨l.peer, some ⟨w.key, nextNonce^[(Traffic.sent ts).length] w.nonce⟩, r⟩]) :
      Progress s l w ts (requests, c)
  | ended {requests : List ChannelRequest} {c : Channel} (fault : RecordFault)
      (kept : List Message)
      (reads : l.reader.feed s (Traffic.arrived ts) = ⟨delivered requests, .error fault⟩)
      (front : kept <+: Traffic.sent ts) (writes : written requests = recordsOf s w kept)
      (holds : c.Holds []) : Progress s l w ts (requests, c)

namespace Traffic

theorem sent_concat (ts : List Traffic) (t : Traffic) :
    sent (ts ++ [t]) = sent ts ++ t.message?.toList := by
  rw [sent, List.filterMap_append]
  cases t <;> rfl

theorem arrived_concat (ts : List Traffic) (t : Traffic) :
    arrived (ts ++ [t]) = arrived ts ++ t.bytes := by
  rw [arrived, List.flatMap_append, List.flatMap_singleton, ← arrived]

end Traffic

/-- The frames of messages with records within the limit are short enough to be encrypted. -/
theorem length_frame_le {messages : List Message}
    (hfits : ∀ m ∈ messages, Frame.lengthSize + m.size + overhead ≤ Frame.maxLength) :
    ∀ frame ∈ messages.map Message.frame, frame.length ≤ Frame.maxLength - overhead := by
  intro frame hframe
  obtain ⟨m, hm, rfl⟩ := List.mem_map.mp hframe
  have hle := hfits m hm
  rw [Message.length_frame]
  omega

/-- A message is encrypted in the place after those before it. -/
theorem recordsOf_concat (hdecrypts : s.DecryptsUpTo (Frame.maxLength - overhead))
    {messages : List Message} {m : Message}
    (hfits : ∀ m ∈ messages, Frame.lengthSize + m.size + overhead ≤ Frame.maxLength)
    (hm : Frame.lengthSize + m.size + overhead ≤ Frame.maxLength) (w : Writer) :
    ∃ ciphertext, Writer.encrypt s m.frame ⟨w.key, nextNonce^[messages.length] w.nonce⟩ =
        .ok (ciphertext, ⟨w.key, nextNonce^[messages.length + 1] w.nonce⟩) ∧
      recordsOf s w (messages ++ [m]) = recordsOf s w messages ++ [record ciphertext] := by
  have hlast : m.frame.length ≤ Frame.maxLength - overhead := by
    rw [Message.length_frame]
    omega
  obtain ⟨ciphertext, hencrypt, -⟩ := decrypts_numbered hdecrypts w.key
    (nextNonce^[messages.length] w.nonce) hlast
  refine ⟨ciphertext, ?_, ?_⟩
  · rw [Writer.encrypt, hencrypt, Function.iterate_succ_apply']
    rfl
  · rw [recordsOf, List.map_append, Writer.encryptAll_append hdecrypts (length_frame_le hfits),
      List.map_append,
      List.length_map, recordsOf]
    simp only [List.map_cons, List.map_nil, Writer.encryptAll, Writer.encrypt, hencrypt, Except.map]

/-- One more thing happens at an end of a link. -/
theorem Progress.step (hdecrypts : s.DecryptsUpTo (Frame.maxLength - overhead))
    {out : List ChannelRequest × Channel} {t : Traffic} (h : Progress s l w ts out)
    (hfits : ∀ m ∈ Traffic.sent (ts ++ [t]),
      Frame.lengthSize + m.size + overhead ≤ Frame.maxLength) :
    Progress s l w (ts ++ [t]) (out.1 ++ (out.2.handle s (t.event l.peer)).1,
      (out.2.handle s (t.event l.peer)).2) := by
  rw [Traffic.sent_concat] at hfits
  cases h with
  | @ended requests c fault kept reads front writes holds =>
      -- The link is gone, and with it whoever could write or deliver anything.
      obtain ⟨hnone, hholds⟩ : (c.handle s (t.event l.peer)).1 = [] ∧
          (c.handle s (t.event l.peer)).2.Holds [] := Channel.handle_unlinked holds t
      refine .ended fault kept ?_ ?_ ?_ hholds
      · rw [Traffic.arrived_concat, Reader.feed_append, reads, hnone, List.append_nil]
        rfl
      · rw [Traffic.sent_concat]
        exact front.trans (List.prefix_append ..)
      · rw [hnone, List.append_nil]
        exact writes
  | @linked requests c r reads writes holds =>
      cases t with
      | send m =>
          obtain ⟨ciphertext, hencrypt, hrecords⟩ := recordsOf_concat hdecrypts
            (fun x hx => hfits x (List.mem_append_left _ hx))
            (hfits m (List.mem_append_right _ (List.mem_singleton_self m))) w
          have hsize : m.size ≤ Frame.maxLength := by
            have := hfits m (List.mem_append_right _ (List.mem_singleton_self m))
            omega
          obtain ⟨hwrite, hholds⟩ := Channel.handle_send holds hsize rfl hencrypt
          refine .linked (r := r) ?_ ?_ ?_
          · rw [Traffic.arrived_concat, Traffic.bytes, List.append_nil, Traffic.event, hwrite,
              delivered_append, reads]
            exact congrArg (Reading.mk · _) (List.append_nil _).symm
          · rw [Traffic.sent_concat, Traffic.event, hwrite, written_append, writes]
            exact hrecords.symm
          · rw [Traffic.sent_concat, List.length_append]
            exact hholds
      | arrive bytes =>
          have hreads : l.reader.feed s (Traffic.arrived (ts ++ [.arrive bytes])) =
              ⟨delivered requests ++ (r.feed s bytes).messages, (r.feed s bytes).next⟩ := by
            rw [Traffic.arrived_concat, Reader.feed_append, reads]
            rfl
          have hsent : Traffic.sent (ts ++ [.arrive bytes]) = Traffic.sent ts := by
            rw [Traffic.sent_concat, Traffic.message?, Option.toList_none, List.append_nil]
          rw [Traffic.event, Channel.handle_arrived holds bytes]
          cases hnext : (r.feed s bytes).next with
          | ok r' =>
              obtain ⟨hdelivers, hholds⟩ := Channel.read_ok (r := r') holds (by rw [← hnext])
              refine .linked (r := r') ?_ ?_ ?_
              · rw [hreads, hdelivers, delivered_append, delivered_deliver, hnext]
              · rw [hsent, hdelivers, written_append, written_deliver, List.append_nil]
                exact writes
              · rw [hsent]
                exact hholds
          | error fault =>
              obtain ⟨hdelivers, hholds⟩ := Channel.read_error holds (by rw [← hnext])
              refine .ended fault (Traffic.sent ts) ?_ ?_ ?_ hholds
              · rw [hreads, hdelivers, delivered_append, delivered_append, delivered_deliver,
                  delivered_close, List.append_nil, hnext]
              · exact hsent ▸ List.prefix_rfl
              · rw [hdelivers, written_append, written_append, written_deliver, written_close,
                  List.append_nil, List.append_nil]
                exact writes

/-- **A channel delivers what its reader reads and writes what its application sends**, in whatever
order bytes arrive and messages are sent. -/
theorem progress (hdecrypts : s.DecryptsUpTo (Frame.maxLength - overhead))
    (hfits : ∀ m ∈ Traffic.sent ts, Frame.lengthSize + m.size + overhead ≤ Frame.maxLength)
    (hlink : c.Holds [l]) (hwriter : l.writer = some w) (hfresh : l.reader.waiting = []) :
    Progress s l w ts (c.handleAll s (ts.map (Traffic.event l.peer))) := by
  induction ts using List.reverseRecOn with
  | nil =>
      have hread : l.reader.feed s [] = ⟨[], .ok l.reader⟩ := by
        rw [Reader.feed, List.append_nil]
        exact Reader.drain_incomplete (by rw [hfresh]; rfl)
      refine .linked hread rfl ?_
      obtain ⟨peer, writer, reader⟩ := l
      cases hwriter
      exact hlink
  | append_singleton ts t ih =>
      have hbefore : ∀ m ∈ Traffic.sent ts,
          Frame.lengthSize + m.size + overhead ≤ Frame.maxLength := by
        intro m hm
        exact hfits m (Traffic.sent_concat ts t ▸ List.mem_append_left _ hm)
      rw [List.map_append, List.map_singleton, Channel.handleAll_concat]
      exact (ih hbefore).step hdecrypts hfits

/-! ## What a reader makes of the records of a link -/

theorem drop_lengthSize_record (ciphertext : Bytes) :
    (record ciphertext).drop Frame.lengthSize = ciphertext :=
  List.drop_left' (Bytes.length_ofNatLE ..)

theorem record_injective : Function.Injective record := by
  intro c d h
  rw [← drop_lengthSize_record c, h, drop_lengthSize_record]

/-- Frames of messages hold the messages. -/
theorem filterMap_frameMessage? {messages : List Message}
    (hfits : ∀ m ∈ messages, Frame.lengthSize + m.size + overhead ≤ Frame.maxLength) :
    (messages.map Message.frame).filterMap frameMessage? = messages := by
  induction messages with
  | nil => rfl
  | cons m messages ih =>
      have hm := hfits m (List.mem_cons_self ..)
      rw [List.map_cons, List.filterMap_cons, Message.frameMessage?_frame (by omega),
        ih fun x hx => hfits x (List.mem_cons_of_mem _ hx)]

/-- Of records that are drawn from those of a link, a reader reads those that come in their places,
and refuses the first that does not. -/
theorem feed_drawn (hdecrypts : s.DecryptsUpTo (Frame.maxLength - overhead))
    (others : List (Sealing s)) {messages : List Message} {records : List Bytes}
    (hfits : ∀ m ∈ messages, Frame.lengthSize + m.size + overhead ≤ Frame.maxLength)
    (hroom : w.nonce.toNat + 2 * (messages.length + 1) ≤ Bytes.bound 8 + 1)
    (hothers : ∀ x ∈ others, x.key = w.key ∧ x.nonce ∉ noncesFrom w.nonce (messages.length + 1))
    (hsize : ∀ x ∈ w.sealings s (messages.map Message.frame) ++ others,
      x.ciphertext.length ≤ Frame.maxLength)
    (hrefused : RefusedElsewhere s (w.sealings s (messages.map Message.frame) ++ others)
      (noncesFrom w.nonce (messages.length + 1)))
    (hdrawn : ∀ x ∈ records, ∃ y ∈ w.sealings s (messages.map Message.frame) ++ others,
      record y.ciphertext = x) :
    Reader.feed s records.flatten ⟨w.key, w.nonce, []⟩ =
      ⟨messages.take (inPlace records (recordsOf s w messages)),
        if inPlace records (recordsOf s w messages) = records.length
        then .ok ⟨w.key, nextNonce^[records.length] w.nonce, []⟩ else .error .rejected⟩ := by
  have hshort := length_frame_le hfits
  let ciphertexts := records.map (·.drop Frame.lengthSize)
  have hciphertexts : ∀ c ∈ ciphertexts, ∃ y ∈ w.sealings s (messages.map Message.frame) ++ others,
      y.ciphertext = c := by
    intro c hc
    obtain ⟨x, hx, rfl⟩ := List.mem_map.mp hc
    obtain ⟨y, hy, rfl⟩ := hdrawn x hx
    exact ⟨y, hy, (drop_lengthSize_record _).symm⟩
  -- A record tells its ciphertext, so records are in their places exactly if ciphertexts are.
  have hrecords : ciphertexts.map record = records := by
    rw [List.map_map]
    refine (List.map_congr_left ?_).trans (List.map_id records)
    intro x hx
    obtain ⟨y, -, rfl⟩ := hdrawn x hx
    exact congrArg record (drop_lengthSize_record _)
  have hlimit : ∀ c ∈ ciphertexts, c.length ≤ Frame.maxLength := by
    intro c hc
    obtain ⟨y, hy, rfl⟩ := hciphertexts c hc
    exact hsize y hy
  have hplaced : Placed s w (messages.map Message.frame) ciphertexts := by
    rw [← List.length_map Message.frame] at hroom hothers hrefused
    refine placed_of_refused ?_ hroom hothers hrefused hciphertexts
    rw [Writer.length_sealings hdecrypts hshort]
  have hread := Reader.decryptAll_placed hdecrypts hshort hplaced
  rw [← hrecords, recordsOf, inPlace_map record_injective, List.length_map, ← List.flatMap,
    Reader.feed, List.nil_append, Reader.drain_records hlimit, hread, ← List.map_take,
    filterMap_frameMessage? fun m hm => hfits m (List.mem_of_mem_take hm)]

/-! ## Both ends -/

/-- All records of a link, for messages of the end that dialed and of the other one. -/
def linkSealings (s : Suite) (key : Octets 32) (dialed accepted : List Message) :
    List (Sealing s) :=
  Writer.sealings s (dialed.map Message.frame) ⟨key, 0⟩ ++
    Writer.sealings s (accepted.map Message.frame) ⟨key, 1⟩

/-- All nonces that the readers of a link with so many messages can be at. -/
def linkNonces (dialed accepted : Nat) : List UInt64 :=
  noncesFrom 0 (dialed + 1) ++ noncesFrom 1 (accepted + 1)

/-- Of the records that arrive at an end it delivers those in their places, as far as the first that
is not, and the link is up exactly if all of them are. -/
structure DeliversInPlace (out : List ChannelRequest × Channel) (peer : DeviceId)
    (records others : List Bytes) (messages : List Message) : Prop where
  delivered_eq : delivered out.1 = messages.take (inPlace records others)
  linked_iff : out.2.isLinked peer = true ↔ inPlace records others = records.length

theorem length_recordsOf (hdecrypts : s.DecryptsUpTo (Frame.maxLength - overhead))
    {messages : List Message}
    (hfits : ∀ m ∈ messages, Frame.lengthSize + m.size + overhead ≤ Frame.maxLength) (w : Writer) :
    (recordsOf s w messages).length = messages.length := by
  rw [recordsOf, Writer.encryptAll_eq, List.length_map, List.length_map,
    Writer.length_sealings hdecrypts (length_frame_le hfits), List.length_map]

theorem exists_of_mem_recordsOf {messages : List Message} {x : Bytes}
    (h : x ∈ recordsOf s w messages) :
    ∃ y ∈ w.sealings s (messages.map Message.frame), record y.ciphertext = x := by
  rw [recordsOf, Writer.encryptAll_eq, List.map_map] at h
  exact List.mem_map.mp h

/-- What an end has written are the records of the first messages that its application sent, and of
all of them if the link is up. -/
theorem Progress.exists_kept {out : List ChannelRequest × Channel} (h : Progress s l w ts out) :
    ∃ kept, kept <+: Traffic.sent ts ∧ written out.1 = recordsOf s w kept ∧
      (out.2.isLinked l.peer = true → kept = Traffic.sent ts) := by
  cases h with
  | linked reads writes holds => exact ⟨_, List.prefix_rfl, writes, fun _ => rfl⟩
  | ended fault kept reads front writes holds =>
      refine ⟨_, front, writes, fun hlinked => ?_⟩
      rw [holds.not_isLinked] at hlinked
      cases hlinked

/-- An end delivers what its reader makes of the records that arrive. -/
theorem Progress.deliversInPlace {out : List ChannelRequest × Channel} {v : Writer}
    {kept messages : List Message} {records : List Bytes} (next : Reader)
    (h : Progress s l w ts out) (hkept : kept <+: messages)
    (hcount : inPlace records (recordsOf s v kept) ≤ kept.length)
    (hread : l.reader.feed s (Traffic.arrived ts) =
      ⟨kept.take (inPlace records (recordsOf s v kept)),
        if inPlace records (recordsOf s v kept) = records.length
        then .ok next else .error .rejected⟩) :
    DeliversInPlace out l.peer records (recordsOf s v kept) messages := by
  have htake : kept.take (inPlace records (recordsOf s v kept)) =
      messages.take (inPlace records (recordsOf s v kept)) := by
    obtain ⟨rest, rfl⟩ := hkept
    rw [List.take_append_of_le_length hcount]
  cases h with
  | linked reads writes holds =>
      rw [reads] at hread
      obtain ⟨hdelivered, hnext⟩ := Reading.mk.inj hread
      refine ⟨hdelivered.trans htake, iff_of_true holds.isLinked ?_⟩
      by_contra hmisplaced
      rw [if_neg hmisplaced] at hnext
      cases hnext
  | ended fault kept reads front writes holds =>
      rw [reads] at hread
      obtain ⟨hdelivered, hnext⟩ := Reading.mk.inj hread
      refine ⟨hdelivered.trans htake, iff_of_false ?_ ?_⟩
      · rw [holds.not_isLinked]
        exact Bool.false_ne_true
      · intro hplaced
        rw [if_pos hplaced] at hnext
        cases hnext

/-- An end reads, of the records of its link, those that the other end wrote, in their places. -/
theorem Progress.reads_peer (hdecrypts : s.DecryptsUpTo (Frame.maxLength - overhead))
    (hlengthens : s.Lengthens overhead) {m : Link} {v : Writer} {us : List Traffic}
    {out out' : List ChannelRequest × Channel} {records : List Bytes}
    (hwriting : Progress s m v us out') (hreading : Progress s l w ts out)
    (hreader : l.reader = ⟨v.key, v.nonce, []⟩) (hkey : w.key = v.key)
    (hfits : ∀ m ∈ Traffic.sent us, Frame.lengthSize + m.size + overhead ≤ Frame.maxLength)
    (hfits' : ∀ m ∈ Traffic.sent ts, Frame.lengthSize + m.size + overhead ≤ Frame.maxLength)
    (hroom : v.nonce.toNat + 2 * ((Traffic.sent us).length + 1) ≤ Bytes.bound 8 + 1)
    (hdisjoint : List.Disjoint (noncesFrom v.nonce ((Traffic.sent us).length + 1))
      (noncesFrom w.nonce (Traffic.sent ts).length))
    (hrefused : RefusedElsewhere s
      (v.sealings s ((Traffic.sent us).map Message.frame) ++
        w.sealings s ((Traffic.sent ts).map Message.frame))
      (noncesFrom v.nonce ((Traffic.sent us).length + 1)))
    (hdrawn : ∀ x ∈ records, x ∈ written out'.1 ∨ x ∈ written out.1)
    (harrived : Traffic.arrived ts = records.flatten) :
    DeliversInPlace out l.peer records (written out'.1) (Traffic.sent us) := by
  obtain ⟨kept, hkept, hwritten, -⟩ := hwriting.exists_kept
  obtain ⟨kept', hkept', hwritten', -⟩ := hreading.exists_kept
  have hfewer := hkept.length_le
  have hfewer' := hkept'.length_le
  have hsealings := (v.sealings_prefix (s := s) (hkept.map Message.frame)).subset
  have hsealings' := (w.sealings_prefix (s := s) (hkept'.map Message.frame)).subset
  rw [hwritten] at hdrawn ⊢
  rw [hwritten'] at hdrawn
  refine hreading.deliversInPlace ⟨v.key, nextNonce^[records.length] v.nonce, []⟩ hkept ?_ ?_
  · rw [← length_recordsOf hdecrypts (fun x hx => hfits x (hkept.subset hx)) v]
    exact (inPlace_le _ _).2
  · rw [harrived, hreader]
    refine feed_drawn hdecrypts (w.sealings s (kept'.map Message.frame))
      (fun x hx => hfits x (hkept.subset hx)) (by omega) ?_ ?_ ?_ ?_
    · intro x hx
      obtain ⟨hown, hnonce⟩ := Writer.use_of_mem_sealings (hsealings' hx)
      rw [List.length_map] at hnonce
      refine ⟨hown.trans hkey, fun hthere => hdisjoint (noncesFrom_subset (by omega) hthere) hnonce⟩
    · intro x hx
      rw [x.length_ciphertext hlengthens]
      have hframe : ∃ m : Message, Frame.lengthSize + m.size + overhead ≤ Frame.maxLength ∧
          m.frame = x.frame := by
        rcases List.mem_append.mp hx with hx | hx
        · obtain ⟨m, hm, heq⟩ := List.mem_map.mp (Writer.frame_mem_of_mem_sealings hx)
          exact ⟨m, hfits m (hkept.subset hm), heq⟩
        · obtain ⟨m, hm, heq⟩ := List.mem_map.mp (Writer.frame_mem_of_mem_sealings hx)
          exact ⟨m, hfits' m (hkept'.subset hm), heq⟩
      obtain ⟨m, hm, heq⟩ := hframe
      rw [← heq, Message.length_frame]
      exact hm
    · exact hrefused.mono
        (List.append_subset.mpr ⟨fun x hx => List.mem_append_left _ (hsealings hx),
          fun x hx => List.mem_append_right _ (hsealings' hx)⟩) (noncesFrom_subset (by omega))
    · intro x hx
      rcases hdrawn x hx with hpeer | hown
      · obtain ⟨y, hy, heq⟩ := exists_of_mem_recordsOf hpeer
        exact ⟨y, List.mem_append_left _ hy, heq⟩
      · obtain ⟨y, hy, heq⟩ := exists_of_mem_recordsOf hown
        exact ⟨y, List.mem_append_right _ hy, heq⟩

theorem disjoint_noncesFrom {dialed accepted : Nat} (hdialed : dialed ≤ 2 ^ 63)
    (haccepted : accepted ≤ 2 ^ 63) :
    List.Disjoint (noncesFrom 0 dialed) (noncesFrom 1 accepted) := by
  have hzero : (0 : UInt64).toNat = 0 := rfl
  have hone : (1 : UInt64).toNat = 1 := rfl
  have hbound : Bytes.bound 8 = 2 * 2 ^ 63 := by decide
  intro nonce heven hodd
  obtain ⟨i, -, hi⟩ := (mem_noncesFrom (by omega)).mp heven
  obtain ⟨j, -, hj⟩ := (mem_noncesFrom (by omega)).mp hodd
  omega

/-- **A link delivers a prefix.** Two channels hold the two ends of a link, and whatever happens at
either end are messages sent and bytes that arrive. If the records that each end writes arrive at
the other one as they are, each end delivers exactly what the other one's application sent. If
records of both ends are left out, repeated, moved or sent back, each end delivers the messages of
those in their places, and its link is no more from the first one on that is not. -/
theorem link_delivers_prefix (hdecrypts : s.DecryptsUpTo (Frame.maxLength - overhead))
    (hlengthens : s.Lengthens overhead) {key : Octets 32} {dialer acceptor : Channel}
    {dialerId acceptorId : DeviceId} (hdialer : dialer.Holds [.start acceptorId key true])
    (hacceptor : acceptor.Holds [.start dialerId key false]) (ds us : List Traffic)
    (hfits : ∀ m ∈ Traffic.sent ds ++ Traffic.sent us,
      Frame.lengthSize + m.size + overhead ≤ Frame.maxLength)
    (hdialed : (Traffic.sent ds).length < 2 ^ 63) (haccepted : (Traffic.sent us).length < 2 ^ 63)
    (hrefused : RefusedElsewhere s (linkSealings s key (Traffic.sent ds) (Traffic.sent us))
      (linkNonces (Traffic.sent ds).length (Traffic.sent us).length)) :
    let atDialer := dialer.handleAll s (ds.map (Traffic.event acceptorId))
    let atAcceptor := acceptor.handleAll s (us.map (Traffic.event dialerId))
    (Traffic.arrived ds = (written atAcceptor.1).flatten →
      Traffic.arrived us = (written atDialer.1).flatten →
      delivered atDialer.1 = Traffic.sent us ∧ delivered atAcceptor.1 = Traffic.sent ds ∧
        atDialer.2.isLinked acceptorId = true ∧ atAcceptor.2.isLinked dialerId = true) ∧
    ∀ toDialer toAcceptor : List Bytes,
      (∀ x ∈ toDialer ++ toAcceptor, x ∈ written atDialer.1 ++ written atAcceptor.1) →
      Traffic.arrived ds = toDialer.flatten → Traffic.arrived us = toAcceptor.flatten →
      DeliversInPlace atDialer acceptorId toDialer (written atAcceptor.1) (Traffic.sent us) ∧
        DeliversInPlace atAcceptor dialerId toAcceptor (written atDialer.1) (Traffic.sent ds) := by
  intro atDialer atAcceptor
  have hfitsDialer := fun m hm => hfits m (List.mem_append_left _ hm)
  have hfitsAcceptor := fun m hm => hfits m (List.mem_append_right _ hm)
  have hatDialer : Progress s (.start acceptorId key true) ⟨key, 0⟩ ds atDialer :=
    progress hdecrypts hfitsDialer hdialer rfl rfl
  have hatAcceptor : Progress s (.start dialerId key false) ⟨key, 1⟩ us atAcceptor :=
    progress hdecrypts hfitsAcceptor hacceptor rfl rfl
  have hbound : Bytes.bound 8 = 2 * 2 ^ 63 := by decide
  have hzero : (0 : UInt64).toNat = 0 := rfl
  have hone : (1 : UInt64).toNat = 1 := rfl
  have hdrawn : ∀ toDialer toAcceptor : List Bytes,
      (∀ x ∈ toDialer ++ toAcceptor, x ∈ written atDialer.1 ++ written atAcceptor.1) →
      Traffic.arrived ds = toDialer.flatten → Traffic.arrived us = toAcceptor.flatten →
      DeliversInPlace atDialer acceptorId toDialer (written atAcceptor.1) (Traffic.sent us) ∧
        DeliversInPlace atAcceptor dialerId toAcceptor (written atDialer.1) (Traffic.sent ds) := by
    intro toDialer toAcceptor hall hdialer hacceptor
    -- The dialer's nonces are even and the acceptor's odd, so neither end takes its own records.
    refine ⟨?_, ?_⟩
    · refine hatAcceptor.reads_peer hdecrypts hlengthens hatDialer rfl rfl hfitsAcceptor hfitsDialer
        ?_ ?_ ?_ ?_ hdialer
      · rw [hone]
        omega
      · exact fun nonce hodd heven =>
          disjoint_noncesFrom (Nat.le_of_lt hdialed) haccepted heven hodd
      · exact hrefused.mono (List.append_subset.mpr ⟨List.subset_append_right _ _,
          List.subset_append_left _ _⟩) (List.subset_append_right _ _)
      · intro x hx
        exact (List.mem_append.mp (hall x (List.mem_append_left _ hx))).symm
    · refine hatDialer.reads_peer hdecrypts hlengthens hatAcceptor rfl rfl hfitsDialer hfitsAcceptor
        ?_ ?_ ?_ ?_ hacceptor
      · rw [hzero]
        omega
      · exact disjoint_noncesFrom hdialed (Nat.le_of_lt haccepted)
      · exact hrefused.mono (List.Subset.refl _) (List.subset_append_left _ _)
      · intro x hx
        exact List.mem_append.mp (hall x (List.mem_append_right _ hx))
  refine ⟨?_, hdrawn⟩
  intro hdialer hacceptor
  obtain ⟨hdialerDelivers, hacceptorDelivers⟩ := hdrawn _ _
    (fun x hx => List.mem_append.mpr (List.mem_append.mp hx).symm) hdialer hacceptor
  obtain ⟨_, -, hdialerWrites, hdialerKept⟩ := hatDialer.exists_kept
  obtain ⟨_, -, hacceptorWrites, hacceptorKept⟩ := hatAcceptor.exists_kept
  have hdialerLinked := hdialerDelivers.linked_iff.mpr (inPlace_self _)
  have hacceptorLinked := hacceptorDelivers.linked_iff.mpr (inPlace_self _)
  refine ⟨?_, ?_, hdialerLinked, hacceptorLinked⟩
  · rw [hdialerDelivers.delivered_eq, inPlace_self, hacceptorWrites, hacceptorKept hacceptorLinked,
      length_recordsOf hdecrypts hfitsAcceptor, List.take_length]
  · rw [hacceptorDelivers.delivered_eq, inPlace_self, hdialerWrites, hdialerKept hdialerLinked,
      length_recordsOf hdecrypts hfitsDialer, List.take_length]

/-! ## A record that is repeated and sent back -/

/-- A key that two ends share. -/
def sharedKey : Octets 32 := ⟨List.replicate 32 7, rfl⟩

/-- The device that dials. -/
def dialingDevice : DeviceId := ⟨List.replicate 16 1, rfl⟩

/-- The device that is dialed. -/
def dialedDevice : DeviceId := ⟨List.replicate 16 2, rfl⟩

/-- A connected channel with one link. -/
def linkedTo (peer : DeviceId) (dialer : Bool) : Channel :=
  ⟨⟨sharedKey, sharedKey, peer⟩, .start .connected, true, [.start peer sharedKey dialer], []⟩

/-- The message that is sent. -/
def joining : Message := ⟨"p", .join⟩

/-- Its record. -/
def joinRecord : Bytes := (recordsOf .standard ⟨sharedKey, 0⟩ [joining]).flatten

theorem encrypt_joining : ∃ ciphertext w,
    Writer.encrypt .standard joining.frame ⟨sharedKey, 0⟩ = .ok (ciphertext, w) ∧
      joinRecord = record ciphertext := by
  obtain ⟨ciphertext, hencrypt, hrecords⟩ := recordsOf_concat decryptsUpTo_record
    (fun m hm => absurd hm List.not_mem_nil) (m := joining) (by decide) ⟨sharedKey, 0⟩
  rw [List.nil_append] at hrecords
  exact ⟨ciphertext, _, hencrypt, (congrArg List.flatten hrecords).trans List.flatten_singleton⟩

theorem refusedElsewhere_joining :
    RefusedElsewhere .standard (linkSealings .standard sharedKey [joining] [])
      (linkNonces 1 0) := by
  have hall : ((linkSealings .standard sharedKey [joining] []).all fun x =>
      (linkNonces 1 0).all fun nonce => decide (nonce ≠ x.nonce →
        decryptNumbered .standard x.key nonce x.ciphertext = .error .decrypt)) = true := by
    decide +kernel
  intro x hx nonce hnonce
  exact of_decide_eq_true (List.all_eq_true.mp (List.all_eq_true.mp hall x hx) nonce hnonce)

/-- At the dialer: it sends, and its own record comes back. -/
def sentBack : List Traffic := [.send joining, .arrive joinRecord]

/-- At the acceptor: the record arrives twice. -/
def repeated : List Traffic := [.arrive (joinRecord ++ joinRecord)]

/-- What becomes of the dialer. -/
def dialerOut : List ChannelRequest × Channel :=
  (linkedTo dialedDevice true).handleAll .standard (sentBack.map (Traffic.event dialedDevice))

/-- What becomes of the acceptor. -/
def acceptorOut : List ChannelRequest × Channel :=
  (linkedTo dialingDevice false).handleAll .standard (repeated.map (Traffic.event dialingDevice))

theorem written_dialerOut : written dialerOut.1 = [joinRecord] := by
  obtain ⟨ciphertext, w, hencrypt, hrecord⟩ := encrypt_joining
  obtain ⟨hsend, hholds⟩ := Channel.handle_send (c := linkedTo dialedDevice true) ⟨rfl, rfl⟩
    (by decide) rfl hencrypt
  have hevents : sentBack.map (Traffic.event dialedDevice) =
      ([] ++ [.send joining]) ++ [.arrived dialedDevice joinRecord] := rfl
  rw [dialerOut, hevents, Channel.handleAll_concat, Channel.handleAll_concat, written_append,
    written_append]
  change [] ++ written (Channel.handle .standard (linkedTo dialedDevice true) _).1 ++
    written (Channel.handle .standard
      (Channel.handle .standard (linkedTo dialedDevice true) _).2 _).1 = _
  rw [Channel.written_arrived hholds.running, hsend, hrecord]
  rfl

theorem written_acceptorOut : written acceptorOut.1 = [] := by
  have hevents : repeated.map (Traffic.event dialingDevice) =
      [] ++ [.arrived dialingDevice (joinRecord ++ joinRecord)] := rfl
  rw [acceptorOut, hevents, Channel.handleAll_concat, written_append, Channel.written_arrived rfl]
  rfl

/-- The one record of the dialer arrives twice at the acceptor and once at the dialer itself. -/
theorem link_delivers_prefix_repeated :
    delivered dialerOut.1 = [] ∧ dialerOut.2.isLinked dialedDevice = false ∧
      delivered acceptorOut.1 = [joining] ∧ acceptorOut.2.isLinked dialingDevice = false := by
  have hdialing : (linkedTo dialedDevice true).Holds [.start dialedDevice sharedKey true] :=
    ⟨rfl, rfl⟩
  have haccepting : (linkedTo dialingDevice false).Holds [.start dialingDevice sharedKey false] :=
    ⟨rfl, rfl⟩
  obtain ⟨-, hdelivers⟩ := link_delivers_prefix decryptsUpTo_record Suite.lengthens_standard
    hdialing haccepting sentBack repeated (by decide) (by decide) (by decide) refusedElsewhere_joining
  rw [← dialerOut, ← acceptorOut, written_dialerOut, written_acceptorOut] at hdelivers
  obtain ⟨⟨hdialer, hdialerLinked⟩, hacceptor, hacceptorLinked⟩ :=
    hdelivers [joinRecord] [joinRecord, joinRecord] (by simp)
      (by simp [Traffic.arrived, Traffic.bytes, sentBack])
      (by simp [Traffic.arrived, Traffic.bytes, repeated])
  have hplaces : inPlace [joinRecord, joinRecord] [joinRecord] = 1 := by simp [inPlace]
  rw [hplaces] at hacceptor hacceptorLinked
  refine ⟨hdialer, ?_, hacceptor, ?_⟩
  · exact Bool.eq_false_iff.mpr fun h => absurd (hdialerLinked.mp h) (by decide)
  · exact Bool.eq_false_iff.mpr fun h => absurd (hacceptorLinked.mp h) (by decide)

end Lan

end PeerCall
