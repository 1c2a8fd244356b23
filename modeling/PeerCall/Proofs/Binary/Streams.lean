import PeerCall.Proofs.Binary.Frames

/-!
# Streams of frames

How a stream is cut into chunks has no say in what a reader takes of it. A reader that stops for
want of bytes goes on where it stopped, and whatever else stops it stops it again, however many
bytes come behind: an answer to a buffer that does not ask for more is the answer to every longer
one.
-/
namespace PeerCall

open Binary

namespace Frame

variable {α : Type} {f : Format α} {a : α} {buffer : Bytes} {used : Nat}

/-! ## Longer buffers -/

/-- Whatever is not for want of bytes stays when more of them arrive. -/
theorem content_append_of_ne (h : content buffer ≠ .error .needMore) (more : Bytes) :
    content (buffer ++ more) = content buffer := by
  cases hcontent : content buffer with
  | ok x => exact content_append hcontent more
  | error e =>
      cases e with
      | needMore => exact absurd hcontent h
      | tooLarge => exact content_append_tooLarge hcontent more
      | malformed fault =>
          rw [content_eq] at hcontent
          split at hcontent
          · cases hcontent
          · split at hcontent
            · cases hcontent
            · split at hcontent <;> cases hcontent

/-- **An answer that does not ask for more bytes is final.** -/
theorem decode_append (h : decode f buffer ≠ .error .needMore) (more : Bytes) :
    decode f (buffer ++ more) = decode f buffer := by
  have hcontent : content buffer ≠ .error .needMore := by
    intro hcontent
    refine h ?_
    rw [decode, hcontent]
    rfl
  rw [decode, decode, content_append_of_ne hcontent]

theorem decode_append_of_ok (h : decode f buffer = .ok (a, used)) (more : Bytes) :
    decode f (buffer ++ more) = .ok (a, used) := by
  rw [decode_append (by rw [h]; nofun), h]

/-! ## Draining -/

/-- What a draining yields: frame after frame is taken, until one fails. -/
inductive Drains (f : Format α) : Bytes → Drained α → Prop
  | stop {buffer : Bytes} {stop : DecodeError} (h : decode f buffer = .error stop) :
    Drains f buffer ⟨[], stop, buffer⟩
  | take {buffer left : Bytes} {a : α} {used : Nat} {taken : List (α × Nat)} {stop : DecodeError}
    (h : decode f buffer = .ok (a, used)) (hd : Drains f (buffer.drop used) ⟨taken, stop, left⟩) :
    Drains f buffer ⟨(a, used) :: taken, stop, left⟩

theorem drains_drain (f : Format α) (buffer : Bytes) : Drains f buffer (drain f buffer) := by
  fun_induction drain f buffer with
  | case1 buffer stop h => exact .stop h
  | case2 buffer a used h more ih => exact .take h ih

/-- A buffer yields one thing only. -/
theorem Drains.unique {d e : Drained α} (hd : Drains f buffer d) (he : Drains f buffer e) :
    d = e := by
  induction hd generalizing e with
  | stop h =>
      cases he with
      | stop h' =>
          rw [h] at h'
          cases h'
          rfl
      | take h' _ =>
          rw [h] at h'
          cases h'
  | take h _ ih =>
      cases he with
      | stop h' =>
          rw [h] at h'
          cases h'
      | take h' he =>
          rw [h] at h'
          cases h'
          cases ih he
          rfl

theorem Drains.drain_eq {d : Drained α} (hd : Drains f buffer d) : drain f buffer = d :=
  (drains_drain f buffer).unique hd

/-- The bytes left are those that ended the draining. -/
theorem Drains.decode_left {d : Drained α} (hd : Drains f buffer d) :
    decode f d.left = .error d.stop := by
  induction hd with
  | stop h => exact h
  | take _ _ ih => exact ih

/-- One draining behind another. -/
def Drained.andThen (d e : Drained α) : Drained α := { e with taken := d.taken ++ e.taken }

/-- **More bytes go on where the last ones ended.** -/
theorem Drains.append {d e : Drained α} {more : Bytes} (hd : Drains f buffer d)
    (he : Drains f (d.left ++ more) e) : Drains f (buffer ++ more) (d.andThen e) := by
  induction hd with
  | stop h => exact he
  | take h _ ih =>
      refine .take (decode_append_of_ok h more) ?_
      rw [List.drop_append_of_le_length (used_of_decode h).2]
      exact ih he

theorem drain_append (f : Format α) (buffer more : Bytes) :
    drain f (buffer ++ more) =
      (drain f buffer).andThen (drain f ((drain f buffer).left ++ more)) :=
  ((drains_drain f buffer).append (drains_drain f _)).drain_eq

/-- A draining that did not stop for want of bytes has nothing more to take. -/
theorem drain_append_of_stop (h : (drain f buffer).stop ≠ .needMore) (more : Bytes) :
    drain f (buffer ++ more) =
      { drain f buffer with left := (drain f buffer).left ++ more } := by
  have hstop := (drains_drain f buffer).decode_left
  have hmore : decode f ((drain f buffer).left ++ more) = .error (drain f buffer).stop := by
    rw [decode_append _ more, hstop]
    rw [hstop]
    intro heq
    exact h (Except.error.inj heq)
  rw [drain_append, (Drains.stop hmore).drain_eq, Drained.andThen, List.append_nil]

/-! ## Streams -/

/-- What a stream yields in all: everything taken, and what the last draining ended with. -/
def Drained.overall (ds : List (Drained α)) : Option (Drained α) :=
  ds.getLast?.map fun d => { d with taken := ds.flatMap Drained.taken }

theorem Drained.overall_cons {d e : Drained α} {ds : List (Drained α)}
    (h : Drained.overall ds = some e) : Drained.overall (d :: ds) = some (d.andThen e) := by
  obtain ⟨last, hlast, rfl⟩ := Option.map_eq_some_iff.mp h
  rw [Drained.overall, List.getLast?_cons, hlast, List.flatMap_cons]
  rfl

/-- **A stream yields what its bytes yield at once.** -/
theorem overall_stream (f : Format α) (buffer : Bytes) {chunks : List Bytes} (h : chunks ≠ []) :
    Drained.overall (stream f buffer chunks) = some (drain f (buffer ++ chunks.flatten)) := by
  induction chunks generalizing buffer with
  | nil => exact absurd rfl h
  | cons chunk chunks ih =>
      cases chunks with
      | nil =>
          rw [List.flatten_cons, List.flatten_nil, List.append_nil, stream, stream, Drained.overall,
            List.flatMap_singleton]
          rfl
      | cons next chunks =>
          rw [List.flatten_cons, ← List.append_assoc, drain_append, stream]
          exact Drained.overall_cons (ih _ (List.cons_ne_nil next chunks))

/-! ## Frames in a row -/

/-- The frames of values, one behind the other, are taken one by one. -/
theorem ReadsFrames.drains (hf : ReadsFrames f) {as : List α}
    (has : ∀ a ∈ as, (f.encode a).length ≤ maxLength) :
    ∃ frames, as.mapM (encode f) = .ok frames ∧
      Drains f frames.flatten ⟨as.zip (frames.map List.length), .needMore, []⟩ := by
  induction as with
  | nil => exact ⟨[], rfl, .stop rfl⟩
  | cons a as ih =>
      obtain ⟨ha, has⟩ := List.forall_mem_cons.mp has
      obtain ⟨frames, hframes, hdrains⟩ := ih has
      obtain ⟨frame, hframe, hread⟩ := hf.decode_own a ha
      refine ⟨frame :: frames, ?_, ?_⟩
      · rw [List.mapM_cons, hframe, hframes]
        rfl
      · refine .take (hread frames.flatten) ?_
        rw [List.flatten_cons, List.drop_left]
        exact hdrains

/-! ## The whole -/

/-- **How a stream is cut has no say.** Two ways to cut the same bytes into chunks yield the same
messages with the same sizes, end with the same error and leave the same bytes: what is taken of all
the bytes at once, frame after frame until one fails. An error other than the want of bytes is the
last word, whatever comes behind. And of the frames of any messages that are small enough, cut
anyhow, exactly the messages are taken, and nothing is left. -/
theorem chunking_irrelevant :
    (∀ chunks chunks' : List Bytes, chunks ≠ [] → chunks' ≠ [] →
      chunks.flatten = chunks'.flatten →
      ∃ d, Drains Message.format chunks.flatten d ∧
        Drained.overall (stream Message.format [] chunks) = some d ∧
        Drained.overall (stream Message.format [] chunks') = some d) ∧
    (∀ bytes more, (drain Message.format bytes).stop ≠ .needMore →
      drain Message.format (bytes ++ more) =
        { drain Message.format bytes with left := (drain Message.format bytes).left ++ more }) ∧
    ∀ ms : List Message, (∀ m ∈ ms, (Message.format.encode m).length ≤ maxLength) →
      ∃ frames, ms.mapM (encode Message.format) = .ok frames ∧
        ∀ chunks : List Bytes, chunks ≠ [] → chunks.flatten = frames.flatten →
          Drained.overall (stream Message.format [] chunks) =
            some ⟨ms.zip (frames.map List.length), .needMore, []⟩ := by
  refine ⟨?_, fun bytes more h => drain_append_of_stop h more, ?_⟩
  · intro chunks chunks' hne hne' hflatten
    refine ⟨_, drains_drain _ _, overall_stream _ [] hne, ?_⟩
    rw [hflatten]
    exact overall_stream _ [] hne'
  · intro ms hms
    obtain ⟨frames, hframes, hdrains⟩ := Message.framable.readsFrames.drains hms
    refine ⟨frames, hframes, ?_⟩
    intro chunks hne hflatten
    rw [overall_stream _ [] hne, List.nil_append, hflatten, hdrains.drain_eq]

/-- The frames of a greeting and a farewell, cut in the middle of a length and of a message. -/
def cutFrames : List Bytes :=
  [[13, 0], [0, 0, 1, 0, 0, 0, 0, 0], [0, 0, 112, 0, 0, 0, 0, 13, 0, 0, 0, 1],
    [0, 0, 0, 0, 0, 0, 0, 112, 4, 0, 0, 0]]

theorem chunking_irrelevant_cutFrames :
    Drained.overall (stream Message.format [] cutFrames) =
        some ⟨[(⟨"p", .join⟩, 17), (⟨"p", .bye⟩, 17)], .needMore, []⟩ ∧
      Drained.overall (stream Message.format [] [cutFrames.flatten]) =
        Drained.overall (stream Message.format [] cutFrames) := by
  obtain ⟨hcut, -, hframes⟩ := chunking_irrelevant
  obtain ⟨d, -, hone, hmany⟩ := hcut [cutFrames.flatten] cutFrames (List.cons_ne_nil _ _)
    (List.cons_ne_nil _ _) (by decide)
  obtain ⟨frames, hencode, hstream⟩ := hframes [⟨"p", .join⟩, ⟨"p", .bye⟩] (by decide +kernel)
  have hflatten : [⟨"p", .join⟩, ⟨"p", .bye⟩].mapM (encode Message.format) =
      .ok [cutFrames.flatten.take 17, cutFrames.flatten.drop 17] := by
    decide +kernel
  rw [hflatten] at hencode
  cases hencode
  refine ⟨?_, hone.trans hmany.symm⟩
  rw [hstream cutFrames (List.cons_ne_nil _ _) (by decide)]
  rfl

end Frame

end PeerCall
