import PeerCall.Message
import PeerCall.Packet
import PeerCall.Proofs.Binary.RoundTrip

/-!
# Nothing else is read

What is read as a value starts with the binary form of this value: there are no other spellings of
a number, an option or an index, and no text that is not UTF-8. Like the round trip, the law passes
from the parts of a format to the whole; it needs no bound on lengths, for a length that was read
is one that can be written.
-/
namespace PeerCall

open Binary Binary.Format

namespace Binary.Format

variable {α β : Type} {f : Format α} {g : Format β} {bs rest : Bytes}

/-- What is read as a value starts with its binary form. -/
def Canonical (f : Format α) : Prop :=
  ∀ ⦃bs a rest⦄, f.decode bs = .ok (a, rest) → bs = f.encode a ++ rest

/-- The results of two readers in a row. -/
theorem eq_ok_of_bind {ε : Type} {r : Except ε α} {k : α → Except ε β} {b : β}
    (h : (r >>= k) = .ok b) : ∃ a, r = .ok a ∧ k a = .ok b := by
  cases r with
  | error e => cases h
  | ok a => exact ⟨a, rfl, h⟩

theorem eq_ok_of_map {ε : Type} {r : Except ε α} {k : α → β} {b : β}
    (h : r.map k = .ok b) : ∃ a, r = .ok a ∧ k a = b := by
  cases r with
  | error e => cases h
  | ok a => exact ⟨a, rfl, Except.ok.inj h⟩

/-! ## Numbers -/

/-- A number that was read has its width. -/
theorem number_of_decode {width n : Nat} (h : (number width).decode bs = .ok (n, rest)) :
    n < Bytes.bound width ∧ bs = Bytes.ofNatLE width n ++ rest := by
  unfold number at h
  dsimp only at h
  split at h
  · rename_i front rest' hsplit
    obtain ⟨hbs, hwidth⟩ := split?_eq_some hsplit
    cases h
    subst hwidth
    exact ⟨Bytes.toNatLE_lt front, by rw [Bytes.ofNatLE_toNatLE, hbs]⟩
  · cases h

theorem canonical_number (width : Nat) : (number width).Canonical :=
  fun _ _ _ h => (number_of_decode h).2

theorem Canonical.imap {there : α → β} {back : β → α} (hf : f.Canonical)
    (hback : ∀ bs a rest, f.decode bs = .ok (a, rest) → back (there a) = a) :
    (f.imap there back).Canonical := by
  intro bs b rest h
  obtain ⟨⟨a, rest'⟩, hread, hb⟩ := eq_ok_of_map h
  cases hb
  change bs = f.encode (back (there a)) ++ rest
  rw [hback bs a rest hread]
  exact hf hread

theorem canonical_u8 : u8.Canonical :=
  (canonical_number 1).imap fun _ _ _ h => UInt8.toNat_ofNat_of_lt' (number_of_decode h).1

theorem canonical_u16 : u16.Canonical :=
  (canonical_number 2).imap fun _ _ _ h => UInt16.toNat_ofNat_of_lt' (number_of_decode h).1

theorem canonical_u64 : u64.Canonical :=
  (canonical_number 8).imap fun _ _ _ h => UInt64.toNat_ofNat_of_lt' (number_of_decode h).1

/-! ## Sequences and choices -/

theorem Canonical.pair (hf : f.Canonical) (hg : g.Canonical) : (f.pair g).Canonical := by
  intro bs x rest h
  obtain ⟨⟨a, rest'⟩, hfirst, h⟩ := eq_ok_of_bind h
  obtain ⟨⟨b, rest''⟩, hsecond, h⟩ := eq_ok_of_bind h
  cases h
  change bs = (f.encode a ++ g.encode b) ++ rest
  rw [List.append_assoc, ← hg hsecond]
  exact hf hfirst

theorem Canonical.option (hf : f.Canonical) : (option f).Canonical := by
  intro bs o rest h
  obtain ⟨⟨tag, rest'⟩, htag, h⟩ := eq_ok_of_bind h
  have hbs := canonical_u8 htag
  dsimp only at h
  split at h
  · rename_i hzero
    cases h
    rw [hbs, hzero]
    rfl
  · split at h
    · rename_i hone
      obtain ⟨⟨a, rest''⟩, hread, h⟩ := eq_ok_of_bind h
      cases h
      change bs = (u8.encode 1 ++ f.encode a) ++ rest''
      rw [List.append_assoc, ← hf hread, ← hone]
      exact hbs
    · cases h

theorem canonical_choice [DecidableEq α] {values : List α} (hnodup : values.Nodup) :
    (choice values).Canonical := by
  intro bs a rest h
  obtain ⟨⟨i, rest'⟩, hindex, h⟩ := eq_ok_of_bind h
  have hbs := canonical_number 4 hindex
  dsimp only at h
  split at h
  · rename_i a' hvalue
    cases h
    obtain ⟨hi, rfl⟩ := List.getElem?_eq_some_iff.mp hvalue
    change bs = (number 4).encode (values.idxOf values[i]) ++ rest
    rw [hnodup.idxOf_getElem]
    exact hbs
  · cases h

/-- An alternative whose contents start with their binary form. -/
theorem Canonical.decodeAs (hf : f.Canonical) {wrap : α → β} {b : β}
    (h : f.decodeAs wrap bs = .ok (b, rest)) : ∃ a, b = wrap a ∧ bs = f.encode a ++ rest := by
  obtain ⟨⟨a, rest'⟩, hread, hb⟩ := eq_ok_of_map h
  cases hb
  exact ⟨a, rfl, hf hread⟩

/-! ## Runs of bytes -/

theorem canonical_run (short : Fault) : (run short).Canonical := by
  intro bs front rest h
  obtain ⟨⟨n, rest'⟩, hlength, h⟩ := eq_ok_of_bind h
  have hbs := canonical_number 8 hlength
  dsimp only at h
  split at h
  · rename_i x hsplit
    cases h
    obtain ⟨hrest, hn⟩ := split?_eq_some hsplit
    change bs = ((number 8).encode front.length ++ front) ++ rest
    rw [List.append_assoc, ← hrest, hn]
    exact hbs
  · cases h

theorem canonical_bytes : bytes.Canonical := canonical_run .endsInNumber

theorem canonical_text : text.Canonical := by
  intro bs s rest h
  obtain ⟨⟨raw, rest'⟩, hraw, h⟩ := eq_ok_of_bind h
  have hbs := canonical_run .endsInText hraw
  dsimp only at h
  split at h
  · rename_i s' hs
    cases h
    change bs = (run .endsInText).encode (Text.Utf8.encode s) ++ rest
    rw [Text.Utf8.encode_of_decode hs]
    exact hbs
  · cases h

theorem canonical_octets (n : Nat) (short : Fault) : (octets n short).Canonical := by
  intro bs x rest h
  obtain ⟨⟨raw, rest'⟩, hraw, h⟩ := eq_ok_of_bind h
  have hbs := canonical_run short hraw
  dsimp only at h
  split at h
  · rename_i x' hx
    cases h
    change bs = (run short).encode x.bytes ++ rest
    rw [Octets.bytes_of_ofBytes? hx]
    exact hbs
  · cases h

end Binary.Format

/-! ## Messages and packets -/

theorem CallMode.canonical : CallMode.format.Canonical := canonical_choice (by decide)

theorem IceCandidate.canonical : IceCandidate.format.Canonical :=
  Canonical.imap (canonical_text.pair (canonical_text.option.pair canonical_u16.option))
    fun _ _ _ _ => rfl

theorem canonical_publicKey : publicKeyFormat.Canonical := canonical_octets 32 .endsInNumber

/-- Behind the index of an alternative stand its contents and nothing else. -/
theorem Signal.canonical : Signal.format.Canonical := by
  intro bs signal rest h
  obtain ⟨⟨i, rest'⟩, hindex, h⟩ := eq_ok_of_bind h
  have hbs := canonical_number 4 hindex
  change bs = Signal.encode signal ++ rest
  rw [hbs]
  dsimp only at h
  split at h
  · cases h
    rfl
  · obtain ⟨sdp, rfl, rfl⟩ := canonical_text.decodeAs h
    exact (List.append_assoc ..).symm
  · obtain ⟨sdp, rfl, rfl⟩ := canonical_text.decodeAs h
    exact (List.append_assoc ..).symm
  · obtain ⟨c, rfl, rfl⟩ := IceCandidate.canonical.decodeAs h
    exact (List.append_assoc ..).symm
  · cases h
    rfl
  · obtain ⟨words, rfl, rfl⟩ := canonical_text.decodeAs h
    exact (List.append_assoc ..).symm
  · obtain ⟨key, rfl, rfl⟩ := canonical_publicKey.decodeAs h
    exact (List.append_assoc ..).symm
  · obtain ⟨⟨key, payload⟩, rfl, rfl⟩ := (canonical_publicKey.pair canonical_bytes).decodeAs h
    exact (List.append_assoc ..).symm
  · obtain ⟨mode, rfl, rfl⟩ := CallMode.canonical.decodeAs h
    exact (List.append_assoc ..).symm
  · cases h
    rfl
  · cases h

/-- **What is read as a message starts with its binary form.** -/
theorem Message.canonical : Message.format.Canonical :=
  (canonical_text.pair Signal.canonical).imap fun _ _ _ _ => rfl

theorem PacketKind.canonical :
    (Format.choice [PacketKind.signaling, .data, .hello, .ack]).Canonical :=
  canonical_choice (by decide)

/-- **What is read as a packet starts with its binary form.** -/
theorem Packet.canonical : Packet.format.Canonical := by
  refine Canonical.imap ?_ fun _ _ _ _ => rfl
  refine (canonical_octets 16 .endsInText).pair (canonical_text.pair (canonical_text.pair ?_))
  refine PacketKind.canonical.pair (canonical_bytes.pair ?_)
  exact canonical_u8.pair (canonical_u8.pair canonical_u64)

end PeerCall
