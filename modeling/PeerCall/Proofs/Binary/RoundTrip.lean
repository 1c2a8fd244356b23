import Mathlib.Data.List.Basic
import PeerCall.Binary.Format

/-!
# Reading back what was written

A value that is read back from its binary form takes exactly its own bytes, so the law is stated in
front of arbitrary bytes and passes from the parts of a format to the whole. The only condition is
that lengths fit into the 64 bits written for them.
-/
namespace PeerCall.Binary.Format

variable {α β : Type} {f : Format α} {g : Format β} {a : α} {b : β} {s : String} {bs : Bytes}

/-- A value is read back from its binary form, whatever follows it. -/
def Reads (f : Format α) (a : α) : Prop :=
  ∀ rest, f.decode (f.encode a ++ rest) = .ok (a, rest)

/-- The number of bytes in a run is small enough to be written in front of it. -/
def Counted (bs : Bytes) : Prop := bs.length < Bytes.bound 8

/-! ## Numbers -/

theorem reads_number {width n : Nat} (h : n < Bytes.bound width) : (number width).Reads n := by
  intro rest
  have hsplit := split?_append (Bytes.ofNatLE width n) rest
  rw [Bytes.length_ofNatLE] at hsplit
  simp only [number, hsplit, Bytes.toNatLE_ofNatLE, Nat.mod_eq_of_lt h]

theorem Reads.imap {there : α → β} {back : β → α} (h : f.Reads (back b))
    (hb : there (back b) = b) : (f.imap there back).Reads b := by
  intro rest
  change (f.decode (f.encode (back b) ++ rest)).map _ = _
  rw [h rest]
  simp [Except.map, hb]

theorem reads_u8 (x : UInt8) : u8.Reads x :=
  Reads.imap (reads_number x.toNat_lt) UInt8.ofNat_toNat

theorem reads_u16 (x : UInt16) : u16.Reads x :=
  Reads.imap (reads_number x.toNat_lt) UInt16.ofNat_toNat

theorem reads_u64 (x : UInt64) : u64.Reads x :=
  Reads.imap (reads_number x.toNat_lt) UInt64.ofNat_toNat

/-! ## Sequences and choices -/

theorem Reads.pair (hf : f.Reads a) (hg : g.Reads b) : (f.pair g).Reads (a, b) := by
  intro rest
  change (f.pair g).decode ((f.encode a ++ g.encode b) ++ rest) = _
  rw [List.append_assoc]
  simp only [Format.pair, hf (g.encode b ++ rest), hg rest, bind, Except.bind]
  rfl

theorem reads_none : (option f).Reads none := by
  intro rest
  change (option f).decode (u8.encode 0 ++ rest) = _
  simp only [option, reads_u8 0 rest, bind, Except.bind, if_true]
  rfl

theorem Reads.some (h : f.Reads a) : (option f).Reads (some a) := by
  intro rest
  change (option f).decode ((u8.encode 1 ++ f.encode a) ++ rest) = _
  have hone : (1 : UInt8) ≠ 0 := by decide
  rw [List.append_assoc]
  simp only [option, reads_u8 1 (f.encode a ++ rest), h rest, bind, Except.bind, if_neg hone,
    if_true]
  rfl

theorem reads_option {o : Option α} (h : ∀ a, o = Option.some a → f.Reads a) :
    (option f).Reads o := by
  cases o with
  | none => exact reads_none
  | some a => exact (h a rfl).some

theorem reads_choice [DecidableEq α] {values : List α} (ha : a ∈ values)
    (hfew : values.length ≤ Bytes.bound 4) : (choice values).Reads a := by
  intro rest
  have hlt : values.idxOf a < values.length := List.idxOf_lt_length_of_mem ha
  have hindex := reads_number (Nat.lt_of_lt_of_le hlt hfew) rest
  change (choice values).decode ((number 4).encode (values.idxOf a) ++ rest) = _
  simp only [choice, index, hindex, bind, Except.bind, List.getElem?_idxOf ha]
  rfl

/-- An alternative is read back where its contents are. -/
theorem Reads.decodeAs (h : f.Reads a) (wrap : α → β) (rest : Bytes) :
    f.decodeAs wrap (f.encode a ++ rest) = .ok (wrap a, rest) := by
  simp only [Format.decodeAs, h rest, Except.map]

/-! ## Runs of bytes -/

theorem reads_run {short : Fault} (h : Counted bs) : (run short).Reads bs := by
  intro rest
  change (run short).decode (((number 8).encode bs.length ++ bs) ++ rest) = _
  rw [List.append_assoc]
  simp only [run, reads_number h (bs ++ rest), split?_append, bind, Except.bind]
  rfl

/-- A run that was cut short is not read. -/
theorem decode_run_take {short : Fault} {n : Nat} (h : Counted bs) (hn : n < bs.length) :
    (run short).decode ((number 8).encode bs.length ++ bs.take n) = .error short := by
  have hsplit : split? bs.length (bs.take n) = Option.none := by
    rw [split?, if_neg]
    rw [List.length_take, List.length_take]
    omega
  simp only [run, reads_number h (bs.take n), hsplit, bind, Except.bind]
  rfl

theorem reads_bytes (h : Counted bs) : bytes.Reads bs := reads_run h

theorem reads_text (h : Counted (Text.Utf8.encode s)) : text.Reads s := by
  intro rest
  change text.decode ((run .endsInText).encode (Text.Utf8.encode s) ++ rest) = _
  simp only [text, reads_run h rest, bind, Except.bind, Text.Utf8.decode_encode]
  rfl

theorem decode_text_take {n : Nat} (h : Counted (Text.Utf8.encode s))
    (hn : n < (Text.Utf8.encode s).length) :
    text.decode ((number 8).encode (Text.Utf8.encode s).length ++ (Text.Utf8.encode s).take n) =
      .error .endsInText := by
  simp only [text, decode_run_take h hn, bind, Except.bind]

theorem reads_octets {n : Nat} {short : Fault} (hn : n < Bytes.bound 8) (x : Octets n) :
    (octets n short).Reads x := by
  intro rest
  have hcounted : Counted x.bytes := by rw [Counted, x.length_eq]; exact hn
  change (octets n short).decode ((run short).encode x.bytes ++ rest) = _
  simp only [octets, reads_run hcounted rest, bind, Except.bind, Octets.ofBytes?_bytes]
  rfl

/-! ## Lengths -/

@[simp] theorem length_encode_number (width n : Nat) :
    ((number width).encode n).length = width := Bytes.length_ofNatLE width n

@[simp] theorem length_encode_u8 (x : UInt8) : (u8.encode x).length = 1 := rfl

@[simp] theorem length_encode_run (short : Fault) (bs : Bytes) :
    ((run short).encode bs).length = 8 + bs.length := by
  change ((number 8).encode bs.length ++ bs).length = _
  rw [List.length_append, length_encode_number]

end PeerCall.Binary.Format
