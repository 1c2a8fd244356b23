import PeerCall.Text.Utf8

/-!
# The binary form of values

A `Format` holds both directions of one type's binary form: fixed-width little-endian numbers,
texts and byte lists behind a 64-bit length, an optional value behind a tag byte, an alternative
behind its 32-bit index. A reader takes a value off the front and hands back the rest, or says in
a `Fault` why there is no such value.
-/

namespace PeerCall.Binary

/-- Why bytes are not the binary form of a value. -/
inductive Fault
  /-- The input ends inside a number. -/
  | endsInNumber
  /-- The input ends inside a run of bytes of announced length. -/
  | endsInText
  /-- A text is not UTF-8. -/
  | notUtf8 (fault : Text.Utf8.Fault)
  /-- The byte in front of an optional value is neither 0 nor 1. -/
  | optionTag (tag : UInt8)
  /-- An alternative's index is not below their number. -/
  | variant (index count : Nat)
  /-- A byte list that has to be `expected` long is not. -/
  | wrongLength (expected : Nat)
  /-- A whole datagram was expected, and bytes follow the value. -/
  | trailingBytes
  deriving DecidableEq, Repr

/-- The classes of faults that callers tell apart. -/
inductive Fault.Class
  | io
  | invalidUtf8
  | invalidTag
  | custom
  deriving DecidableEq, Repr

/-- The class of a fault. -/
def Fault.kind : Fault → Fault.Class
  | .endsInNumber | .endsInText => .io
  | .notUtf8 _ => .invalidUtf8
  | .optionTag _ => .invalidTag
  | .variant .. | .wrongLength _ | .trailingBytes => .custom

/-- The wording of a fault. -/
def Fault.message : Fault → String
  | .endsInNumber => "io error: unexpected end of file"
  | .endsInText => "io error: "
  | .notUtf8 ⟨position, some n⟩ =>
    s!"string is not valid utf8: invalid utf-8 sequence of {n} bytes from index {position}"
  | .notUtf8 ⟨position, none⟩ =>
    s!"string is not valid utf8: incomplete utf-8 byte sequence from index {position}"
  | .optionTag tag => s!"tag for enum is not valid, found {tag.toNat}"
  | .variant index count =>
    s!"invalid value: integer `{index}`, expected variant index 0 <= i < {count}"
  | .wrongLength expected => s!"expected {expected} bytes"
  | .trailingBytes => "trailing bytes after packet"

/-- Take exactly `n` bytes off the front. -/
def split? (n : Nat) (bs : Bytes) : Option (Bytes × Bytes) :=
  let front := bs.take n
  if front.length = n then some (front, bs.drop n) else none

theorem split?_append (front rest : Bytes) :
    split? front.length (front ++ rest) = some (front, rest) := by
  simp [split?]

theorem split?_eq_some {n : Nat} {bs front rest : Bytes} (h : split? n bs = some (front, rest)) :
    bs = front ++ rest ∧ front.length = n := by
  simp only [split?] at h
  split at h
  · rename_i hlen
    cases h
    exact ⟨(List.take_append_drop n bs).symm, hlen⟩
  · cases h

/-- Both directions of a type's binary form. -/
structure Format (α : Type) where
  encode : α → Bytes
  decode : Bytes → Except Fault (α × Bytes)

namespace Format

variable {α β : Type}

/-- A number of `width` bytes, least significant first. -/
def number (width : Nat) : Format Nat where
  encode := Bytes.ofNatLE width
  decode bs :=
    match split? width bs with
    | some (front, rest) => .ok (Bytes.toNatLE front, rest)
    | none => .error .endsInNumber

/-- The same bytes under another type; the two functions are to be each other's inverse. -/
def imap (f : Format α) (there : α → β) (back : β → α) : Format β where
  encode b := f.encode (back b)
  decode bs := (f.decode bs).map fun (a, rest) => (there a, rest)

/-- One value after the other. -/
def pair (f : Format α) (g : Format β) : Format (α × β) where
  encode x := f.encode x.1 ++ g.encode x.2
  decode bs := do
    let (a, rest) ← f.decode bs
    let (b, rest) ← g.decode rest
    pure ((a, b), rest)

/-- A byte. -/
def u8 : Format UInt8 := (number 1).imap UInt8.ofNat UInt8.toNat
/-- A 16-bit number. -/
def u16 : Format UInt16 := (number 2).imap UInt16.ofNat UInt16.toNat
/-- A 64-bit number. -/
def u64 : Format UInt64 := (number 8).imap UInt64.ofNat UInt64.toNat

/-- A run of bytes behind its 64-bit length; `short` is the fault of a run that ends too soon. -/
def run (short : Fault) : Format Bytes where
  encode bs := (number 8).encode bs.length ++ bs
  decode bs := do
    let (n, rest) ← (number 8).decode bs
    match split? n rest with
    | some x => pure x
    | none => throw short

/-- A list of bytes, each of them a number. -/
def bytes : Format Bytes := run .endsInNumber

/-- A text, as the run of its UTF-8 bytes. -/
def text : Format String where
  encode s := (run .endsInText).encode (Text.Utf8.encode s)
  decode bs := do
    let (raw, rest) ← (run .endsInText).decode bs
    match Text.Utf8.decode raw with
    | .ok s => pure (s, rest)
    | .error fault => throw (.notUtf8 fault)

/-- A run of bytes that has to be `n` long. -/
def octets (n : Nat) (short : Fault) : Format (Octets n) where
  encode x := (run short).encode x.bytes
  decode bs := do
    let (raw, rest) ← (run short).decode bs
    match Octets.ofBytes? n raw with
    | some x => pure (x, rest)
    | none => throw (.wrongLength n)

/-- Exactly `n` bytes with no length in front. -/
def plainOctets (n : Nat) : Format (Octets n) where
  encode x := x.bytes
  decode bs :=
    match split? n bs with
    | some (front, rest) =>
      match Octets.ofBytes? n front with
      | some x => .ok (x, rest)
      | none => .error (.wrongLength n)
    | none => .error .endsInNumber

/-- An optional value: the byte 0 alone, or the byte 1 and the value. -/
def option (f : Format α) : Format (Option α) where
  encode
    | none => u8.encode 0
    | some a => u8.encode 1 ++ f.encode a
  decode bs := do
    let (tag, rest) ← u8.decode bs
    if tag = 0 then pure (none, rest)
    else if tag = 1 then
      let (a, rest) ← f.decode rest
      pure (some a, rest)
    else throw (.optionTag tag)

/-- The index of an alternative. -/
def index : Format Nat := number 4

/-- Alternatives without contents, by their place in a list. -/
def choice [DecidableEq α] (values : List α) : Format α where
  encode a := index.encode (values.idxOf a)
  decode bs := do
    let (i, rest) ← index.decode bs
    match values[i]? with
    | some a => pure (a, rest)
    | none => throw (.variant i values.length)

/-- Read a value behind an index that is already taken off, as one alternative of a type. -/
def decodeAs (f : Format α) (wrap : α → β) (bs : Bytes) : Except Fault (β × Bytes) :=
  (f.decode bs).map fun (a, rest) => (wrap a, rest)

end Format

end PeerCall.Binary
