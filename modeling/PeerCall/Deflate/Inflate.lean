import PeerCall.Deflate.PrefixCode

/-!
# Inflating

Blocks are stored bytes, or literals and matches under two codes, fixed or sent along. A match
copies from the bytes already written; before the first of them the window holds zeros. Output
ends with the last block or at a limit. Behind the limit the stream is read as far as it goes
without another byte: there it may end, but it may not be malformed.
-/

namespace PeerCall.Deflate

/-- Bytes written so far, and how many are wanted. -/
structure Output where
  written : Array UInt8
  limit : Nat

/-- The byte at a distance back. -/
def Output.back (out : Output) (distance : Nat) : UInt8 :=
  if distance ≤ out.written.size then out.written.getD (out.written.size - distance) 0 else 0

/-- A part of a stream at work on the output, which stays when it halts. -/
abbrev Inflation (α : Type) := EStateM Halt Output α

namespace Inflation

/-- What was read from the stream. -/
def ofReading {α : Type} (reading : Except Halt α) : Inflation α := fun out =>
  match reading with
  | .ok a => .ok a out
  | .error halt => .error halt out

/-- Write a byte, if one more is wanted. -/
def push (b : UInt8) : Inflation Unit := fun out =>
  if out.limit ≤ out.written.size then .error .full out
  else .ok () { out with written := out.written.push b }

/-- Write the byte at a distance back. -/
def pushBack (distance : Nat) : Inflation Unit := fun out => push (out.back distance) out

/-- Write `length` bytes, each the one at a distance back. -/
def copy (distance : Nat) : Nat → Inflation Unit
  | 0 => pure ()
  | length + 1 => do
    pushBack distance
    copy distance length

end Inflation

open Inflation

/-- Shortest match and number of further bits for each length symbol, from 257 on. -/
def lengthTable : List (Nat × Nat) :=
  [(3, 0), (4, 0), (5, 0), (6, 0), (7, 0), (8, 0), (9, 0), (10, 0), (11, 1), (13, 1), (15, 1),
   (17, 1), (19, 2), (23, 2), (27, 2), (31, 2), (35, 3), (43, 3), (51, 3), (59, 3), (67, 4),
   (83, 4), (99, 4), (115, 4), (131, 5), (163, 5), (195, 5), (227, 5), (258, 0)]

/-- Shortest distance and number of further bits for each distance symbol. -/
def distanceTable : List (Nat × Nat) :=
  [(1, 0), (2, 0), (3, 0), (4, 0), (5, 1), (7, 1), (9, 2), (13, 2), (17, 3), (25, 3), (33, 4),
   (49, 4), (65, 5), (97, 5), (129, 6), (193, 6), (257, 7), (385, 7), (513, 8), (769, 8),
   (1025, 9), (1537, 9), (2049, 10), (3073, 10), (4097, 11), (6145, 11), (8193, 12), (12289, 12),
   (16385, 13), (24577, 13)]

/-- The number that a symbol of a table and the bits behind it stand for. -/
def takeExtended (table : List (Nat × Nat)) (symbol : Nat) (bits : List Bool) :
    Except Halt (Nat × List Bool) :=
  match table[symbol]? with
  | some (base, width) => (takeNumber width bits).map fun (more, bits) => (base + more, bits)
  | none => .error .malformed

/-- Literals and matches up to the end of a block. -/
def inflateCodes (literals distances : PrefixCode) : Nat → List Bool → Inflation (List Bool)
  | 0, _ => throw .cut
  | fuel + 1, bits => do
    let (symbol, bits) ← ofReading (literals.decode bits)
    if symbol < 256 then
      push (UInt8.ofNat symbol)
      inflateCodes literals distances fuel bits
    else if symbol = 256 then pure bits
    else
      let (length, bits) ← ofReading (takeExtended lengthTable (symbol - 257) bits)
      let (symbol, bits) ← ofReading (distances.decode bits)
      let (distance, bits) ← ofReading (takeExtended distanceTable symbol bits)
      copy distance length
      inflateCodes literals distances fuel bits

/-- Bytes from the front, each eight bits. -/
def copyStored : Nat → List Bool → Inflation (List Bool)
  | 0, bits => pure bits
  | n + 1, bits => do
    let (b, bits) ← ofReading (takeNumber 8 bits)
    push (UInt8.ofNat b)
    copyStored n bits

/-- A stored block, behind the bits that fill up its first byte. -/
def inflateStored (bits : List Bool) : Inflation (List Bool) := do
  let (length, bits) ← ofReading (takeNumber 16 (bits.drop (bits.length % 8)))
  let (check, bits) ← ofReading (takeNumber 16 bits)
  if length + check = 65535 then copyStored length bits else throw .malformed

/-- The literals' word lengths of the fixed code. -/
def fixedLiterals : List Nat :=
  List.replicate 144 8 ++ List.replicate 112 9 ++ List.replicate 24 7 ++ List.replicate 8 8

/-- The distances' word lengths of the fixed code. -/
def fixedDistances : List Nat := List.replicate 32 5

/-- The order in which the word lengths of the code of lengths are sent. -/
def lengthOrder : List Nat := [16, 17, 18, 0, 8, 7, 9, 6, 10, 5, 11, 4, 12, 3, 13, 2, 14, 1, 15]

/-- `n` numbers of three bits. -/
def takeLengths : Nat → List Bool → Except Halt (List Nat × List Bool)
  | 0, bits => .ok ([], bits)
  | n + 1, bits => do
    let (l, bits) ← takeNumber 3 bits
    let (ls, bits) ← takeLengths n bits
    pure (l :: ls, bits)

/-- Word lengths under the code of lengths until there are `total`, with repetitions; `done` holds
them last first. -/
def takeCodeLengths (code : PrefixCode) (total : Nat) :
    Nat → List Nat → List Bool → Except Halt (List Nat × List Bool)
  | 0, _, _ => .error .malformed
  | fuel + 1, done, bits =>
    if done.length = total then .ok (done.reverse, bits)
    else if total < done.length then .error .malformed
    else do
      let (symbol, bits) ← code.decode bits
      if symbol < 16 then takeCodeLengths code total fuel (symbol :: done) bits
      else if symbol = 16 then
        match done with
        | [] => .error .malformed
        | l :: _ =>
          let (more, bits) ← takeNumber 2 bits
          takeCodeLengths code total fuel (List.replicate (3 + more) l ++ done) bits
      else
        let (base, width) := if symbol = 17 then (3, 3) else (11, 7)
        let (more, bits) ← takeNumber width bits
        takeCodeLengths code total fuel (List.replicate (base + more) 0 ++ done) bits

/-- The two codes sent along with a block. -/
def takeCodes (bits : List Bool) : Except Halt (PrefixCode × PrefixCode × List Bool) := do
  let (literals, bits) ← takeNumber 5 bits
  let (distances, bits) ← takeNumber 5 bits
  let (lengths, bits) ← takeNumber 4 bits
  let literals := literals + 257
  let distances := distances + 1
  if literals > 286 || distances > 30 then .error .malformed
  else
    let (sent, bits) ← takeLengths (lengths + 4) bits
    let lengthOf := lengthOrder.zip sent
    let ls := (List.range 19).map fun symbol => (lengthOf.lookup symbol).getD 0
    if !PrefixCode.isValid .lengths ls then .error .malformed
    else
      let total := literals + distances
      let (all, bits) ← takeCodeLengths (.ofLengths ls) total (total + 1) [] bits
      let forLiterals := all.take literals
      let forDistances := all.drop literals
      if PrefixCode.isValid .literals forLiterals && PrefixCode.isValid .distances forDistances then
        pure (.ofLengths forLiterals, .ofLengths forDistances, bits)
      else .error .malformed

/-- A block of the given form. -/
def inflateBlock (form : Nat) (bits : List Bool) : Inflation (List Bool) :=
  let fuel := bits.length + 1
  match form with
  | 0 => inflateStored bits
  | 1 => inflateCodes (.ofLengths fixedLiterals) (.ofLengths fixedDistances) fuel bits
  | 2 => do
    let (literals, distances, bits) ← ofReading (takeCodes bits)
    inflateCodes literals distances fuel bits
  | _ => throw .malformed

/-- Blocks up to the last one. Each takes three bits at least. -/
def inflateBlocks : Nat → List Bool → Inflation Unit
  | 0, _ => throw .cut
  | fuel + 1, bits => do
    let (last, bits) ← ofReading (takeNumber 1 bits)
    let (form, bits) ← ofReading (takeNumber 2 bits)
    let bits ← inflateBlock form bits
    if last = 1 then pure () else inflateBlocks fuel bits

/-- The first `limit` bytes of what a stream holds, if it is sound and complete as far as that. -/
def inflate (limit : Nat) (stream : Bytes) : Option Bytes :=
  let bits := bitsOf stream
  match inflateBlocks (bits.length + 1) bits ⟨#[], limit⟩ with
  | .ok () out | .error .full out => some out.written.toList
  | .error .cut out => if out.written.size = limit then some out.written.toList else none
  | .error .malformed _ => none

end PeerCall.Deflate
