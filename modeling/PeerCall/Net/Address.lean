/-!
# Network addresses

Addresses of hosts and sockets, with the written forms that are read and the one that is printed.
An address of the longer kind is printed with its longest run of two or more zero groups left out,
the first of equal runs, and an embedded short address in dotted form.
-/

namespace PeerCall.Net

/-- The address of a host. -/
inductive Address
  | v4 (a b c d : UInt8)
  /-- Eight groups of sixteen bits. -/
  | v6 (groups : Vector UInt16 8)
  deriving DecidableEq

/-- The address of a socket. -/
structure Endpoint where
  address : Address
  /-- The zone of an address of the longer kind; zero for none. -/
  scope : UInt32
  port : UInt16
  deriving DecidableEq

/-! ## Reading -/

/-- The value of a digit. -/
def digitValue? (radix : Nat) (c : Char) : Option Nat :=
  let value := if c.isDigit then some (c.toNat - '0'.toNat)
    else if 'a' ≤ c && c ≤ 'f' then some (c.toNat - 'a'.toNat + 10)
    else if 'A' ≤ c && c ≤ 'F' then some (c.toNat - 'A'.toNat + 10)
    else none
  value.filter (· < radix)

/-- The digits in front of a text, and the rest. -/
def leadingDigits (radix : Nat) : List Char → List Nat × List Char
  | [] => ([], [])
  | c :: cs => match digitValue? radix c with
    | some d =>
      let (ds, rest) := leadingDigits radix cs
      (d :: ds, rest)
    | none => ([], c :: cs)

/-- A number that is below a bound, in front of a text. It has a digit at least. -/
def readNumber? (radix bound : Nat) (cs : List Char) : Option (Nat × List Char) :=
  let (ds, rest) := leadingDigits radix cs
  let value := ds.foldl (fun v d => v * radix + d) 0
  if ds.isEmpty || bound ≤ value then none else some (value, rest)

/-- A character that has to be there. -/
def readChar? (c : Char) : List Char → Option (List Char)
  | d :: rest => if d = c then some rest else none
  | [] => none

/-- One part of a dotted address: up to three digits, with no zero in front. -/
def readOctet? (cs : List Char) : Option (UInt8 × List Char) :=
  let ds := (leadingDigits 10 cs).1
  if ds.length ≤ 3 && !(ds.length > 1 && ds.head? == some 0) then
    (readNumber? 10 256 cs).map fun (v, rest) => (.ofNat v, rest)
  else none

/-- A dotted address in front of a text. -/
def readV4? (cs : List Char) : Option ((UInt8 × UInt8 × UInt8 × UInt8) × List Char) := do
  let (a, cs) ← readOctet? cs
  let (b, cs) ← readOctet? (← readChar? '.' cs)
  let (c, cs) ← readOctet? (← readChar? '.' cs)
  let (d, cs) ← readOctet? (← readChar? '.' cs)
  pure ((a, b, c, d), cs)

/-- One group of a longer address: up to four digits. -/
def readGroup? (cs : List Char) : Option (UInt16 × List Char) :=
  if (leadingDigits 16 cs).1.length ≤ 4 then
    (readNumber? 16 65536 cs).map fun (v, rest) => (.ofNat v, rest)
  else none

/-- What has to stand before a group: a colon, except before the first. -/
def readSeparator? (first : Bool) (cs : List Char) : Option (List Char) :=
  if first then some cs else readChar? ':' cs

/-- Two bytes as a group. -/
def groupOf (high low : UInt8) : UInt16 := .ofNat (high.toNat * 256 + low.toNat)

/-- At most so many groups in front of a text, whether a dotted address ends them, and the rest. A
dotted address stands for two groups. -/
def readGroups (first : Bool) : Nat → List Char → List UInt16 × Bool × List Char
  | 0, cs => ([], false, cs)
  | room + 1, cs =>
    let dotted := if room = 0 then none else (readSeparator? first cs).bind readV4?
    match dotted with
    | some ((a, b, c, d), rest) => ([groupOf a b, groupOf c d], true, rest)
    | none => match (readSeparator? first cs).bind readGroup? with
      | some (g, rest) =>
        let (gs, ended, rest) := readGroups false room rest
        (g :: gs, ended, rest)
      | none => ([], false, cs)

/-- Eight groups from a list, with zeros for what is missing. -/
def groupsOf (gs : List UInt16) : Vector UInt16 8 := .ofFn fun i => gs.getD i.val 0

/-- A longer address in front of a text. -/
def readV6? (cs : List Char) : Option (Vector UInt16 8 × List Char) :=
  let (front, ended, rest) := readGroups true 8 cs
  if front.length = 8 then some (groupsOf front, rest)
  else if ended then none
  else do
    let rest ← readChar? ':' (← readChar? ':' rest)
    let (back, _, rest) := readGroups true (7 - front.length) rest
    pure (groupsOf (front ++ List.replicate (8 - front.length - back.length) 0 ++ back), rest)

/-- A whole text as the address of a host. -/
def Address.parse? (text : String) : Option Address :=
  match readV4? text.toList with
  | some ((a, b, c, d), []) => some (.v4 a b c d)
  | _ => match readV6? text.toList with
    | some (groups, []) => some (.v6 groups)
    | _ => none

/-- The port behind an address. -/
def readPort? (cs : List Char) : Option (UInt16 × List Char) := do
  let (port, rest) ← readNumber? 10 65536 (← readChar? ':' cs)
  pure (.ofNat port, rest)

/-- The zone behind a longer address, if it has one. -/
def readScope (cs : List Char) : UInt32 × List Char :=
  match (readChar? '%' cs).bind (readNumber? 10 0x100000000) with
  | some (scope, rest) => (.ofNat scope, rest)
  | none => (0, cs)

/-- A whole text as the address of a socket. -/
def Endpoint.parse? (text : String) : Option Endpoint :=
  let short : Option Endpoint := do
    let ((a, b, c, d), rest) ← readV4? text.toList
    let (port, rest) ← readPort? rest
    if rest.isEmpty then some ⟨.v4 a b c d, 0, port⟩ else none
  let long : Option Endpoint := do
    let (groups, rest) ← readV6? (← readChar? '[' text.toList)
    let (scope, rest) := readScope rest
    let (port, rest) ← readPort? (← readChar? ']' rest)
    if rest.isEmpty then some ⟨.v6 groups, scope, port⟩ else none
  short.or long

/-! ## Printing -/

/-- A dotted address. -/
def dotted (a b c d : UInt8) : String := ".".intercalate ([a, b, c, d].map (toString ·.toNat))

/-- Groups in hexadecimal digits with colons between. -/
def colons (gs : List UInt16) : String :=
  ":".intercalate (gs.map fun g => String.ofList (Nat.toDigits 16 g.toNat))

/-- How many zero groups begin a list. -/
def zeroRun (gs : List UInt16) : Nat := (gs.takeWhile (· = 0)).length

/-- The start and the length of the longest run of zero groups; of equal ones the first. -/
def longestZeroRun (gs : List UInt16) : Nat × Nat :=
  (List.range gs.length).foldl
    (fun best i => let run := zeroRun (gs.drop i); if best.2 < run then (i, run) else best) (0, 0)

/-- A longer address. -/
def printV6 (groups : Vector UInt16 8) : String :=
  let gs := groups.toList
  match gs with
  | [0, 0, 0, 0, 0, 0xffff, x, y] =>
    "::ffff:" ++ dotted (x >>> 8).toUInt8 x.toUInt8 (y >>> 8).toUInt8 y.toUInt8
  | _ =>
    let (start, length) := longestZeroRun gs
    if length > 1 then colons (gs.take start) ++ "::" ++ colons (gs.drop (start + length))
    else colons gs

/-- The printed form of the address of a host. -/
def Address.print : Address → String
  | .v4 a b c d => dotted a b c d
  | .v6 groups => printV6 groups

/-- The printed form of the address of a socket. -/
def Endpoint.print (e : Endpoint) : String :=
  match e.address with
  | .v4 a b c d => s!"{dotted a b c d}:{e.port.toNat}"
  | .v6 groups =>
    let zone := if e.scope = 0 then "" else s!"%{e.scope.toNat}"
    s!"[{printV6 groups}{zone}]:{e.port.toNat}"

end PeerCall.Net
