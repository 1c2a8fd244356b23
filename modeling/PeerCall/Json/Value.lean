import PeerCall.Json.Token

/-!
# JSON values

A JSON text as a tree, with the members of an object in the order they were written, repeated
names included. The reader goes over the tokens once with the open containers on a stack, so that
nesting of any depth is read.
-/

namespace PeerCall.Json

/-- A JSON value. -/
inductive Value
  | null
  | bool (b : Bool)
  | natural (n : Nat)
  | otherNumber
  | text (t : Text)
  | array (items : List Value)
  | object (members : List (Text × Value))

/-- A container that is still open, with what it holds so far, last first. -/
inductive Open
  | array (items : List Value)
  | object (members : List (Text × Value)) (name : Text)

/-- What may come next. -/
inductive Expect
  /-- A value. -/
  | value
  /-- A value, or the end of an array just opened. -/
  | valueOrEnd
  /-- A member's name. -/
  | name
  /-- A member's name, or the end of an object just opened. -/
  | nameOrEnd
  /-- The colon after a name. -/
  | colon (name : Text)
  /-- What follows a complete value: a comma or the end of the container around it. -/
  | after
  deriving DecidableEq

/-- Where the reader stands: the open containers, the members of the innermost one where a name is
due, and the complete value where one was just read. -/
structure Reader where
  stack : List Open
  /-- Members read so far of an object whose next name is due, last first. -/
  members : List (Text × Value)
  expect : Expect
  /-- The value just completed. -/
  last : Option Value

/-- Before the first token. -/
def Reader.start : Reader := ⟨[], [], .value, none⟩

/-- A value is complete. -/
def Reader.complete (r : Reader) (v : Value) : Reader :=
  { r with members := [], expect := .after, last := some v }

/-- The value that a token alone stands for. -/
def Token.atom? : Token → Option Value
  | .null => some .null
  | .bool b => some (.bool b)
  | .natural n => some (.natural n)
  | .otherNumber => some .otherNumber
  | .text t => some (.text t)
  | _ => none

/-- A token where a value is due. -/
def Reader.startValue (r : Reader) (t : Token) : Option Reader :=
  match t with
  | .openBracket => some ⟨.array [] :: r.stack, [], .valueOrEnd, none⟩
  | .openBrace => some ⟨r.stack, [], .nameOrEnd, none⟩
  | t => t.atom?.map r.complete

/-- Take one token. The members of an object wait in `members` while a name is due, and on the
stack while a value is. -/
def Reader.step (r : Reader) (t : Token) : Option Reader :=
  match r.expect, t with
  | .valueOrEnd, .closeBracket =>
    match r.stack with
    | .array items :: stack => some (Reader.complete ⟨stack, [], .after, none⟩ (.array items.reverse))
    | _ => none
  | .value, t | .valueOrEnd, t => r.startValue t
  | .nameOrEnd, .closeBrace => some (r.complete (.object []))
  | .name, .text t | .nameOrEnd, .text t => some { r with expect := .colon t }
  | .colon name, .colon => some ⟨.object r.members name :: r.stack, [], .value, none⟩
  | .after, .comma =>
    match r.stack, r.last with
    | .array items :: stack, some v => some ⟨.array (v :: items) :: stack, [], .value, none⟩
    | .object members name :: stack, some v => some ⟨stack, (name, v) :: members, .name, none⟩
    | _, _ => none
  | .after, .closeBracket =>
    match r.stack, r.last with
    | .array items :: stack, some v =>
      some (Reader.complete ⟨stack, [], .after, none⟩ (.array (v :: items).reverse))
    | _, _ => none
  | .after, .closeBrace =>
    match r.stack, r.last with
    | .object members name :: stack, some v =>
      some (Reader.complete ⟨stack, [], .after, none⟩ (.object ((name, v) :: members).reverse))
    | _, _ => none
  | _, _ => none

/-- The value that tokens make up, if they are one value and nothing else. -/
def ofTokens? (tokens : List Token) : Option Value := do
  let r ← tokens.foldlM Reader.step Reader.start
  match r.stack, r.expect with
  | [], .after => r.last
  | _, _ => none

/-- The value that a text holds. -/
def parse? (text : String) : Option Value := (lex text.toList).bind ofTokens?

/-- Members of an object by their names; none where a name has no value. -/
def namedMembers? (members : List (Text × Value)) : Option (List (String × Value)) :=
  members.mapM fun (name, v) => name.map (·, v)

end PeerCall.Json
