import PeerCall.Json.Value

/-!
# Settings

What a settings document holds, whatever its format: flags, whole numbers, texts, lists and named
settings. A group of settings is written by name, each name at most once and none unknown, or as a
list in the order of the names; what is missing keeps its default.
-/

namespace PeerCall

/-- A value in a settings document. -/
inductive Setting
  /-- An explicit nothing. -/
  | absent
  | flag (b : Bool)
  | whole (n : Int)
  | text (s : String)
  | list (items : List Setting)
  | group (members : List (String × Setting))
  /-- A value that no setting takes. -/
  | other

namespace Setting

mutual

/-- A JSON value as a setting; a name without a value stands for none. -/
def ofJson : Json.Value → Option Setting
  | .null => some .absent
  | .bool b => some (.flag b)
  | .natural n => some (.whole n)
  | .otherNumber => some .other
  | .text (some s) => some (.text s)
  | .text none => none
  | .array items => (ofJsonItems items).map .list
  | .object members => (ofJsonMembers members).map .group

/-- The items of an array as settings. -/
def ofJsonItems : List Json.Value → Option (List Setting)
  | [] => some []
  | item :: rest => do
    let item ← ofJson item
    let rest ← ofJsonItems rest
    some (item :: rest)

/-- The members of an object as settings. -/
def ofJsonMembers : List (Json.Text × Json.Value) → Option (List (String × Setting))
  | [] => some []
  | (name, value) :: rest => do
    let name ← name
    let value ← ofJson value
    let rest ← ofJsonMembers rest
    some ((name, value) :: rest)

end

/-- What a document may do with lists that stand for groups. -/
inductive ListRule
  /-- A list longer than the group is an error. -/
  | exact
  /-- Further items do not count. -/
  | lenient
  deriving DecidableEq

/-- The members of a group with the given names. -/
def fields? (rule : ListRule) (names : List String) : Setting → Option (String → Option Setting)
  | .group members =>
    if members.all (fun m => names.contains m.1)
      && names.all (fun name => (members.filter (·.1 = name)).length ≤ 1)
    then some fun name => members.lookup name
    else none
  | .list items =>
    if rule = .exact && items.length > names.length then none
    else some fun name => (names.zip items).lookup name
  | _ => none

/-- A text, or its default. -/
def textOr (default : String) : Option Setting → Option String
  | none => some default
  | some (.text s) => some s
  | some _ => none

/-- A text that may be absent. -/
def optionalText : Option Setting → Option (Option String)
  | none | some .absent => some none
  | some (.text s) => some (some s)
  | some _ => none

/-- A flag, or its default. -/
def flagOr (default : Bool) : Option Setting → Option Bool
  | none => some default
  | some (.flag b) => some b
  | some _ => none

/-- A natural number below a limit, or its default. -/
def naturalOr (limit default : Nat) : Option Setting → Option Nat
  | none => some default
  | some (.whole n) => if 0 ≤ n && n < limit then some n.toNat else none
  | some _ => none

/-- A group read by a function, or its default. -/
def groupOr {α : Type} (read : Setting → Option α) (default : α) : Option Setting → Option α
  | none => some default
  | some s => read s

end Setting

end PeerCall
