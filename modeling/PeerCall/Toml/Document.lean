import PeerCall.Config.Setting
import PeerCall.Toml.Statement

/-!
# TOML documents

The tree of settings that statements build. Each table is opened once by a header and each key set
once. A table that only came about on the way to another may still be opened; one that dotted keys
made takes further dotted keys, and one with a header of its own takes none.
-/

namespace PeerCall.Toml

/-- A place in the tree. -/
inductive Node
  | value (s : Setting)
  /-- A table; `implicit` if no header opened it yet, `dotted` if dotted keys made it. -/
  | table (implicit dotted : Bool) (members : List (String × Node))
  /-- The tables of a list, last first. -/
  | tables (items : List Node)

namespace Node

/-- The empty document. -/
def root : Node := .table false false []

/-- Members with the one of a name replaced, or with it at the end. -/
def setMember (name : String) (node : Node) : List (String × Node) → List (String × Node)
  | [] => [(name, node)]
  | (other, old) :: rest =>
    if other = name then (name, node) :: rest else (other, old) :: setMember name node rest

/-- Change the table at a path. Tables that are missing on the way are made; in a list of tables
the way leads through its last one. -/
def update (dotted : Bool) (change : Node → Option Node) : Path → Node → Option Node
  | [], node => change node
  | name :: path, .table implicit isDotted members =>
    match members.lookup name with
    | none => do
      let child ← update dotted change path (.table true dotted [])
      some (.table implicit isDotted (setMember name child members))
    | some (.table implicit' isDotted' members') =>
      if dotted && !implicit' then none
      else do
        let child ← update dotted change path (.table implicit' isDotted' members')
        some (.table implicit isDotted (setMember name child members))
    | some (.tables (last :: others)) => do
      let child ← update dotted change path last
      some (.table implicit isDotted (setMember name (.tables (child :: others)) members))
    | some _ => none
  | _ :: _, _ => none

/-- Set a key that is not set yet. Only dotted keys reach a table that dotted keys made. -/
def setKey (key : Path) (s : Setting) (node : Node) : Option Node :=
  match key.getLast? with
  | none => none
  | some name =>
    let path := key.dropLast
    update (!path.isEmpty) (fun target =>
      match target with
      | .table implicit isDotted members =>
        if isDotted = path.isEmpty || (members.lookup name).isSome then none
        else some (.table implicit isDotted (setMember name (.value s) members))
      | _ => none) path node

/-- Open a table by its header. -/
def openTable (path : Path) (node : Node) : Option Node :=
  match path.getLast? with
  | none => none
  | some name =>
    update false (fun target =>
      match target with
      | .table implicit isDotted members =>
        let opened := fun inner => some (Node.table implicit isDotted (setMember name inner members))
        match members.lookup name with
        | none => opened (.table false false [])
        | some (.table true false inner) => opened (.table false false inner)
        | some _ => none
      | _ => none) path.dropLast node

/-- Open one more table of a list. -/
def openItem (path : Path) (node : Node) : Option Node :=
  match path.getLast? with
  | none => none
  | some name =>
    update false (fun target =>
      match target with
      | .table implicit isDotted members =>
        let opened := fun inner => some (Node.table implicit isDotted (setMember name inner members))
        match members.lookup name with
        | none => opened (.tables [.table false false []])
        | some (.tables items) => opened (.tables (.table false false [] :: items))
        | some _ => none
      | _ => none) path.dropLast node

mutual

/-- What a place in the tree is as a setting. -/
def toSetting : Node → Setting
  | .value s => s
  | .table _ _ members => .group (toMembers members)
  | .tables items => .list (toItems items).reverse

/-- The members of a table as settings. -/
def toMembers : List (String × Node) → List (String × Setting)
  | [] => []
  | (name, node) :: rest => (name, toSetting node) :: toMembers rest

/-- The tables of a list as settings. -/
def toItems : List Node → List Setting
  | [] => []
  | node :: rest => toSetting node :: toItems rest

end

end Node

mutual

/-- What a value is as a setting; none if an inline table sets a key twice. -/
def Value.toSetting : Value → Option Setting
  | .text s => some (.text s)
  | .whole n => some (.whole n)
  | .flag b => some (.flag b)
  | .fraction | .moment => some .other
  | .list items => (Value.toItems items).map .list
  | .inlineTable members => (Value.addMembers .root members).map Node.toSetting

/-- The items of a list as settings. -/
def Value.toItems : List Value → Option (List Setting)
  | [] => some []
  | v :: rest => do
    let v ← v.toSetting
    let rest ← Value.toItems rest
    some (v :: rest)

/-- The members of an inline table, set one after the other. -/
def Value.addMembers (node : Node) : List (Path × Value) → Option Node
  | [] => some node
  | (key, v) :: rest => do
    let s ← v.toSetting
    let node ← node.setKey key s
    Value.addMembers node rest

end

/-- The tree so far, and the path of the table that settings go to. -/
structure Builder where
  tree : Node
  current : Path

/-- Carry out a statement. -/
def Builder.step (b : Builder) : Statement → Option Builder
  | .set key value => do
    let s ← value.toSetting
    let tree ← b.tree.update false (Node.setKey key s) b.current
    some { b with tree }
  | .table path => do some ⟨← b.tree.openTable path, path⟩
  | .item path => do some ⟨← b.tree.openItem path, path⟩

/-- The settings of a text. -/
def parse? (text : String) : Option Setting := do
  let b ← (← statements? text).foldlM Builder.step ⟨.root, []⟩
  some b.tree.toSetting

end PeerCall.Toml
