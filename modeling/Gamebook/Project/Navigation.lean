import Gamebook.Project.Basic

/-!
Finding one's way through a project. The name at an offset leads to a binding or to a scene:
variables are looked up in their scene and then among the variables of the whole game, which the
startup scene declares; a label belongs to its own scene or to the one that is named beside it.
Every place that leads to the same target is a reference to it, the declaration included.
-/

namespace Gamebook

/-- A range of a document. -/
structure Location where
  uri : Uri
  offset : Nat
  length : Nat
  deriving DecidableEq, Repr, Inhabited

namespace Location

/-- Where a node of a scene is. -/
def ofNode (entry : Entry) (id : Nat) : Location :=
  let node := entry.tree.node? id
  ⟨entry.uri, (node.map (·.offset)).getD 0, (node.map (·.length)).getD 0⟩

end Location

/-- What a name leads to. -/
inductive Target where
  | symbol (owner : Entry) (binding : Binding)
  | scene (entry : Entry)
  deriving Repr, Inhabited

namespace Target

/-- Whether two names lead to one and the same thing. -/
def same : Target → Target → Bool
  | symbol owner binding, symbol other found => owner.name == other.name && binding.same found
  | scene entry, scene other => entry.name == other.name
  | _, _ => false

/-- Where a symbol is declared: at the name that the declaring node has below it. -/
def declaration (owner : Entry) (symbol : Symbol) : Location :=
  let tree := owner.tree
  let isName := fun id =>
    (tree.kind? id == some .var || tree.kind? id == some .label) && tree.name id == symbol.name
  Location.ofNode owner (((tree.children symbol.node).find? isName).getD symbol.node)

/-- Where a target is; a scene is at the beginning of its document. -/
def location : Target → Location
  | symbol owner binding => declaration owner binding.symbol
  | scene entry => ⟨entry.uri, 0, 0⟩

end Target

namespace Project

/-- A variable of the whole game: the last one of its name that a scene declares. -/
def global? (entry : Entry) (name : String) : Option Binding :=
  (entry.scopes.bindings ScopeTree.root).reverse.find? fun binding =>
    binding.symbol.isGlobal && binding.symbol.name == name

/-- What a name stands for at an offset in a scene, and the scene that declares it. -/
def resolve (project : Project) (scene name : String) (type : ReferenceType) (offset : Nat) :
    Option (Entry × Binding) :=
  match project.scene? scene with
  | none => none
  | some entry =>
    match entry.lookup.find? name type offset with
    | some binding => some (entry, binding)
    | none =>
      if type = .var then
        match project.startup? with
        | none => none
        | some startup =>
          if startup.name = entry.name then none
          else (global? startup name).map fun binding => (startup, binding)
      else none

/-- The label of a scene. -/
def labelIn (project : Project) (scene label : String) : Option (Entry × Binding) :=
  match project.scene? scene with
  | none => none
  | some entry => (entry.lookup.find? label .label 0).map fun binding => (entry, binding)

/-- What a node leads to. -/
def targetOf? (project : Project) (entry : Entry) (id : Nat) : Option Target :=
  let tree := entry.tree
  match tree.node? id with
  | none => none
  | some node =>
    let name := tree.name id
    let found := match node.kind with
      | .var => project.resolve entry.name name .var node.offset
      | .label =>
        match Lookup.qualifier? tree id with
        | some scene => project.labelIn (tree.name scene) name
        | none => project.resolve entry.name name .label node.offset
      | _ => none
    if node.kind = .sceneRef then (project.scene? name).map .scene
    else found.map fun (owner, binding) => .symbol owner binding

/-- The node that a place in a scene stands for: the deepest one there, or the label of a
reference to a label. -/
def cursor? (entry : Entry) (offset : Nat) : Option Nat :=
  match entry.tree.nodeAt? offset with
  | none => none
  | some id =>
    if entry.tree.kind? id = some .labelRef then entry.tree.childWhere? id (· == .label)
    else some id

/-- What the name at an offset of a document leads to. -/
def targetAt? (project : Project) (uri : Uri) (offset : Nat) : Option Target :=
  match project.sceneAt? uri with
  | none => none
  | some entry => (cursor? entry offset).bind (project.targetOf? entry)

/-- Where the name at an offset of a document is declared. -/
def definition? (project : Project) (uri : Uri) (offset : Nat) : Option Location :=
  (project.targetAt? uri offset).map (·.location)

/-- The places of a scene that lead to a target. -/
def referencesIn (project : Project) (target : Target) (entry : Entry) : List Location :=
  let ids := entry.tree.ids.filter fun id => (project.targetOf? entry id).any (·.same target)
  ids.map (Location.ofNode entry)

/-- All places that lead where the name at an offset of a document leads, scene by scene. -/
def references (project : Project) (uri : Uri) (offset : Nat) : List Location :=
  match project.targetAt? uri offset with
  | none => []
  | some target => project.scenes.values.flatMap (project.referencesIn target)

end Project

end Gamebook
