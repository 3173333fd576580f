import Gamebook.Scope.Build

/-!
Looking up names in a scene. The search begins in the scope around an offset and goes outward, so
that the innermost declaration counts, and in one scope the last. A label that no scope around
declares is looked for in the whole scene. Two names refer to the same thing when they lead to the
same declaration.
-/

namespace Gamebook

/-- A scene with its scopes. -/
structure Lookup where
  tree : Tree
  scopes : ScopeTree
  deriving Repr, Inhabited

namespace Lookup

/-- What a name stands for at an offset. -/
def find? (lookup : Lookup) (name : String) (type : ReferenceType) (offset : Nat) :
    Option Binding :=
  let around := lookup.scopes.outward (lookup.scopes.find offset 0)
  match around.findSome? (lookup.scopes.findIn? · name type offset) with
  | some binding => some binding
  | none =>
    if type = .label then
      lookup.scopes.allBindings.find? (·.symbol.answers name .label)
    else none

/-- The scene reference that stands beside a label. -/
def qualifier? (tree : Tree) (id : Nat) : Option Nat :=
  if tree.kind? id = some .label then
    match tree.parent? id with
    | none => none
    | some above =>
      if tree.kind? above = some .labelRef then tree.childWhere? above (· == .sceneRef) else none
  else none

/-- What a node refers to by its text; unknown for nodes that are no names. -/
def referenceType (lookup : Lookup) (id : Nat) : ReferenceType :=
  ((lookup.tree.kind? id).map (·.referenceType)).getD .unknown

/-- What a node stands for. A label beside a scene belongs to that scene and is not looked up
here. -/
def ofNode? (lookup : Lookup) (id : Nat) : Option Binding :=
  let type := lookup.referenceType id
  if type = .unknown || (qualifier? lookup.tree id).isSome then none
  else
    match lookup.tree.node? id with
    | none => none
    | some node => lookup.find? (lookup.tree.name id) type node.offset

/-- Whether a node refers to a binding. -/
def refersTo (lookup : Lookup) (id : Nat) (binding : Binding) : Bool :=
  binding.symbol.answers (lookup.tree.name id) (lookup.referenceType id) &&
    (lookup.ofNode? id).any (·.same binding)

/-- The nodes that refer to a binding, its declaration included. -/
def references (lookup : Lookup) (binding : Binding) : List Nat :=
  lookup.tree.ids.filter (lookup.refersTo · binding)

/-- Adds a binding unless one of the same name and type is there already. -/
def addVisible (found : List Binding) (binding : Binding) : List Binding :=
  let symbol := binding.symbol
  if found.any (·.symbol.answers symbol.name symbol.referenceType) then found
  else found ++ [binding]

/-- What can be named at an offset, of the given type or of all: from the inside out, the last
declared first, and each name once. -/
def visible (lookup : Lookup) (offset : Nat) (type : Option ReferenceType) : List Binding :=
  let around := lookup.scopes.outward (lookup.scopes.find offset 0)
  let candidates := around.flatMap fun scope => (lookup.scopes.bindings scope).reverse
  let wanted := candidates.filter fun binding =>
    type.all (· == binding.symbol.referenceType) && binding.symbol.countsAt offset
  wanted.foldl addVisible []

end Lookup

end Gamebook
