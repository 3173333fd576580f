import Gamebook.Command
import Gamebook.Scope
import Gamebook.Tree.Query

/-!
The scopes of a scene that was read. An option and a branch of a conditional open a scope; what is
declared on a line is bound in the innermost scope around it, except for the variables of the
whole game, which are bound in the root. The nodes that declare something are told the scope they
are bound in.
-/

namespace Gamebook.Scope

/-- The name under which a declaring node holds the number of its scope. -/
def dataKey : String := "scope"

/-- Scopes under construction, and which node was bound in which of them. -/
structure Builder where
  scopes : ScopeTree := .initial
  bound : List (Nat × Nat) := []
  deriving Repr, Inhabited

namespace Builder

/-- Opens a scope over the range of a node. -/
def nest (builder : Builder) (node : Node) : Builder :=
  let parent := builder.scopes.find node.offset node.length
  { builder with scopes := (builder.scopes.nest parent node.offset node.length).2 }

/-- The innermost scope around a node. -/
def innermost (builder : Builder) (node : Node) : Nat :=
  builder.scopes.find node.offset node.length

def bind (builder : Builder) (scope : Nat) (symbol : Symbol) : Builder where
  scopes := builder.scopes.declare scope symbol
  bound := builder.bound ++ [(symbol.node, scope)]

/-- Binds a declared variable, with its value. -/
def bindVariable (builder : Builder) (tree : Tree) (id : Nat) (node : Node)
    (declaration : Declaration) : Builder :=
  match tree.childWhere? id (· == .var) with
  | none => builder
  | some name =>
    let value := tree.childWhere? id (·.isExpression)
    let scope := match declaration with
      | .temp => builder.innermost node
      | .create => ScopeTree.root
    builder.bind scope
      { name := tree.name name
        value := value.map tree.name
        referenceType := .var
        node := id
        offset := node.offset
        valueType := ((value.bind tree.kind?).bind (·.valueType?)).getD .unknown
        declaration := some declaration }

/-- Binds the parameters of a subroutine. -/
def bindParameters (builder : Builder) (tree : Tree) (id : Nat) (node : Node) : Builder :=
  let scope := builder.innermost node
  let names := node.children.filter fun child => tree.kind? child == some .var
  names.foldl
    (fun builder name =>
      builder.bind scope
        { name := tree.name name
          value := none
          referenceType := .var
          node := id
          offset := node.offset
          valueType := .unknown
          declaration := some .temp })
    builder

/-- Binds a declared label. -/
def bindLabel (builder : Builder) (tree : Tree) (id : Nat) (node : Node) : Builder :=
  match tree.childWhere? id (· == .label) with
  | none => builder
  | some label =>
    builder.bind (builder.innermost node)
      { name := tree.name label
        value := none
        referenceType := .label
        node := id
        offset := node.offset
        valueType := .unknown
        declaration := none }

/-- What a node contributes. -/
def visit (tree : Tree) (builder : Builder) (id : Nat) : Builder :=
  match tree.node? id with
  | none => builder
  | some node =>
    match node.kind with
    | .choiceOption _ _ => builder.nest node
    | .standardCommand name =>
      if Command.isConditional name then builder.nest node
      else if name = "params" then builder.bindParameters tree id node
      else builder
    | .variableDeclaration declaration => builder.bindVariable tree id node declaration
    | .labelDeclaration => builder.bindLabel tree id node
    | _ => builder

end Builder

/-- The scopes of a tree, and the tree with its declaring nodes annotated. -/
def build (tree : Tree) : Tree × ScopeTree :=
  let built := tree.walk (fun builder id => (builder.visit tree id, true)) Tree.root ({} : Builder)
  let annotated := built.bound.foldl
    (fun tree (id, scope) => tree.attach id dataKey (.ofNat scope)) tree
  (annotated, built.scopes)

end Gamebook.Scope
