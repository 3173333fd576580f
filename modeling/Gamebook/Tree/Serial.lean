import Gamebook.Tree.Walk

/-!
Trees as structured data: the kind of a node with its data, its range, and then its markers, its
attached data and its children, as far as there are any. Members stand in increasing order of
their names.
-/

namespace Gamebook

namespace Kind

/-- A kind that carries data: its name, and the data below it. -/
def tagged (kind : Kind) (members : List (String × Json)) : Json :=
  .obj [(kind.name, .sorted members)]

/-- The kind as structured data. -/
def toJson (kind : Kind) : Json :=
  match kind with
  | scene name uri => kind.tagged [("name", .ofOption name), ("uri", .ofOption uri)]
  | line number indent type =>
    kind.tagged
      [("number", .ofNat number), ("indent", .ofNat indent), ("line_type", .str type.name)]
  | indentation depth unit => kind.tagged [("depth", .ofNat depth), ("unit", .str unit.key)]
  | boolean value => .obj [(kind.name, .bool value)]
  | expression type | binaryExpression type | stringExpression type =>
    kind.tagged [("cs_type", .str type.name)]
  | term type form =>
    let shape := match form with
      | .call function => .obj [("Call", .str function.name)]
      | form => .str form.render
    kind.tagged [("cs_type", .str type.name), ("form", shape)]
  | operator op type => kind.tagged [("op", .str op.name), ("cs_type", .str type.name)]
  | variableDeclaration declaration => kind.tagged [("kind", .str declaration.keyword)]
  | command name | standardCommand name | flowCommand name => kind.tagged [("name", .str name)]
  | setCommand byReference => kind.tagged [("by_reference", .bool byReference)]
  | choiceCommand fake => kind.tagged [("fake", .bool fake)]
  | choiceOption reuse conditional =>
    kind.tagged
      [("reuse", .ofOption (reuse.map (·.name))), ("conditional", .bool conditional)]
  | variableReplacement fold => kind.tagged [("case_fold", .str fold.name)]
  | kind => .str kind.name

end Kind

namespace Marker

/-- The marker as structured data. -/
def toJson (marker : Marker) : Json :=
  .sorted
    [("rule", .sorted [("id", .str marker.rule.id), ("message", .str marker.rule.message)]),
     ("level", .str marker.level.key), ("node", .ofNat marker.node),
     ("offset", .ofNat marker.offset), ("length", .ofNat marker.length),
     ("message", .str marker.message)]

end Marker

namespace Node

/-- The members that every node has, then its markers and its attached data, if any. -/
def members (node : Node) : List (String × Json) :=
  [("kind", node.kind.toJson), ("offset", .ofNat node.offset), ("length", .ofNat node.length)] ++
    (if node.issues.isEmpty then [] else [("issues", .arr (node.issues.map (·.toJson)))]) ++
    (if node.data.isEmpty then [] else [("data", .obj node.data.entries)])

end Node

namespace Tree

/-- A node with all that is below it, to a depth of at most `budget`. -/
def subtreeJson (tree : Tree) : Nat → Nat → Json
  | 0, _ => .null
  | budget + 1, id =>
    match tree.node? id with
    | none => .null
    | some node =>
      let below := node.children.map (subtreeJson tree budget)
      .sorted (node.members ++ if below.isEmpty then [] else [("children", .arr below)])

/-- The whole tree as structured data. -/
def toJson (tree : Tree) : Json := tree.subtreeJson (tree.size + 1) root

end Tree

end Gamebook
