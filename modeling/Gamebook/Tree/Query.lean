import Gamebook.Tree.Walk

/-!
Questions to a tree: which node is at an offset, which ancestor or child is of some kind, which
text a node covers. Where several children touch an offset, the last of them counts.
-/

namespace Gamebook.Tree

/-- The source text that a node covers, as far as the source goes; empty when the range does not
lie between characters. -/
def text (tree : Tree) (id : Nat) : Text :=
  match tree.node? id with
  | none => []
  | some node =>
    let stop := min node.stop (Text.bytes tree.source)
    (Text.slice? (min node.offset stop) stop tree.source).getD []

/-- The source text of a node as a string. -/
def name (tree : Tree) (id : Nat) : String := String.ofList (tree.text id)

/-- Where a node starts. -/
def startOf (tree : Tree) (id : Nat) : Position :=
  tree.lineIndex.position (((tree.node? id).map (·.offset)).getD 0)

def touches (tree : Tree) (id offset : Nat) : Bool := (tree.node? id).any (·.touches offset)

/-- The last child that touches an offset. -/
def childAt? (tree : Tree) (id offset : Nat) : Option Nat :=
  (tree.children id).reverse.find? (tree.touches · offset)

/-- The chain of last children that touch an offset, from below a node down, at most `budget` of
them. -/
def descend (tree : Tree) (offset : Nat) : Nat → Nat → List Nat
  | 0, _ => []
  | budget + 1, id =>
    match tree.childAt? id offset with
    | none => []
    | some child => child :: descend tree offset budget child

/-- The deepest node below a given one that touches an offset. -/
def deepestBelow? (tree : Tree) (id offset : Nat) : Option Nat :=
  (tree.descend offset tree.size id).getLast?

/-- The nodes from the root down to the deepest one that touches an offset; the root is there
whether or not it touches the offset. -/
def path (tree : Tree) (offset : Nat) : List Nat :=
  if tree.isEmpty then [] else root :: tree.descend offset tree.size root

/-- The deepest node that touches an offset. -/
def nodeAt? (tree : Tree) (offset : Nat) : Option Nat := (tree.path offset).getLast?

/-- The ancestors of a node from its parent up, at most `budget` of them. -/
def ancestorsWithin (tree : Tree) : Nat → Nat → List Nat
  | 0, _ => []
  | budget + 1, id =>
    match tree.parent? id with
    | none => []
    | some above => above :: ancestorsWithin tree budget above

/-- The ancestors of a node, from its parent up to the root. -/
def ancestors (tree : Tree) (id : Nat) : List Nat := tree.ancestorsWithin tree.size id

/-- The nearest ancestor of a kind that passes the test. -/
def ancestorWhere? (tree : Tree) (id : Nat) (test : Kind → Bool) : Option Nat :=
  (tree.ancestors id).find? fun above => (tree.kind? above).any test

/-- The first child of a kind that passes the test. -/
def childWhere? (tree : Tree) (id : Nat) (test : Kind → Bool) : Option Nat :=
  (tree.children id).find? fun child => (tree.kind? child).any test

/-- Whether the range of one node lies within the range of another. -/
def encloses (tree : Tree) (outer inner : Nat) : Bool :=
  match tree.node? outer, tree.node? inner with
  | some outer, some inner => outer.covers inner.offset inner.stop
  | _, _ => false

end Gamebook.Tree
