import Gamebook.Lookup

/-!
Trees without notes. What a tree answers about its nodes, their ranges and their texts does not depend on
the data that is attached to them, so that a tree with its scopes noted in it answers as it did before.
-/

namespace Gamebook

def Node.bare (node : Node) : Node := { node with data := .empty }

namespace Tree

def bare (tree : Tree) : Tree := { tree with nodes := tree.nodes.map Node.bare }

variable (tree : Tree) (id offset : Nat)

theorem node?_bare : tree.bare.node? id = (tree.node? id).map Node.bare := Array.getElem?_map

/-- Trees that are the same without notes have the same nodes, notes apart. -/
theorem exists_node?_of_bare_eq {left right : Tree} {node : Node} (h : left.bare = right.bare)
    (hnode : right.node? id = some node) : ∃ other, left.node? id = some other ∧ other.bare = node.bare := by
  have hplain := node?_bare left id
  rw [h, node?_bare, hnode, Option.map_some] at hplain
  exact Option.map_eq_some_iff.mp hplain.symm

@[simp] theorem size_bare : tree.bare.size = tree.size := Array.size_map

@[simp] theorem kind?_bare : tree.bare.kind? id = tree.kind? id := by
  rw [kind?, node?_bare, Option.map_map]
  rfl

@[simp] theorem children_bare : tree.bare.children id = tree.children id := by
  rw [children, node?_bare, Option.map_map]
  rfl

@[simp] theorem parent?_bare : tree.bare.parent? id = tree.parent? id := by
  rw [parent?, node?_bare, Option.bind_map]
  rfl

@[simp] theorem text_bare : tree.bare.text id = tree.text id := by
  rw [text, text, node?_bare]
  cases tree.node? id <;> rfl

@[simp] theorem name_bare : tree.bare.name id = tree.name id := by rw [name, name, text_bare]

@[simp] theorem issues_bare : tree.bare.issues id = tree.issues id := by
  rw [issues, issues, node?_bare, Option.map_map]
  rfl

@[simp] theorem touches_bare : tree.bare.touches id offset = tree.touches id offset := by
  rw [touches, node?_bare, Option.any_map]
  rfl

@[simp] theorem childAt?_bare : tree.bare.childAt? id offset = tree.childAt? id offset := by
  simp only [childAt?, children_bare, touches_bare]

@[simp] theorem childWhere?_bare (test : Kind → Bool) : tree.bare.childWhere? id test = tree.childWhere? id test := by
  simp only [childWhere?, children_bare, kind?_bare]

theorem descend_bare (budget : Nat) : tree.bare.descend offset budget id = tree.descend offset budget id := by
  induction budget generalizing id with
  | zero => rfl
  | succ budget ih => simp only [descend, childAt?_bare, ih]

@[simp] theorem nodeAt?_bare : tree.bare.nodeAt? offset = tree.nodeAt? offset := by
  have hempty : tree.bare.isEmpty = tree.isEmpty := by
    rw [isEmpty, isEmpty, Array.isEmpty, Array.isEmpty, bare, Array.size_map]
  simp only [nodeAt?, path, hempty, size_bare, descend_bare]

@[simp] theorem qualifier?_bare : Lookup.qualifier? tree.bare id = Lookup.qualifier? tree id := by
  simp only [Lookup.qualifier?, kind?_bare, parent?_bare, childWhere?_bare]

theorem bare_attach (key : String) (value : Json) : (tree.attach id key value).bare = tree.bare := by
  rw [attach, modify, bare, bare]
  refine congrArg (Tree.mk tree.source) (Array.ext_getElem? fun other => ?_)
  rw [Array.getElem?_map, Array.getElem?_map, Array.getElem?_modify]
  split
  · cases tree.nodes[other]? <;> rfl
  · rfl

end Tree

/-- Building scopes only attaches data to the tree. -/
theorem Scope.bare_build (tree : Tree) : (Scope.build tree).1.bare = tree.bare := by
  rw [Scope.build]
  generalize tree.walk _ _ _ = builder
  induction builder.bound generalizing tree with
  | nil => rfl
  | cons pair more ih => rw [List.foldl_cons, ih, Tree.bare_attach]

end Gamebook
