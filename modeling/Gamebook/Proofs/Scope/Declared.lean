import Gamebook.Scope.Build
import Gamebook.Proofs.Tree.Alike

/-!
What a node declares. The symbols that a node binds are read off the node and its children; which scope
they are bound in is another matter. So nodes that correspond, with children that do, declare the same.
-/

namespace Gamebook

/-- The symbol is the same one, where it corresponds and declared by the given node. -/
structure Symbol.Alike (c : Correspondence) (owner : Nat) (left right : Symbol) : Prop where
  same : right = { left with node := owner, offset := right.offset }
  place : c.range left.offset left.offset right.offset right.offset

/-- Children that are the same word, unless they are such that lines can stand in them. -/
structure Tree.SameWord (left right : Tree) (child other : Nat) : Prop where
  kind : ∀ kind, kind.holdsLines = false → (left.kind? child = some kind ↔ right.kind? other = some kind)
  name : ∀ kind, kind.holdsLines = false → left.kind? child = some kind → right.name other = left.name child

namespace Scope

/-- The symbols that a node declares: those that are bound when it is visited and there is no scope but
the root. -/
def declared (tree : Tree) (id : Nat) : List Symbol :=
  ((({} : Builder).visit tree id).scopes.symbols ScopeTree.root).toList

/-! ### Binding in the root -/

theorem innermost_initial (node : Node) : ({} : Builder).innermost node = ScopeTree.root := by
  have hstarted : ScopeTree.initial.startedBy node.offset (ScopeTree.initial.children ScopeTree.root) = 0 := by
    rw [ScopeTree.startedBy, partitionPoint, bisect]
    rfl
  have hchild : ScopeTree.initial.childAt? ScopeTree.root node.offset node.length = none := by
    rw [ScopeTree.childAt?, hstarted]
  show ScopeTree.initial.findBelow node.offset node.length 1 ScopeTree.root = ScopeTree.root
  rw [ScopeTree.findBelow, hchild]

/-- A new scope has no symbols, and takes none from the others. -/
theorem symbols_nest (scopes : ScopeTree) (parent offset length id : Nat) :
    (scopes.nest parent offset length).2.symbols id = scopes.symbols id := by
  rw [ScopeTree.symbols, ScopeTree.symbols, ScopeTree.scope?, ScopeTree.nest, Array.getElem?_push,
    Array.size_modify, Array.getElem?_modify, ScopeTree.scope?]
  by_cases hnew : id = scopes.scopes.size
  · rw [if_pos hnew, Array.getElem?_eq_none (Nat.le_of_eq hnew.symm)]
    rfl
  · rw [if_neg hnew]
    split
    · cases scopes.scopes[id]? <;> rfl
    · rfl

theorem symbols_declare {scopes : ScopeTree} {id : Nat} (hid : id < scopes.size) (symbol : Symbol) :
    (scopes.declare id symbol).size = scopes.size ∧
      (scopes.declare id symbol).symbols id = (scopes.symbols id).push symbol := by
  have hscope : scopes.scope? id = some scopes.scopes[id] := Array.getElem?_eq_getElem hid
  refine ⟨Array.size_modify, ?_⟩
  rw [ScopeTree.symbols, ScopeTree.symbols, hscope, ScopeTree.scope?, ScopeTree.declare,
    Array.getElem?_modify, if_pos rfl, ← ScopeTree.scope?, hscope]
  rfl

theorem symbols_foldl_bind (make : Nat → Symbol) (names : List Nat) {builder : Builder}
    (hroot : ScopeTree.root < builder.scopes.size) :
    ((names.foldl (fun builder name => builder.bind ScopeTree.root (make name)) builder).scopes.symbols
      ScopeTree.root).toList = (builder.scopes.symbols ScopeTree.root).toList ++ names.map make := by
  induction names generalizing builder with
  | nil => rw [List.map_nil, List.append_nil, List.foldl_nil]
  | cons name more ih =>
      obtain ⟨hsize, hsymbols⟩ := symbols_declare hroot (make name)
      have hbound : (builder.bind ScopeTree.root (make name)).scopes =
          builder.scopes.declare ScopeTree.root (make name) := rfl
      rw [List.foldl_cons, ih (by rwa [hbound, hsize]), hbound, hsymbols, Array.toList_push,
        List.append_assoc, List.map_cons, List.singleton_append]

/-! ### The declarations -/

def variableSymbol (tree : Tree) (id : Nat) (node : Node) (declaration : Declaration) (name : Nat) : Symbol where
  name := tree.name name
  value := (tree.childWhere? id (·.isExpression)).map tree.name
  referenceType := .var
  node := id
  offset := node.offset
  valueType := (((tree.childWhere? id (·.isExpression)).bind tree.kind?).bind (·.valueType?)).getD .unknown
  declaration := some declaration

/-- The symbol of something that is declared without a value. -/
def plainSymbol (tree : Tree) (id : Nat) (node : Node) (type : ReferenceType)
    (declaration : Option Declaration) (name : Nat) : Symbol where
  name := tree.name name
  value := none
  referenceType := type
  node := id
  offset := node.offset
  valueType := .unknown
  declaration := declaration

variable {tree : Tree} {id : Nat} {node : Node}

/-- What a node declares, by its kind. -/
theorem declared_eq (hnode : tree.node? id = some node) : declared tree id =
    match node.kind with
    | .standardCommand name =>
      if name = "params" then
        (node.children.filter fun child => tree.kind? child == some .var).map
          (plainSymbol tree id node .var (some .temp))
      else []
    | .variableDeclaration declaration =>
      (tree.childWhere? id (· == .var)).toList.map (variableSymbol tree id node declaration)
    | .labelDeclaration =>
      (tree.childWhere? id (· == .label)).toList.map (plainSymbol tree id node .label none)
    | _ => [] := by
  have hroot : ScopeTree.root < ({} : Builder).scopes.size := Nat.one_pos
  simp only [declared, Builder.visit, hnode]
  cases node.kind with
  | choiceOption _ _ => exact congrArg _ (symbols_nest _ _ _ _ _)
  | standardCommand name =>
      dsimp only
      split
      · rename_i hconditional
        have hname : name ≠ "params" := by
          rintro rfl
          exact absurd hconditional (by decide)
        rw [if_neg hname]
        exact congrArg _ (symbols_nest _ _ _ _ _)
      · split
        · rw [Builder.bindParameters, innermost_initial]
          exact symbols_foldl_bind (plainSymbol tree id node .var (some .temp)) _ hroot
        · rfl
  | variableDeclaration declaration =>
      simp only [Builder.bindVariable, innermost_initial]
      cases tree.childWhere? id (· == .var) with
      | none => rfl
      | some name =>
          have hbind := symbols_foldl_bind (variableSymbol tree id node declaration) [name] hroot
          cases declaration with
          | temp => exact hbind
          | create => exact hbind
  | labelDeclaration =>
      simp only [Builder.bindLabel, innermost_initial]
      cases tree.childWhere? id (· == .label) with
      | none => rfl
      | some name => exact symbols_foldl_bind (plainSymbol tree id node .label none) [name] hroot
  | _ => rfl

/-- The ways in which a node declares a symbol: as a variable, with its value, as a label, or as a parameter. -/
inductive Declares (tree : Tree) (id : Nat) (node : Node) : Symbol → Prop
  | valued {declaration : Declaration} (h : node.kind = .variableDeclaration declaration) (name : Nat) :
      Declares tree id node (variableSymbol tree id node declaration name)
  | label (h : node.kind = .labelDeclaration) (name : Nat) :
      Declares tree id node (plainSymbol tree id node .label none name)
  | parameter (h : node.kind = .standardCommand "params") (name : Nat) :
      Declares tree id node (plainSymbol tree id node .var (some .temp) name)

theorem exists_declares {symbol : Symbol} (h : symbol ∈ declared tree id) :
    ∃ node, tree.node? id = some node ∧ Declares tree id node symbol := by
  cases hnode : tree.node? id with
  | none =>
      rw [declared, Builder.visit, hnode] at h
      cases h
  | some node =>
      refine ⟨node, rfl, ?_⟩
      rw [declared_eq hnode] at h
      split at h
      · rename_i command hkind
        split at h
        · rename_i hparams
          obtain ⟨name, _, rfl⟩ := List.mem_map.mp h
          exact .parameter (hparams ▸ hkind) name
        · cases h
      · obtain ⟨name, _, rfl⟩ := List.mem_map.mp h
        exact .valued ‹_› name
      · obtain ⟨name, _, rfl⟩ := List.mem_map.mp h
        exact .label ‹_› name
      · cases h

/-! ### Nodes that declare the same -/

section Alike

variable {c : Correspondence} {left right : Tree} {other : Nat} {node node' : Node}

theorem any_kind?_eq {child child' : Nat} (h : left.SameWord right child child') {test : Kind → Bool}
    (htest : ∀ kind, test kind = true → kind.holdsLines = false) :
    (left.kind? child).any test = (right.kind? child').any test := by
  rw [Bool.eq_iff_iff, Option.any_eq_true, Option.any_eq_true]
  constructor
  · rintro ⟨kind, hkind, hpasses⟩
    exact ⟨kind, (h.kind kind (htest kind hpasses)).mp hkind, hpasses⟩
  · rintro ⟨kind, hkind, hpasses⟩
    exact ⟨kind, (h.kind kind (htest kind hpasses)).mpr hkind, hpasses⟩

/-- The same word, of a kind that passes the test. -/
def Passing (left right : Tree) (test : Kind → Bool) (child child' : Nat) : Prop :=
  left.SameWord right child child' ∧ ∃ kind, left.kind? child = some kind ∧ test kind = true

theorem forall₂_filter_kind {children children' : List Nat}
    (h : List.Forall₂ (left.SameWord right) children children') {test : Kind → Bool}
    (htest : ∀ kind, test kind = true → kind.holdsLines = false) :
    List.Forall₂ (Passing left right test) (children.filter fun child => (left.kind? child).any test)
      (children'.filter fun child => (right.kind? child).any test) := by
  induction h with
  | nil => exact .nil
  | cons hfirst _ ih =>
      rw [List.filter_cons, List.filter_cons, ← any_kind?_eq hfirst htest]
      split
      · rename_i hpasses
        exact .cons ⟨hfirst, (Option.any_eq_true _ _).mp hpasses⟩ ih
      · exact ih

/-- The first children of some kind are the same word, if there are any. -/
theorem childWhere?_sameWord {id : Nat}
    (h : List.Forall₂ (left.SameWord right) (left.children id) (right.children other)) {test : Kind → Bool}
    (htest : ∀ kind, test kind = true → kind.holdsLines = false) :
    (left.childWhere? id test = none ∧ right.childWhere? other test = none) ∨
      ∃ child child', left.childWhere? id test = some child ∧ right.childWhere? other test = some child' ∧
        Passing left right test child child' := by
  have hfilter := forall₂_filter_kind h htest
  rw [Tree.childWhere?, Tree.childWhere?, ← List.head?_filter, ← List.head?_filter]
  generalize (left.children id).filter _ = found at hfilter ⊢
  generalize (right.children other).filter _ = found' at hfilter ⊢
  cases hfilter with
  | nil => exact .inl ⟨rfl, rfl⟩
  | cons hfirst _ => exact .inr ⟨_, _, rfl, rfl, hfirst⟩

theorem Passing.name_eq {test : Kind → Bool} {child child' : Nat} (h : Passing left right test child child')
    (htest : ∀ kind, test kind = true → kind.holdsLines = false) : right.name child' = left.name child := by
  obtain ⟨hword, kind, hkind, hpasses⟩ := h
  exact hword.name kind (htest kind hpasses) hkind

theorem Passing.kind?_eq {test : Kind → Bool} {child child' : Nat} (h : Passing left right test child child')
    (htest : ∀ kind, test kind = true → kind.holdsLines = false) : right.kind? child' = left.kind? child := by
  obtain ⟨hword, kind, hkind, hpasses⟩ := h
  rw [hkind, (hword.kind kind (htest kind hpasses)).mp hkind]

theorem holdsLines_of_eq {word : Kind} (hword : word.holdsLines = false) (kind : Kind)
    (h : (kind == word) = true) : kind.holdsLines = false := by
  rw [beq_iff_eq.mp h, hword]

theorem holdsLines_of_isExpression (kind : Kind) (h : kind.isExpression = true) : kind.holdsLines = false := by
  cases kind <;> first | rfl | cases h

theorem plainSymbol_alike {id child child' : Nat} (type : ReferenceType) (declaration : Option Declaration)
    (hoffset : c.range node.offset node.offset node'.offset node'.offset)
    (hname : right.name child' = left.name child) :
    (plainSymbol left id node type declaration child).Alike c other
      (plainSymbol right other node' type declaration child') :=
  ⟨by rw [plainSymbol, plainSymbol, hname], hoffset⟩

variable {id : Nat} (hnode : left.node? id = some node) (hnode' : right.node? other = some node')
  (hwords : List.Forall₂ (left.SameWord right) node.children node'.children)
  (hoffset : c.range node.offset node.offset node'.offset node'.offset)
include hnode hnode' hwords hoffset

/-- Nodes of one kind whose children are the same words declare the same symbols. -/
theorem forall₂_declared (hkind : node'.kind = node.kind) :
    List.Forall₂ (Symbol.Alike c other) (declared left id) (declared right other) := by
  have hchildren : List.Forall₂ (left.SameWord right) (left.children id) (right.children other) := by
    rwa [Tree.children, Tree.children, hnode, hnode']
  rw [declared_eq hnode, declared_eq hnode', hkind]
  cases node.kind with
  | standardCommand name =>
      dsimp only
      split
      · have hvar : ∀ (tree : Tree) child,
            (tree.kind? child == some .var) = (tree.kind? child).any (· == .var) := by
          intro tree child
          cases tree.kind? child <;> rfl
        simp only [hvar]
        rw [List.forall₂_map_left_iff, List.forall₂_map_right_iff]
        refine (forall₂_filter_kind hwords (holdsLines_of_eq rfl)).imp fun child child' hpassing => ?_
        exact plainSymbol_alike .var (some .temp) hoffset (hpassing.name_eq (holdsLines_of_eq rfl))
      · exact .nil
  | variableDeclaration declaration =>
      rcases childWhere?_sameWord hchildren (holdsLines_of_eq (rfl : Kind.var.holdsLines = false)) with
        ⟨hnone, hnone'⟩ | ⟨name, name', hname, hname', hpassing⟩
      · rw [hnone, hnone']
        exact .nil
      · rw [hname, hname']
        refine .cons ⟨?_, hoffset⟩ .nil
        rw [variableSymbol, variableSymbol, hpassing.name_eq (holdsLines_of_eq rfl)]
        rcases childWhere?_sameWord hchildren holdsLines_of_isExpression with
          ⟨hvalue, hvalue'⟩ | ⟨value, value', hvalue, hvalue', hsame⟩
        · rw [hvalue, hvalue']
          rfl
        · simp only [hvalue, hvalue', Option.map_some, Option.bind_some,
            hsame.name_eq holdsLines_of_isExpression, hsame.kind?_eq holdsLines_of_isExpression]
  | labelDeclaration =>
      rcases childWhere?_sameWord hchildren (holdsLines_of_eq (rfl : Kind.label.holdsLines = false)) with
        ⟨hnone, hnone'⟩ | ⟨name, name', hname, hname', hpassing⟩
      · rw [hnone, hnone']
        exact .nil
      · rw [hname, hname']
        exact .cons (plainSymbol_alike .label none hoffset (hpassing.name_eq (holdsLines_of_eq rfl))) .nil
  | _ => exact .nil

end Alike

end Scope

end Gamebook
