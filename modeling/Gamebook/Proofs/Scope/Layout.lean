import Gamebook.Proofs.Phrase.Laid
import Gamebook.Proofs.Scope.Declared
import Gamebook.Proofs.Scope.Search
import Gamebook.Tree.Query
import Mathlib.Data.List.Nodup
import Mathlib.Tactic.ByContra

/-!
Scopes by nesting. Every node stands in the scope of the nearest node around it that opens one, or in the
root if there is none. So the scopes of a tree can be told without any search: one for each node that opens
a scope, in the order of a walk, with the scope around that node as its parent and with the symbols that the
nodes in it declare.
-/

namespace Gamebook

theorem modify_map_idxOf [BEq α] [LawfulBEq α] [DecidableEq α] {elements : List α} {element : α} (hnodup : elements.Nodup)
    (helement : element ∈ elements) (make : α → β) (change : β → β) :
    (elements.map make).modify (elements.idxOf element) change =
      elements.map fun other => if other = element then change (make other) else make other := by
  refine List.ext_getElem? fun index => ?_
  rw [List.getElem?_modify, List.getElem?_map, List.getElem?_map]
  cases hother : elements[index]? with
  | none => rfl
  | some other =>
      obtain ⟨hindex, rfl⟩ := List.getElem?_eq_some_iff.mp hother
      have hplace : elements.idxOf element = index ↔ elements[index] = element := by
        constructor
        · rintro rfl
          exact List.getElem_idxOf _
        · rintro rfl
          exact hnodup.idxOf_getElem index hindex
      by_cases hsame : elements[index] = element
      · simp only [Option.map_some, Option.map_eq_map, if_pos (hplace.mpr hsame), if_pos hsame]
      · simp only [Option.map_some, Option.map_eq_map, if_neg (mt hplace.mp hsame), if_neg hsame]

namespace Scope

/-- The node whose scope a node stands in; none when that is the root. -/
def owner (tree : Tree) (id : Nat) : Option Nat := tree.ancestorWhere? id Kind.opensScope

/-- What the scopes belong to, in order of creation: the root to no node, each other one to the node that
opens it. -/
def owners (opened : List Nat) : List (Option Nat) := none :: opened.map some

def number (opened : List Nat) (holder : Option Nat) : Nat := (owners opened).idxOf holder

/-- The scope of a node that opens one, or the root. -/
def scopeOf (tree : Tree) (opened : List Nat) (bound : List (Option Nat × Symbol)) (holder : Option Nat) :
    Scope where
  offset := ((holder.bind tree.node?).map (·.offset)).getD 0
  length := ((holder.bind tree.node?).map (·.length)).getD maxOffset
  parent := holder.map fun id => number opened (owner tree id)
  children := ((opened.filter (owner tree · = holder)).map fun id => number opened (some id)).toArray
  symbols := ((bound.filter (·.1 = holder)).map Prod.snd).toArray

/-- The scopes of the given nodes, where the given symbols are bound. -/
def layout (tree : Tree) (opened : List Nat) (bound : List (Option Nat × Symbol)) : ScopeTree :=
  ⟨((owners opened).map (scopeOf tree opened bound)).toArray⟩

/-- The names that a node declares: the first variable in a declaration, the label in a declaration of a
label, the variables in a declaration of parameters. -/
def names (tree : Tree) (id : Nat) : List Nat :=
  match tree.kind? id with
  | some (.variableDeclaration _) => (tree.childWhere? id (· == .var)).toList
  | some .labelDeclaration => (tree.children id).filter fun child => (tree.kind? child).any (· == .label)
  | some (.standardCommand name) =>
    if name = "params" then (tree.children id).filter fun child => (tree.kind? child).any (· == .var) else []
  | _ => []

/-- The symbol of a name that a node declares. -/
def symbolOf (tree : Tree) (id name : Nat) : Symbol :=
  match tree.node? id with
  | none => default
  | some node =>
    match node.kind with
    | .variableDeclaration declaration => variableSymbol tree id node declaration name
    | .labelDeclaration => plainSymbol tree id node .label none name
    | _ => plainSymbol tree id node .var (some .temp) name

/-- What the names of a node are bound in: variables of the whole game in the root, everything else in the
scope that the node stands in. -/
def home (tree : Tree) (id : Nat) : Option Nat :=
  if tree.kind? id = some (.variableDeclaration .create) then none else owner tree id

/-- The symbols that a node declares, with what they are bound in. -/
def bindings (tree : Tree) (id : Nat) : List (Option Nat × Symbol) :=
  (names tree id).map fun name => (home tree id, symbolOf tree id name)

def opened (tree : Tree) : List Nat :=
  (tree.preorder Tree.root).filter fun id => (tree.kind? id).any Kind.opensScope

def bound (tree : Tree) : List (Option Nat × Symbol) := (tree.preorder Tree.root).flatMap (bindings tree)

/-- The scopes of a tree by its nesting. -/
def nested (tree : Tree) : ScopeTree := layout tree (opened tree) (bound tree)

/-- The tree with the number of its scope at every node that declares something. -/
def annotated (tree : Tree) : Tree :=
  { tree with nodes := tree.nodes.mapIdx fun id node =>
      if (names tree id).isEmpty then node
      else { node with data := node.data.insert dataKey (.ofNat (number (opened tree) (home tree id))) } }

/-! ### Numbers -/

section

variable {tree : Tree} {opened : List Nat} {bound : List (Option Nat × Symbol)} {holder : Option Nat} {id : Nat}

theorem mem_owners : holder ∈ owners opened ↔ ∀ id, holder = some id → id ∈ opened := by
  rw [owners, List.mem_cons, List.mem_map]
  cases holder with
  | none => simp
  | some id => simp

theorem some_mem_owners : some id ∈ owners opened ↔ id ∈ opened := by simp [mem_owners]

theorem owners_append (opened more : List Nat) : owners (opened ++ more) = owners opened ++ more.map some := by
  rw [owners, List.map_append]
  rfl

theorem nodup_owners (hnodup : opened.Nodup) : (owners opened).Nodup := by
  refine List.nodup_cons.mpr ⟨?_, hnodup.map fun _ _ => Option.some.inj⟩
  rw [List.mem_map]
  rintro ⟨id, _, hid⟩
  cases hid

theorem number_none (opened : List Nat) : number opened none = ScopeTree.root := List.idxOf_cons_self

theorem number_append (h : holder ∈ owners opened) (more : List Nat) :
    number (opened ++ more) holder = number opened holder := by
  rw [number, owners_append, List.idxOf_append_of_mem h, number]

theorem number_lt (h : holder ∈ owners opened) : number opened holder < opened.length + 1 := by
  have hlt := List.idxOf_lt_length_of_mem h
  rwa [owners, List.length_cons, List.length_map] at hlt

theorem number_inj {other : Option Nat} (h : holder ∈ owners opened)
    (heq : number opened holder = number opened other) : holder = other := (List.idxOf_inj h).mp heq

theorem size_layout : (layout tree opened bound).size = opened.length + 1 := by
  rw [ScopeTree.size, layout, List.size_toArray, List.length_map, owners, List.length_cons, List.length_map]

theorem scope?_layout (h : holder ∈ owners opened) :
    (layout tree opened bound).scope? (number opened holder) = some (scopeOf tree opened bound holder) := by
  have hlt := List.idxOf_lt_length_of_mem h
  rw [ScopeTree.scope?, layout, List.getElem?_toArray, List.getElem?_map, number, List.getElem?_eq_getElem hlt,
    List.getElem_idxOf]
  rfl

/-- Every scope belongs to something. -/
theorem exists_holder (hnodup : opened.Nodup) (hid : id < (layout tree opened bound).size) :
    ∃ holder ∈ owners opened, number opened holder = id := by
  rw [size_layout, ← List.length_map some, ← List.length_cons] at hid
  exact ⟨_, List.getElem_mem hid, (nodup_owners hnodup).idxOf_getElem id hid⟩

/-! ### Adding to a layout -/

theorem declare_layout (hnodup : opened.Nodup) (h : holder ∈ owners opened) (symbol : Symbol) :
    (layout tree opened bound).declare (number opened holder) symbol =
      layout tree opened (bound ++ [(holder, symbol)]) := by
  rw [ScopeTree.declare, layout, layout, List.modify_toArray, number, modify_map_idxOf (nodup_owners hnodup) h]
  refine congrArg (fun scopes => ScopeTree.mk (List.toArray scopes)) (List.map_congr_left fun other _ => ?_)
  by_cases hsame : other = holder
  · subst hsame
    simp [scopeOf]
  · have hother : ¬holder = other := fun heq => hsame heq.symm
    simp [scopeOf, hsame, hother]

/-- What stands in some scope stands in one of the given ones. -/
def Closed (tree : Tree) (opened : List Nat) : Prop := ∀ id ∈ opened, owner tree id ∈ owners opened

/-- When a node opens a scope, the scope around it gets a child, and all others stay as they are. -/
theorem scopeOf_append (hclosed : Closed tree opened) (hnew : id ∉ opened) {other : Option Nat}
    (hother : other ∈ owners opened) :
    scopeOf tree (opened ++ [id]) bound other =
      if other = owner tree id then
        { scopeOf tree opened bound other with
          children := (scopeOf tree opened bound other).children.push (opened.length + 1) }
      else scopeOf tree opened bound other := by
  have hown : number (opened ++ [id]) (some id) = opened.length + 1 := by
    have hfresh : some id ∉ owners opened := fun hmem => hnew (some_mem_owners.mp hmem)
    rw [number, owners_append, List.idxOf_append_of_notMem hfresh, owners, List.length_cons, List.length_map]
    exact congrArg (opened.length + 1 + ·) List.idxOf_cons_self
  have hparent : other.map (fun child => number (opened ++ [id]) (owner tree child)) =
      other.map fun child => number opened (owner tree child) := by
    cases other with
    | none => rfl
    | some child => exact congrArg some (number_append (hclosed child (mem_owners.mp hother child rfl)) [id])
  have hkept : (opened.filter (owner tree · = other)).map (fun child => number (opened ++ [id]) (some child)) =
      (opened.filter (owner tree · = other)).map fun child => number opened (some child) :=
    List.map_congr_left fun child hchild =>
      number_append (some_mem_owners.mpr (List.mem_filter.mp hchild).1) [id]
  by_cases hsame : other = owner tree id
  · simp [scopeOf, hparent, hkept, hown, ← hsame]
  · simp [scopeOf, hparent, hkept, hsame, Ne.symm hsame]

/-- A scope that was just opened is empty. -/
theorem scopeOf_new {node : Node} (hclosed : Closed tree opened) (hnew : id ∉ opened)
    (howner : owner tree id ∈ owners opened) (hnode : tree.node? id = some node)
    (hbound : ∀ binding ∈ bound, binding.1 ∈ owners opened) :
    scopeOf tree (opened ++ [id]) bound (some id) =
      ⟨node.offset, node.length, some (number opened (owner tree id)), #[], #[]⟩ := by
  have hnone : ∀ holder ∈ owners opened, ¬holder = some id :=
    fun holder hholder heq => hnew (mem_owners.mp hholder id heq)
  have hchildren : (opened ++ [id]).filter (owner tree · = some id) = [] := by
    refine List.filter_eq_nil_iff.mpr fun child hchild => ?_
    rcases List.mem_append.mp hchild with hchild | hchild
    · exact fun heq => hnone _ (hclosed child hchild) (of_decide_eq_true heq)
    · rw [List.mem_singleton.mp hchild]
      exact fun heq => hnone _ howner (of_decide_eq_true heq)
  have hsymbols : bound.filter (·.1 = some id) = [] :=
    List.filter_eq_nil_iff.mpr fun binding hbinding heq => hnone _ (hbound binding hbinding) (of_decide_eq_true heq)
  simp [scopeOf, hnode, hchildren, hsymbols, number_append howner]

theorem nest_layout {node : Node} (hclosed : Closed tree opened) (hnodup : opened.Nodup) (hnew : id ∉ opened)
    (howner : owner tree id ∈ owners opened) (hnode : tree.node? id = some node)
    (hbound : ∀ binding ∈ bound, binding.1 ∈ owners opened)
    (hstarted : ∀ child ∈ opened, owner tree child = owner tree id →
      (layout tree opened bound).started node.offset (number opened (some child)) = true) :
    ((layout tree opened bound).nest (number opened (owner tree id)) node.offset node.length).2 =
      layout tree (opened ++ [id]) bound := by
  have hchildren : (layout tree opened bound).children (number opened (owner tree id)) =
      (scopeOf tree opened bound (owner tree id)).children := by
    rw [ScopeTree.children, scope?_layout howner]
    rfl
  have hplace : (layout tree opened bound).startedBy node.offset
      (scopeOf tree opened bound (owner tree id)).children =
        (scopeOf tree opened bound (owner tree id)).children.size := by
    rw [ScopeTree.startedBy_eq (List.append_nil _).symm ?_ nofun, Array.length_toList]
    intro child hchild
    obtain ⟨other, hother, rfl⟩ := List.mem_map.mp hchild
    obtain ⟨hmem, hsame⟩ := List.mem_filter.mp hother
    exact hstarted other hmem (of_decide_eq_true hsame)
  rw [ScopeTree.nest, hchildren, hplace, size_layout, layout, layout, owners_append, List.map_append,
    List.map_singleton, List.map_singleton, scopeOf_new hclosed hnew howner hnode hbound]
  dsimp only
  rw [List.modify_toArray, number, modify_map_idxOf (nodup_owners hnodup) howner, List.push_toArray]
  refine congrArg (fun scopes => ScopeTree.mk (scopes ++ [_]).toArray) (List.map_congr_left fun other hother => ?_)
  rw [scopeOf_append hclosed hnew hother]
  split
  · rename_i hsame
    rw [hsame, Array.insertIdxIfInBounds, dif_pos (Nat.le_refl _), Array.insertIdx_size_self]
  · rfl

/-! ### Parents and children -/

/-- Every node comes behind the node whose scope it stands in. -/
structure Walked (tree : Tree) (opened : List Nat) : Prop where
  nodup : opened.Nodup
  behind : ∀ front id back, opened = front ++ id :: back → owner tree id ∈ owners front

theorem owners_subset {front back : List Nat} (hsplit : opened = front ++ back) : owners front ⊆ owners opened := by
  rw [hsplit, owners_append]
  exact List.subset_append_left _ _

theorem Walked.closed (h : Walked tree opened) : Closed tree opened := by
  intro id hid
  obtain ⟨front, back, hsplit⟩ := List.append_of_mem hid
  exact owners_subset hsplit (h.behind front id back hsplit)

theorem children_layout (h : holder ∈ owners opened) :
    ((layout tree opened bound).children (number opened holder)).toList =
      (opened.filter (owner tree · = holder)).map fun id => number opened (some id) := by
  rw [ScopeTree.children, scope?_layout h]
  rfl

theorem symbols_layout (h : holder ∈ owners opened) :
    ((layout tree opened bound).symbols (number opened holder)).toList =
      (bound.filter (·.1 = holder)).map Prod.snd := by
  rw [ScopeTree.symbols, scope?_layout h]
  rfl

theorem parent?_layout (h : holder ∈ owners opened) :
    (layout tree opened bound).parent? (number opened holder) =
      holder.map fun id => number opened (owner tree id) := by
  rw [ScopeTree.parent?, scope?_layout h]
  rfl

theorem Walked.number_lt (h : Walked tree opened) (hid : id ∈ opened) :
    number opened (owner tree id) < number opened (some id) := by
  obtain ⟨front, back, hsplit⟩ := List.append_of_mem hid
  have howner := h.behind front id back hsplit
  have hfresh : some id ∉ owners front := by
    have hnodup := h.nodup
    rw [hsplit] at hnodup
    intro hmem
    exact (List.nodup_append.mp hnodup).2.2 id (some_mem_owners.mp hmem) id List.mem_cons_self rfl
  have hlt := List.idxOf_lt_length_of_mem howner
  rw [hsplit, number_append howner, number, number, owners_append, List.idxOf_append_of_notMem hfresh]
  exact Nat.lt_of_lt_of_le hlt (Nat.le_add_right _ _)

theorem Walked.linked (h : Walked tree opened) : (layout tree opened bound).Linked := by
  constructor
  · intro id child hchild
    have hid : id < (layout tree opened bound).size := by
      by_contra hnot
      have hnone : (layout tree opened bound).scope? id = none := Array.getElem?_eq_none (Nat.not_lt.mp hnot)
      rw [ScopeTree.children, hnone] at hchild
      exact absurd hchild (Array.not_mem_empty child)
    obtain ⟨holder, hholder, rfl⟩ := exists_holder h.nodup hid
    rw [← Array.mem_toList_iff, children_layout hholder] at hchild
    obtain ⟨inner, hinner, rfl⟩ := List.mem_map.mp hchild
    obtain ⟨hmem, howner⟩ := List.mem_filter.mp hinner
    rw [parent?_layout (some_mem_owners.mpr hmem), Option.map_some,
      of_decide_eq_true howner]
  · intro id child hparent
    obtain ⟨holder, hholder, rfl⟩ := exists_holder h.nodup (ScopeTree.lt_size_of_parent? hparent)
    rw [parent?_layout hholder] at hparent
    obtain ⟨inner, rfl, rfl⟩ := Option.map_eq_some_iff.mp hparent
    exact h.number_lt (mem_owners.mp hholder inner rfl)

end

end Scope

end Gamebook
