import Gamebook.Proofs.Scope.Lookup
import Gamebook.Proofs.Scope.Nesting
import Gamebook.Proofs.Tree.Bare

/-!
Variables of the whole game. Whatever the tree, the walk that builds its scopes binds what the nodes declare
and nothing else. The variables of the whole game are bound in the root, one for each declaration that creates
one, in the order in which the walk comes by, and whatever else is declared in between does not matter to them.
-/

namespace Gamebook

/-- A declaration of a variable of the whole game: the node and where it starts, the name, and the text of
the value. -/
structure Creation where
  node : Nat
  offset : Nat
  name : String
  value : Option String
  deriving DecidableEq, Repr

namespace Creation

/-- What a creation says to those who do not see where it is made. -/
def said (creation : Creation) : String × Option String := (creation.name, creation.value)

end Creation

/-- The declaration of a symbol, if it is a variable of the whole game. -/
def Symbol.creation (symbol : Symbol) : Creation := ⟨symbol.node, symbol.offset, symbol.name, symbol.value⟩

namespace Tree

/-- The variable of the whole game that a node creates. -/
def creation? (tree : Tree) (id : Nat) : Option Creation :=
  match tree.node? id with
  | none => none
  | some node =>
    if node.kind = .variableDeclaration .create then
      (tree.childWhere? id (· == .var)).map fun name =>
        ⟨id, node.offset, tree.name name, (tree.childWhere? id (·.isExpression)).map tree.name⟩
    else none

/-- The variables of the whole game that are created below the root, in the order of the document. -/
def creations (tree : Tree) : List Creation := (tree.preorder root).filterMap tree.creation?

theorem preorder_bare (tree : Tree) (start : Nat) : tree.bare.preorder start = tree.preorder start := by
  have hwalk : ∀ budget stack found,
      tree.bare.walkStack (fun (found : List Nat) id => (id :: found, true)) budget stack found =
        tree.walkStack (fun found id => (id :: found, true)) budget stack found := by
    intro budget
    induction budget with
    | zero => exact fun _ _ => rfl
    | succ budget ih =>
        intro stack found
        cases stack with
        | nil => rfl
        | cons id stack => simp only [walkStack, children_bare, ih]
  have hvisits : ∀ depth id, tree.bare.visits depth id = tree.visits depth id := by
    intro depth
    induction depth with
    | zero => exact fun _ => rfl
    | succ depth ih =>
        intro id
        rw [visits, visits, children_bare, funext ih]
  rw [preorder, preorder, walk, walk, size_bare, hvisits, hwalk]

@[simp] theorem creation?_bare (tree : Tree) (id : Nat) : tree.bare.creation? id = tree.creation? id := by
  simp only [creation?, node?_bare, childWhere?_bare]
  cases tree.node? id with
  | none => rfl
  | some node =>
      have hname : tree.bare.name = tree.name := funext fun id => name_bare tree id
      rw [hname]
      rfl

@[simp] theorem creations_bare (tree : Tree) : tree.bare.creations = tree.creations := by
  rw [creations, creations, preorder_bare]
  exact congrArg (List.filterMap · _) (funext fun id => creation?_bare tree id)

end Tree

namespace ScopeTree

def globals (scopes : ScopeTree) : List Symbol := (scopes.symbols root).toList.filter Symbol.isGlobal

variable {scopes : ScopeTree} {symbol other : Symbol} {scope id : Nat}

theorem symbols_declare_of_ne (h : id ≠ scope) : (scopes.declare scope symbol).symbols id = scopes.symbols id := by
  rw [symbols, symbols, scope?, scope?, declare, Array.getElem?_modify, if_neg h.symm]

theorem mem_symbols_declare (h : other ∈ (scopes.declare scope symbol).symbols id) :
    other = symbol ∨ other ∈ scopes.symbols id := by
  by_cases hsame : id = scope
  · subst hsame
    by_cases hsize : id < scopes.size
    · rw [(Scope.symbols_declare hsize symbol).2] at h
      exact (Array.mem_push.mp h).symm
    · have hnone : (scopes.declare id symbol).scope? id = none :=
        Array.getElem?_eq_none (Nat.le_trans (Nat.le_of_eq Array.size_modify) (Nat.not_lt.mp hsize))
      rw [symbols, hnone] at h
      exact absurd h (Array.not_mem_empty other)
  · rw [symbols_declare_of_ne hsame] at h
    exact .inr h

/-- Variables of the whole game are bound in the root, and other symbols are none of them. -/
theorem globals_declare (hroot : root < scopes.size) (hscope : symbol.isGlobal = true → scope = root) :
    (scopes.declare scope symbol).globals = scopes.globals ++ [symbol].filter Symbol.isGlobal := by
  by_cases hsame : scope = root
  · subst hsame
    rw [globals, (Scope.symbols_declare hroot symbol).2, Array.toList_push, List.filter_append, globals]
  · have hother : symbol.isGlobal = false := Bool.eq_false_iff.mpr (mt hscope hsame)
    rw [globals, symbols_declare_of_ne (Ne.symm hsame), List.filter_singleton, hother, globals]
    exact (List.append_nil _).symm

end ScopeTree

namespace Scope

open ScopeTree (root)

variable {tree : Tree} {id : Nat} {node : Node} {symbol : Symbol}

/-! ### What a node declares -/

theorem isGlobal_of_mem_declared (hnode : tree.node? id = some node) (h : symbol ∈ declared tree id) :
    symbol.isGlobal = true ↔ node.kind = .variableDeclaration .create := by
  obtain ⟨other, hother, hdeclares⟩ := exists_declares h
  obtain rfl : node = other := Option.some.inj (hnode.symm.trans hother)
  cases hdeclares with
  | valued hkind name => simp [hkind, variableSymbol, Symbol.isGlobal]
  | label hkind name => simp [hkind, plainSymbol, Symbol.isGlobal]
  | parameter hkind name => simp [hkind, plainSymbol, Symbol.isGlobal]

/-- What is declared as a variable is one. -/
theorem referenceType_of_mem_declared (h : symbol ∈ declared tree id) (hvariable : symbol.declaration ≠ none) :
    symbol.referenceType = .var := by
  obtain ⟨node, _, hdeclares⟩ := exists_declares h
  cases hdeclares with
  | valued hkind name => rfl
  | label hkind name => exact absurd rfl hvariable
  | parameter hkind name => rfl

/-- Of what a node declares the variable of the whole game is the one that it creates. -/
theorem creation?_eq (tree : Tree) (id : Nat) :
    (tree.creation? id).toList = ((declared tree id).filter Symbol.isGlobal).map Symbol.creation := by
  cases hnode : tree.node? id with
  | none =>
      rw [Tree.creation?, declared, Builder.visit, hnode]
      rfl
  | some node =>
      by_cases hkind : node.kind = .variableDeclaration .create
      · have hglobal : (declared tree id).filter Symbol.isGlobal = declared tree id :=
          List.filter_eq_self.mpr fun symbol hsymbol => (isGlobal_of_mem_declared hnode hsymbol).mpr hkind
        rw [hglobal, declared_eq hnode, hkind]
        simp only [Tree.creation?, hnode, if_pos hkind]
        cases tree.childWhere? id (· == .var) <;> rfl
      · have hnone : (declared tree id).filter Symbol.isGlobal = [] :=
          List.filter_eq_nil_iff.mpr fun symbol hsymbol => mt (isGlobal_of_mem_declared hnode hsymbol).mp hkind
        simp only [Tree.creation?, hnode, if_neg hkind, hnone]
        rfl

/-! ### The walk -/

/-- All that is bound are the given symbols; the variables of the whole game among them are bound in the root, in
the given order. -/
structure Binds (scopes : ScopeTree) (symbols : List Symbol) : Prop where
  filled : root < scopes.size
  globals : scopes.globals = symbols.filter Symbol.isGlobal
  among : ∀ scope, ∀ symbol ∈ scopes.symbols scope, symbol ∈ symbols

namespace Binds

variable {scopes : ScopeTree} {symbols : List Symbol} {builder : Builder}

theorem nest (h : Binds scopes symbols) (parent offset length : Nat) :
    Binds (scopes.nest parent offset length).2 symbols where
  filled := by
    rw [ScopeTree.size, ScopeTree.nest, Array.size_push, Array.size_modify]
    exact Nat.succ_pos _
  globals := by rw [ScopeTree.globals, symbols_nest, ← ScopeTree.globals, h.globals]
  among := by
    intro scope symbol hsymbol
    rw [symbols_nest] at hsymbol
    exact h.among scope symbol hsymbol

theorem declare {scope : Nat} (h : Binds scopes symbols) (hscope : symbol.isGlobal = true → scope = root) :
    Binds (scopes.declare scope symbol) (symbols ++ [symbol]) where
  filled := by
    rw [ScopeTree.size, ScopeTree.declare, Array.size_modify]
    exact h.filled
  globals := by rw [ScopeTree.globals_declare h.filled hscope, h.globals, List.filter_append]
  among := by
    intro other found hfound
    rcases ScopeTree.mem_symbols_declare hfound with rfl | hfound
    · exact List.mem_append_right _ List.mem_cons_self
    · exact List.mem_append_left _ (h.among other found hfound)

theorem foldl_bind {scope : Nat} {more : List Symbol} (h : Binds builder.scopes symbols)
    (hscope : ∀ symbol ∈ more, symbol.isGlobal = true → scope = root) :
    Binds (more.foldl (fun state symbol => state.bind scope symbol) builder).scopes (symbols ++ more) := by
  induction more generalizing builder symbols with
  | nil => rwa [List.append_nil]
  | cons symbol more ih =>
      obtain ⟨hfirst, hmore⟩ := List.forall_mem_cons.mp hscope
      have hbound : Binds (builder.bind scope symbol).scopes (symbols ++ [symbol]) := h.declare hfirst
      rw [List.foldl_cons, ← List.singleton_append, ← List.append_assoc]
      exact ih hbound hmore

/-- Visiting a node binds what it declares. -/
theorem visit (h : Binds builder.scopes symbols) (id : Nat) :
    Binds (builder.visit tree id).scopes (symbols ++ declared tree id) := by
  cases hnode : tree.node? id with
  | none =>
      have hsame : builder.visit tree id = builder := by rw [Builder.visit, hnode]
      have hnone : declared tree id = [] := by rw [declared, Builder.visit, hnode]; rfl
      rwa [hsame, hnone, List.append_nil]
  | some node =>
      cases hopens : node.kind.opensScope with
      | true =>
          have hnone : declared tree id = [] := by
            rw [declared, visit_opens hnode hopens, Builder.nest, symbols_nest]
            rfl
          rw [visit_opens hnode hopens, hnone, List.append_nil]
          exact h.nest _ _ _
      | false =>
          -- all that one node declares is bound in one scope, the root if it is of the whole game
          rw [visit_binds hnode hopens]
          exact h.foldl_bind fun symbol hsymbol hglobal => if_pos ((isGlobal_of_mem_declared hnode hsymbol).mp hglobal)

theorem foldl_visit (h : Binds builder.scopes symbols) (ids : List Nat) :
    Binds (ids.foldl (Builder.visit tree) builder).scopes (symbols ++ ids.flatMap (declared tree)) := by
  induction ids generalizing builder symbols with
  | nil => rwa [List.flatMap_nil, List.append_nil]
  | cons id more ih =>
      rw [List.foldl_cons, List.flatMap_cons, ← List.append_assoc]
      exact ih (h.visit id)

theorem initial : Binds .initial [] where
  filled := Nat.one_pos
  globals := rfl
  among := by
    intro scope symbol hsymbol
    rw [ScopeTree.symbols, ScopeTree.scope?] at hsymbol
    cases scope <;> exact absurd hsymbol (Array.not_mem_empty symbol)

end Binds

/-- Building the scopes of a tree binds what its nodes declare, in the order of the walk. -/
theorem binds_build (tree : Tree) :
    Binds (Scope.build tree).2 ((tree.preorder Tree.root).flatMap (declared tree)) := by
  rw [Scope.build, Tree.walk_eq_foldl tree (Builder.visit tree)]
  have hinitial : Binds ({} : Builder).scopes [] := .initial
  exact hinitial.foldl_visit _

/-- The variables of the whole game that are bound are those that the nodes create. -/
theorem creations_build (tree : Tree) : (Scope.build tree).2.globals.map Symbol.creation = tree.creations := by
  rw [(binds_build tree).globals, List.filter_flatMap, List.map_flatMap, Tree.creations, List.filterMap_eq_flatMap_toList]
  exact congrArg (List.flatMap · _) (funext fun id => (creation?_eq tree id).symm)

/-- What is bound is declared by some node. -/
theorem exists_declared {binding : Binding} (h : binding ∈ (Scope.build tree).2.allBindings) :
    ∃ id, binding.symbol ∈ declared tree id := by
  have hsymbol := (ScopeTree.mem_bindings_iff.mp (ScopeTree.mem_allBindings_iff.mp h)).2
  obtain ⟨id, _, hid⟩ := List.mem_flatMap.mp ((binds_build tree).among _ _ (Array.mem_of_getElem? hsymbol))
  exact ⟨id, hid⟩

end Scope

end Gamebook
