import Gamebook.Proofs.Scope.Place
import Gamebook.Proofs.Table
import Mathlib.Data.List.Induction

/-!
Building the scopes of a scene. The scopes are built in one walk, in which the scope around a node is found
by its range. The search finds the scope that the node stands in by nesting, so that what is built is what
the nesting says: the same scopes in the same order, with the same symbols, and the same notes in the tree.
-/

namespace Gamebook

namespace Scope

open Phrase (node?_toTree kind?_toTree)

/-! ### Visiting a node -/

section Visit

variable {tree : Tree} {id : Nat} {node : Node}

theorem visit_opens (hnode : tree.node? id = some node) (hopens : node.kind.opensScope = true) (builder : Builder) :
    builder.visit tree id = builder.nest node := by
  simp only [Builder.visit, hnode]
  cases hkind : node.kind with
  | choiceOption _ _ => rfl
  | standardCommand name =>
      rw [hkind] at hopens
      exact if_pos hopens
  | _ =>
      rw [hkind] at hopens
      cases hopens

/-- A node that opens no scope binds what it declares, each symbol in the root or around the node. -/
theorem visit_binds (hnode : tree.node? id = some node) (hopens : node.kind.opensScope = false) (builder : Builder) :
    builder.visit tree id = (declared tree id).foldl (fun state symbol =>
      state.bind (if node.kind = .variableDeclaration .create then ScopeTree.root else builder.innermost node) symbol)
      builder := by
  simp only [Builder.visit, hnode, declared_eq hnode]
  cases hkind : node.kind with
  | choiceOption _ _ =>
      rw [hkind] at hopens
      cases hopens
  | standardCommand name =>
      rw [hkind] at hopens
      dsimp only
      rw [if_neg (Bool.eq_false_iff.mp (show Command.isConditional name = false from hopens))]
      split
      · rw [Builder.bindParameters, List.foldl_map]
        rfl
      · rfl
  | variableDeclaration declaration =>
      simp only [Builder.bindVariable]
      cases tree.childWhere? id (· == .var) with
      | none => rfl
      | some name => cases declaration <;> rfl
  | labelDeclaration =>
      simp only [Builder.bindLabel]
      cases tree.childWhere? id (· == .label) with
      | none => rfl
      | some name => rfl
  | _ => rfl

theorem find?_toList_eq_filter {elements : List α} (hlength : elements.length ≤ 1) (test : α → Bool) :
    (elements.find? test).toList = elements.filter test := by
  match elements, hlength with
  | [], _ => rfl
  | [element], _ =>
      rw [List.find?_singleton, List.filter_singleton]
      cases test element <;> rfl

/-- What a node declares is what its names say. -/
theorem declared_eq_names (hnode : tree.node? id = some node)
    (hsingle : node.kind = .labelDeclaration → node.children.length ≤ 1) :
    declared tree id = (names tree id).map (symbolOf tree id) := by
  have hchildren : tree.children id = node.children := by rw [Tree.children, hnode]; rfl
  have hkind : tree.kind? id = some node.kind := by rw [Tree.kind?, hnode]; rfl
  rw [declared_eq hnode, names, hkind, hchildren]
  cases hown : node.kind with
  | standardCommand name =>
      have hsymbol : symbolOf tree id = plainSymbol tree id node .var (some .temp) := by
        funext name
        simp only [symbolOf, hnode, hown]
      dsimp only
      split
      · rw [hsymbol]
        refine congrArg _ (List.filter_congr fun child _ => ?_)
        cases tree.kind? child <;> rfl
      · rfl
  | variableDeclaration declaration =>
      have hsymbol : symbolOf tree id = variableSymbol tree id node declaration := by
        funext name
        simp only [symbolOf, hnode, hown]
      rw [hsymbol]
  | labelDeclaration =>
      have hsymbol : symbolOf tree id = plainSymbol tree id node .label none := by
        funext name
        simp only [symbolOf, hnode, hown]
      dsimp only
      rw [hsymbol, Tree.childWhere?, hchildren, find?_toList_eq_filter (hsingle hown)]
  | _ => rfl

theorem node_symbolOf (hnode : tree.node? id = some node) (name : Nat) :
    (symbolOf tree id name).node = id ∧ (symbolOf tree id name).offset = node.offset := by
  simp only [symbolOf, hnode]
  cases node.kind <;> exact ⟨rfl, rfl⟩

/-- Symbols that are all bound in one scope. -/
theorem foldl_bind_layout {opened : List Nat} {bound : List (Option Nat × Symbol)} {holder : Option Nat} {scope : Nat}
    (hnodup : opened.Nodup) (hholder : holder ∈ owners opened) (hscope : scope = number opened holder)
    (symbols : List Symbol) (pairs : List (Nat × Nat)) :
    symbols.foldl (fun state symbol => state.bind scope symbol) (⟨layout tree opened bound, pairs⟩ : Builder) =
      ⟨layout tree opened (bound ++ symbols.map fun symbol => (holder, symbol)),
        pairs ++ symbols.map fun symbol => (symbol.node, scope)⟩ := by
  induction symbols generalizing bound pairs with
  | nil => rw [List.foldl_nil, List.map_nil, List.map_nil, List.append_nil, List.append_nil]
  | cons symbol more ih =>
      have hbind : Builder.bind ⟨layout tree opened bound, pairs⟩ scope symbol =
          ⟨layout tree opened (bound ++ [(holder, symbol)]), pairs ++ [(symbol.node, scope)]⟩ := by
        rw [Builder.bind, hscope, declare_layout hnodup hholder]
      rw [List.foldl_cons, hbind, ih, List.map_cons, List.map_cons, List.append_assoc, List.append_assoc,
        List.singleton_append, List.singleton_append]

end Visit

/-! ### The walk -/

def boundOf (tree : Tree) (entries : List TreeEntry) : List (Option Nat × Symbol) :=
  entries.flatMap fun entry => bindings tree entry.id

/-- The scopes and notes that the given entries lead to. -/
def builderOf (tree : Tree) (entries : List TreeEntry) : Builder where
  scopes := layout tree (openedOf entries) (boundOf tree entries)
  bound := (boundOf tree entries).map fun binding => (binding.2.node, number (openedOf entries) binding.1)

section Walk

variable {phrase : Phrase} {levels : Levels} {source : Text} {entry : TreeEntry} {front back : List TreeEntry}

theorem home_mem_owners (hsplit : phrase.entries none 0 = front ++ entry :: back) :
    home (phrase.toTree levels source) entry.id ∈ owners (openedOf front) := by
  rw [home]
  split
  · exact List.mem_cons_self
  · exact owner_mem_owners hsplit

theorem mem_boundOf_owners (hsplit : phrase.entries none 0 = front ++ back) {binding : Option Nat × Symbol}
    (hbinding : binding ∈ boundOf (phrase.toTree levels source) front) : binding.1 ∈ owners (openedOf front) := by
  obtain ⟨entry, hentry, hmem⟩ := List.mem_flatMap.mp hbinding
  obtain ⟨name, _, rfl⟩ := List.mem_map.mp hmem
  obtain ⟨before, after, rfl⟩ := List.append_of_mem hentry
  rw [openedOf_append]
  refine owners_subset rfl (@home_mem_owners phrase levels source entry before (after ++ back) ?_)
  rw [hsplit, List.append_assoc, List.cons_append]

theorem node_eq (hentry : entry ∈ phrase.entries none 0) :
    (phrase.toTree levels source).node? entry.id = some (entry.node levels) := node?_toTree levels source hentry

theorem declared_entry (hframed : phrase.Framed) (hentry : entry ∈ phrase.entries none 0) :
    declared (phrase.toTree levels source) entry.id =
      (names (phrase.toTree levels source) entry.id).map (symbolOf (phrase.toTree levels source) entry.id) := by
  refine declared_eq_names (node_eq hentry) fun hkind => ?_
  have hsingle := (hframed.fits hentry).single hkind
  rwa [← TreeEntry.map_phrase_parts, List.length_map, ← List.length_map TreeEntry.id] at hsingle

theorem names_eq_nil (hentry : entry ∈ phrase.entries none 0) (hdeclares : entry.phrase.kind.declares = false) :
    names (phrase.toTree levels source) entry.id = [] := by
  rw [names, kind?_toTree levels source hentry]
  cases hkind : entry.phrase.kind with
  | variableDeclaration _ =>
      rw [hkind] at hdeclares
      cases hdeclares
  | labelDeclaration =>
      rw [hkind] at hdeclares
      cases hdeclares
  | standardCommand name =>
      rw [hkind] at hdeclares
      exact if_neg (beq_eq_false_iff_ne.mp hdeclares)
  | _ => rfl

theorem declares_of_opensScope {kind : Kind} (h : kind.opensScope = true) : kind.declares = false := by
  cases kind with
  | standardCommand name =>
      refine beq_eq_false_iff_ne.mpr ?_
      rintro rfl
      exact absurd h (by decide)
  | choiceOption _ _ => rfl
  | _ => cases h

/-- Opening the scope of the next node. -/
theorem visit_opener (hframed : phrase.Framed) (hsize : phrase.stop ≤ maxOffset)
    (hsplit : phrase.entries none 0 = front ++ entry :: back) (hopens : entry.phrase.kind.opensScope = true) :
    (builderOf (phrase.toTree levels source) front).visit (phrase.toTree levels source) entry.id =
      builderOf (phrase.toTree levels source) (front ++ [entry]) := by
  have hentry : entry ∈ phrase.entries none 0 := hsplit ▸ List.mem_append_right _ List.mem_cons_self
  have hnames := @names_eq_nil phrase levels source entry hentry (declares_of_opensScope hopens)
  have hwalked := @walked_openedOf phrase levels source front _ hsplit
  have howner := @owner_mem_owners phrase levels source entry front back hsplit
  have hopened : openedOf (front ++ [entry]) = openedOf front ++ [entry.id] := by
    rw [openedOf_append, openedOf_cons, if_pos hopens]
    rfl
  have hbound : boundOf (phrase.toTree levels source) (front ++ [entry]) = boundOf (phrase.toTree levels source) front := by
    rw [boundOf, List.flatMap_append, List.flatMap_singleton, bindings, hnames, List.map_nil, List.append_nil, boundOf]
  have hnew : entry.id ∉ openedOf front := by
    have hnodup := @nodup_openedOf phrase (front ++ [entry]) back (by rw [hsplit]; simp)
    rw [hopened] at hnodup
    exact fun hmem => (List.nodup_append.mp hnodup).2.2 _ hmem _ List.mem_cons_self rfl
  have hnest := @nest_layout (phrase.toTree levels source) (openedOf front) (boundOf (phrase.toTree levels source) front)
    entry.id (entry.node levels) hwalked.closed hwalked.nodup hnew howner (node_eq hentry)
    (fun binding hbinding => mem_boundOf_owners hsplit hbinding) ?_
  · have hnumbers : ∀ binding ∈ boundOf (phrase.toTree levels source) front,
        number (openedOf front ++ [entry.id]) binding.1 = number (openedOf front) binding.1 :=
      fun binding hbinding => number_append (mem_boundOf_owners hsplit hbinding) _
    have hfind := @find_owner phrase levels source entry front back (boundOf (phrase.toTree levels source) front)
      hframed hsize hsplit (isScoped_of_opensScope hopens)
    rw [visit_opens (node_eq hentry) hopens, builderOf, builderOf, hopened, hbound, ← hnest, ← hfind]
    refine congrArg (Builder.mk _) (List.map_congr_left fun binding hbinding => ?_)
    rw [hnumbers binding hbinding]
  · intro child hchild _
    obtain ⟨sibling, hsibling, hsopens, rfl⟩ := mem_openedOf.mp hchild
    have hpair : [sibling, entry].Sublist (phrase.entries none 0) := hsplit ▸ sublist_of_mem_front hsibling
    rw [started_entry hsplit hsibling hsopens]
    exact decide_eq_true (hframed.start_le hpair (isScoped_of_opensScope hsopens) (isScoped_of_opensScope hopens))

/-- Binding what the next node declares. -/
theorem visit_other (hframed : phrase.Framed) (hsize : phrase.stop ≤ maxOffset)
    (hsplit : phrase.entries none 0 = front ++ entry :: back) (hopens : entry.phrase.kind.opensScope = false) :
    (builderOf (phrase.toTree levels source) front).visit (phrase.toTree levels source) entry.id =
      builderOf (phrase.toTree levels source) (front ++ [entry]) := by
  have hentry : entry ∈ phrase.entries none 0 := hsplit ▸ List.mem_append_right _ List.mem_cons_self
  have hopened : openedOf (front ++ [entry]) = openedOf front := by
    rw [openedOf_append, openedOf_cons, if_neg (Bool.eq_false_iff.mp hopens)]
    exact List.append_nil _
  have hbound : boundOf (phrase.toTree levels source) (front ++ [entry]) =
      boundOf (phrase.toTree levels source) front ++ bindings (phrase.toTree levels source) entry.id := by
    rw [boundOf, List.flatMap_append, List.flatMap_singleton, boundOf]
  rw [visit_binds (node_eq hentry) hopens, declared_entry hframed hentry, builderOf, builderOf, hopened, hbound]
  cases hdeclares : entry.phrase.kind.declares with
  | false =>
      rw [bindings, names_eq_nil hentry hdeclares, List.map_nil, List.map_nil, List.append_nil]
      rfl
  | true =>
      have hscoped := isScoped_of_declares hdeclares
      have hscope : (if (entry.node levels).kind = .variableDeclaration .create then ScopeTree.root
          else (builderOf (phrase.toTree levels source) front).innermost (entry.node levels)) =
            number (openedOf front) (home (phrase.toTree levels source) entry.id) := by
        have hkind? := kind?_toTree levels source hentry
        by_cases hkind : entry.phrase.kind = .variableDeclaration .create
        · rw [home, if_pos (hkind?.trans (congrArg some hkind)), number_none]
          exact if_pos hkind
        · rw [home, if_neg fun hsame => hkind (Option.some.inj (hkind?.symm.trans hsame))]
          exact (if_neg hkind).trans (find_owner hframed hsize hsplit hscoped)
      refine (foldl_bind_layout (nodup_openedOf hsplit) (home_mem_owners hsplit) hscope _ _).trans ?_
      rw [bindings, List.map_map, List.map_append, List.map_map, List.map_map, hscope]
      rfl

/-- The scopes and notes after part of the walk. -/
theorem foldl_visit (hframed : phrase.Framed) (hsize : phrase.stop ≤ maxOffset) (front back : List TreeEntry)
    (hsplit : phrase.entries none 0 = front ++ back) :
    (front.map TreeEntry.id).foldl (fun builder id => builder.visit (phrase.toTree levels source) id) {} =
      builderOf (phrase.toTree levels source) front := by
  induction front using List.reverseRecOn generalizing back with
  | nil => rfl
  | append_singleton front entry ih =>
      have hnext : phrase.entries none 0 = front ++ entry :: back := by rw [hsplit, List.append_assoc]; rfl
      rw [List.map_append, List.foldl_append, ih (entry :: back) hnext, List.map_singleton, List.foldl_cons,
        List.foldl_nil]
      cases hopens : entry.phrase.kind.opensScope with
      | true => exact visit_opener hframed hsize hnext hopens
      | false => exact visit_other hframed hsize hnext hopens

/-! ### The whole -/

theorem root_toTree (hfirst : phrase.before = []) : phrase.idFrom 0 = Tree.root := by
  rw [Phrase.idFrom, hfirst]
  rfl

theorem preorder_root (hfirst : phrase.before = []) :
    (phrase.toTree levels source).preorder Tree.root = (phrase.entries none 0).map TreeEntry.id := by
  rw [← root_toTree hfirst, Phrase.preorder_toTree]

theorem opened_toTree (hfirst : phrase.before = []) :
    opened (phrase.toTree levels source) = openedOf (phrase.entries none 0) := by
  rw [opened, preorder_root hfirst, List.filter_map, openedOf]
  refine congrArg _ (List.filter_congr fun entry hentry => ?_)
  rw [Function.comp_apply, kind?_toTree levels source hentry, Option.any_some]

theorem bound_toTree (hfirst : phrase.before = []) :
    bound (phrase.toTree levels source) = boundOf (phrase.toTree levels source) (phrase.entries none 0) := by
  rw [bound, preorder_root hfirst, List.flatMap_map, boundOf]

theorem nested_toTree (hfirst : phrase.before = []) :
    nested (phrase.toTree levels source) = layout (phrase.toTree levels source) (openedOf (phrase.entries none 0))
      (boundOf (phrase.toTree levels source) (phrase.entries none 0)) := by
  rw [nested, opened_toTree hfirst, bound_toTree hfirst]

end Walk

/-! ### Notes in the tree -/

section Notes

variable {tree : Tree} {id other scope : Nat}

theorem node?_attach (tree : Tree) (id other : Nat) (key : String) (value : Json) :
    (tree.attach id key value).node? other = (tree.node? other).map fun node =>
      if id = other then { node with data := node.data.insert key value } else node := by
  rw [Tree.attach, Tree.node?, Tree.modify, Array.getElem?_modify, Tree.node?]
  cases tree.nodes[other]? with
  | none =>
      rw [Option.map_none]
      split <;> rfl
  | some node => split <;> rfl

/-- Notes that are the same for a node are the same as one of them. -/
theorem node?_attachAll {pairs : List (Nat × Nat)} (hsame : ∀ pair ∈ pairs, pair.1 = id → pair.2 = scope) :
    (pairs.foldl (fun tree (id, scope) => tree.attach id dataKey (.ofNat scope)) tree).node? id =
      (tree.node? id).map fun node =>
        if pairs.any (·.1 = id) then { node with data := node.data.insert dataKey (.ofNat scope) } else node := by
  induction pairs generalizing tree with
  | nil => exact Option.map_id'.symm
  | cons pair more ih =>
      obtain ⟨hfirst, hmore⟩ := List.forall_mem_cons.mp hsame
      rw [List.foldl_cons, ih hmore, node?_attach, Option.map_map]
      refine congrArg (Option.map · _) (funext fun node => ?_)
      rw [Function.comp_apply, List.any_cons]
      by_cases hid : pair.1 = id
      · have hscope : pair.2 = scope := hfirst hid
        by_cases hany : more.any (·.1 = id) = true
        · simp [hid, hscope, hany, Table.insert_insert]
        · simp [hid, hscope, hany]
      · simp only [hid, if_false, decide_false, Bool.false_or]

theorem source_attachAll (pairs : List (Nat × Nat)) :
    (pairs.foldl (fun tree (id, scope) => tree.attach id dataKey (.ofNat scope)) tree).source = tree.source := by
  induction pairs generalizing tree with
  | nil => rfl
  | cons pair more ih => exact ih

theorem node?_annotated (tree : Tree) (id : Nat) : (annotated tree).node? id = (tree.node? id).map fun node =>
    if (names tree id).isEmpty then node
    else { node with data := node.data.insert dataKey (.ofNat (number (opened tree) (home tree id))) } :=
  Array.getElem?_mapIdx

theorem ext_node? {left right : Tree} (hsource : left.source = right.source)
    (hnodes : ∀ id, left.node? id = right.node? id) : left = right := by
  obtain ⟨_, nodes⟩ := left
  obtain ⟨_, others⟩ := right
  obtain rfl : nodes = others := Array.ext_getElem? fun id => hnodes id
  exact congrArg (Tree.mk · nodes) hsource

end Notes

section Entries

variable {phrase : Phrase} {levels : Levels} {source : Text} {entry : TreeEntry}

/-- Every node that declares something is noted with the number of the scope that its names are bound in. -/
theorem mem_notes {id scope : Nat} :
    (id, scope) ∈ (builderOf (phrase.toTree levels source) (phrase.entries none 0)).bound ↔
      (∃ entry ∈ phrase.entries none 0, entry.id = id) ∧ names (phrase.toTree levels source) id ≠ [] ∧
        number (openedOf (phrase.entries none 0)) (home (phrase.toTree levels source) id) = scope := by
  simp only [builderOf, boundOf, List.mem_map, List.mem_flatMap, bindings, Prod.mk.injEq]
  constructor
  · rintro ⟨_, ⟨entry, hentry, name, hname, rfl⟩, rfl, rfl⟩
    rw [(node_symbolOf (node_eq hentry) name).1]
    exact ⟨⟨entry, hentry, rfl⟩, List.ne_nil_of_mem hname, rfl⟩
  · rintro ⟨⟨entry, hentry, rfl⟩, hnames, rfl⟩
    obtain ⟨name, hname⟩ := List.exists_mem_of_ne_nil _ hnames
    exact ⟨_, ⟨entry, hentry, name, hname, rfl⟩, (node_symbolOf (node_eq hentry) name).1, rfl⟩

end Entries

/-- Building the scopes of a phrase by searching is laying them out by nesting. -/
theorem build_toTree {phrase : Phrase} {levels : Levels} {source : Text} (hframed : phrase.Framed)
    (hsize : phrase.stop ≤ maxOffset) (hfirst : phrase.before = []) :
    Scope.build (phrase.toTree levels source) =
      (annotated (phrase.toTree levels source), nested (phrase.toTree levels source)) := by
  have hwalk : (phrase.toTree levels source).walk
      (fun builder id => (Builder.visit (phrase.toTree levels source) builder id, true)) Tree.root ({} : Builder) =
        builderOf (phrase.toTree levels source) (phrase.entries none 0) := by
    rw [Tree.walk_eq_foldl _ (Builder.visit (phrase.toTree levels source)), preorder_root hfirst]
    exact foldl_visit hframed hsize _ [] (List.append_nil _).symm
  simp only [Scope.build, hwalk]
  refine Prod.ext (ext_node? (source_attachAll _) fun id => ?_) (nested_toTree hfirst).symm
  have hsame : ∀ pair ∈ (builderOf (phrase.toTree levels source) (phrase.entries none 0)).bound, pair.1 = id →
      pair.2 = number (openedOf (phrase.entries none 0)) (home (phrase.toTree levels source) id) := by
    rintro ⟨_, _⟩ hpair rfl
    exact (mem_notes.mp hpair).2.2.symm
  rw [node?_annotated, opened_toTree hfirst, node?_attachAll hsame]
  cases hnode : (phrase.toTree levels source).node? id with
  | none => rfl
  | some node =>
      obtain ⟨entry, hentry, rfl, rfl⟩ := Phrase.exists_entry_of_node? hnode
      have hnoted : (builderOf (phrase.toTree levels source) (phrase.entries none 0)).bound.any (·.1 = entry.id) =
          !(names (phrase.toTree levels source) entry.id).isEmpty := by
        rw [Bool.eq_iff_iff, List.any_eq_true, Bool.not_eq_true', List.isEmpty_eq_false_iff]
        constructor
        · rintro ⟨⟨_, _⟩, hpair, hid⟩
          obtain rfl := of_decide_eq_true hid
          exact (mem_notes.mp hpair).2.1
        · exact fun hnames => ⟨_, mem_notes.mpr ⟨⟨entry, hentry, rfl⟩, hnames, rfl⟩, decide_eq_true rfl⟩
      rw [Option.map_some, Option.map_some, hnoted]
      cases (names (phrase.toTree levels source) entry.id).isEmpty <;> rfl

end Scope

end Gamebook
