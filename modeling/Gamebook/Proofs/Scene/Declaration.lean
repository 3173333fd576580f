import Gamebook.Proofs.Scope.Declaration
import Gamebook.Proofs.Tree.Bare

/-!
Declarations among the references. The references to a symbol are the names that lead to it. The name in its
declaration is one of them, unless the symbol is hidden from its own declaration.
-/

namespace Gamebook

/-- A node is the name of a symbol: a name below the declaring node that reads as the symbol does. -/
structure Symbol.NamedBy (symbol : Symbol) (tree : Tree) (id : Nat) : Prop where
  child : id ∈ tree.children symbol.node
  kind : tree.kind? id = some .var ∨ tree.kind? id = some .label
  text : tree.name id = symbol.name

theorem Symbol.namedBy_bare {symbol : Symbol} {tree : Tree} {id : Nat} :
    symbol.NamedBy tree.bare id ↔ symbol.NamedBy tree id := by
  constructor <;> intro h
  · exact ⟨by simpa using h.child, by simpa using h.kind, by simpa using h.text⟩
  · exact ⟨by simpa using h.child, by simpa using h.kind, by simpa using h.text⟩

theorem Symbol.NamedBy.known {symbol : Symbol} {tree : Tree} {id : Nat} {node : Node} (h : symbol.NamedBy tree id)
    (hnode : tree.node? id = some node) : node.kind.referenceType ≠ .unknown := by
  have hkind := h.kind
  rw [Tree.kind?, hnode, Option.map_some, Option.some.injEq, Option.some.injEq] at hkind
  rcases hkind with hkind | hkind <;> rw [hkind] <;> decide

/-- What a name in a declaration refers to is what the declaration declares. -/
theorem Kind.referenceType_of_declares {outer inner : Kind} (houter : outer.declares = true)
    (h : outer.admits inner = true) (hinner : inner = .var ∨ inner = .label) :
    inner.referenceType = if outer = .labelDeclaration then .label else .var := by
  by_cases hlabel : outer = .labelDeclaration
  · subst hlabel
    obtain rfl := beq_iff_eq.mp h
    rfl
  · rw [if_neg hlabel]
    rcases hinner with rfl | rfl
    · rfl
    · cases outer with
      | labelDeclaration => exact absurd rfl hlabel
      | variableDeclaration _ => cases h
      | standardCommand name =>
          obtain rfl := beq_iff_eq.mp houter
          exact absurd h (by decide)
      | _ => cases houter

namespace Scope

open ScopeTree (Candidate Foremost Hidden LastOfNode)

theorem mem_names {tree : Tree} {id name : Nat} (h : name ∈ names tree id) :
    name ∈ tree.children id ∧ (tree.kind? name = some .var ∨ tree.kind? name = some .label) := by
  have hkind : ∀ {kind : Kind}, (tree.kind? name).any (· == kind) = true → tree.kind? name = some kind := by
    intro kind hany
    obtain ⟨other, hother, hsame⟩ := (Option.any_eq_true _ _).mp hany
    rw [hother, beq_iff_eq.mp hsame]
  unfold names at h
  split at h
  · have hfound : (tree.children id).find? (fun child => (tree.kind? child).any (· == .var)) = some name :=
      Option.mem_toList.mp h
    have htest := List.find?_some hfound
    exact ⟨List.mem_of_find?_eq_some hfound, .inl (hkind htest)⟩
  · obtain ⟨hchild, htest⟩ := List.mem_filter.mp h
    exact ⟨hchild, .inr (hkind htest)⟩
  · split at h
    · obtain ⟨hchild, htest⟩ := List.mem_filter.mp h
      exact ⟨hchild, .inl (hkind htest)⟩
    · cases h
  · cases h

variable {phrase : Phrase} {levels : Levels} {source : Text} {entry inner : TreeEntry} {binding other : Binding}

theorem DeclaredBy.exists_namedBy (h : DeclaredBy phrase levels source binding entry) :
    ∃ id, binding.symbol.NamedBy (phrase.toTree levels source) id := by
  obtain ⟨name, hname, hsymbol⟩ := h.symbol
  obtain ⟨hchild, hkind⟩ := mem_names hname
  refine ⟨name, h.place.1 ▸ hchild, hkind, ?_⟩
  rw [hsymbol, name_symbolOf (node_eq h.mem)]

/-- The name of a symbol is a part of the declaration and begins in it. -/
theorem DeclaredBy.exists_part {id : Nat} (hframed : phrase.Framed) (h : DeclaredBy phrase levels source binding entry)
    (hid : binding.symbol.NamedBy (phrase.toTree levels source) id) :
    ∃ part ∈ entry.parts, part.id = id ∧ part.phrase.kind.referenceType = binding.symbol.referenceType ∧
      entry.phrase.start ≤ part.phrase.start ∧ part.phrase.start < entry.phrase.stop := by
  have hchild := hid.child
  rw [h.place.1, Phrase.children_toTree levels source h.mem] at hchild
  obtain ⟨part, hpart, rfl⟩ := List.mem_map.mp hchild
  have hmem := Phrase.parts_subset_entries none 0 phrase entry h.mem hpart
  have hkind := hid.kind
  rw [Phrase.kind?_toTree levels source hmem, Option.some.injEq, Option.some.injEq] at hkind
  have hadmits := (hframed.fits h.mem).admits _ (TreeEntry.phrase_mem_parts hpart)
  have henclosed := hframed.enclosed h.mem (TreeEntry.mem_inside_iff.mpr (.inr (TreeEntry.mem_below_of_mem_parts hpart)))
  have hname : part.phrase.kind.isName = true := by rcases hkind with heq | heq <;> rw [heq] <;> rfl
  have hfilled := (hframed.fits hmem).filled (.inl hname)
  refine ⟨part, hpart, rfl, ?_, henclosed.1, Nat.lt_of_lt_of_le hfilled henclosed.2⟩
  rw [h.referenceType]
  exact Kind.referenceType_of_declares h.declares hadmits hkind

/-- No scene is named beside a name in a declaration. -/
theorem DeclaredBy.qualifier?_part {part : TreeEntry} (h : DeclaredBy phrase levels source binding entry)
    (hpart : part ∈ entry.parts) : Lookup.qualifier? (phrase.toTree levels source) part.id = none := by
  have hmem := Phrase.parts_subset_entries none 0 phrase entry h.mem hpart
  have hparent := Phrase.parent?_toTree levels source hmem
  rw [TreeEntry.parent_of_mem_parts hpart] at hparent
  have habove : (phrase.toTree levels source).kind? entry.id ≠ some .labelRef := by
    rw [Phrase.kind?_toTree levels source h.mem, Ne, Option.some.injEq]
    intro heq
    have hdeclares := h.declares
    rw [heq] at hdeclares
    cases hdeclares
  simp only [Lookup.qualifier?, hparent, if_neg habove, ite_self]

/-- What a name stands for is the last of what one node declares under that name. -/
theorem lastOfNode_of_foremost {name : String} {type : ReferenceType} {offset : Nat} (hfirst : phrase.before = [])
    (h : (nested (phrase.toTree levels source)).Foremost
      ((nested (phrase.toTree levels source)).Candidate name type offset) binding) :
    (nested (phrase.toTree levels source)).LastOfNode binding := by
  intro _ other hother hnode hname
  obtain ⟨entry, hentry⟩ := exists_declaredBy hfirst h.mem.bound
  obtain ⟨inner, hinner⟩ := exists_declaredBy hfirst hother
  obtain rfl := hentry.entry_eq hinner hnode
  have hscope : other.scope = binding.scope := hinner.scope.trans hentry.scope.symm
  refine h.last other ⟨hother, ⟨hname.trans h.mem.named.1, ?_⟩, ?_, hscope ▸ h.mem.inForce⟩ hscope
  · exact (hinner.referenceType.trans hentry.referenceType.symm).trans h.mem.named.2
  · exact h.mem.declared.imp_right fun hdeclared => hinner.place.2.trans hentry.place.2.symm ▸ hdeclared

/-- So is a variable that is found in the root as one of the whole game. -/
theorem lastOfNode_of_global {name : String} (hfirst : phrase.before = [])
    (h : ((nested (phrase.toTree levels source)).bindings ScopeTree.root).reverse.find?
      (fun binding => binding.symbol.isGlobal && binding.symbol.name == name) = some binding) :
    (nested (phrase.toTree levels source)).LastOfNode binding := by
  obtain ⟨⟨hmem, htest⟩, hlast⟩ := (find?_reverse_eq_some_iff (ScopeTree.pairwise_bindings _ _)).mp h
  rw [Bool.and_eq_true, beq_iff_eq] at htest
  have hroot := (ScopeTree.mem_bindings_iff.mp hmem).1
  intro _ other hother hnode hname
  obtain ⟨entry, hentry⟩ := exists_declaredBy hfirst (ScopeTree.mem_allBindings_iff.mpr (hroot.symm ▸ hmem))
  obtain ⟨inner, hinner⟩ := exists_declaredBy hfirst hother
  obtain rfl := hentry.entry_eq hinner hnode
  have hscope : other.scope = ScopeTree.root := (hinner.scope.trans hentry.scope.symm).trans hroot
  refine hlast other (hscope ▸ ScopeTree.mem_allBindings_iff.mp hother) ?_
  rw [Bool.and_eq_true, beq_iff_eq]
  exact ⟨hinner.isGlobal.mpr (hentry.isGlobal.mp htest.1), hname.trans htest.2⟩

end Scope

namespace Lookup

/-- Looking up the name of a binding, which leads to some symbol, and back to the binding unless that is
hidden. -/
structure Returns (lookup : Lookup) (binding : Binding) (id : Nat) (node : Node) : Prop where
  here : lookup.tree.node? id = some node
  type : node.kind.referenceType = binding.symbol.referenceType
  unqualified : qualifier? lookup.tree id = none
  found : ∃ found, lookup.find? binding.symbol.name binding.symbol.referenceType node.offset = some found ∧
    (found = binding ↔ ¬lookup.scopes.Hidden binding)

/-- Among the references to every symbol that a name stands for are the names in its declaration, unless it
is hidden. -/
structure DeclarationsReferenced (lookup : Lookup) : Prop where
  named : ∀ name type offset binding, lookup.find? name type offset = some binding →
    ∃ id, binding.symbol.NamedBy lookup.tree id
  referenced : ∀ name type offset binding, lookup.find? name type offset = some binding →
    ∀ id, binding.symbol.NamedBy lookup.tree id →
      (id ∈ lookup.references binding ↔ ¬lookup.scopes.Hidden binding)

variable {lookup : Lookup} {binding : Binding} {id : Nat} {node : Node}

theorem Returns.mem_references_iff (h : lookup.Returns binding id node) (hbinding : binding ∈ lookup.scopes.allBindings)
    (hid : binding.symbol.NamedBy lookup.tree id) :
    id ∈ lookup.references binding ↔ ¬lookup.scopes.Hidden binding := by
  obtain ⟨found, hfound, hsame⟩ := h.found
  have hids : id ∈ lookup.tree.ids := by
    rw [Tree.ids, List.mem_range]
    exact (Array.getElem?_eq_some_iff.mp h.here).1
  rw [← hid.text, ← h.type] at hfound
  have hleads := ofNode?_eq_some_iff.mpr ⟨node, h.here, h.unqualified, hid.known h.here, hfound⟩
  rw [references, List.mem_filter, and_iff_right hids, refersTo_iff hbinding, hleads, Option.some.injEq, hsame]

end Lookup

namespace Scene

variable {source : Text} {name uri : Option String} {levels : Levels}

theorem bare_lookup (source : Text) (name uri : Option String) (levels : Levels) :
    (lookup source name uri levels).tree.bare = (Scene.parse source name uri levels).bare := Scope.bare_build _

theorem scopes_lookup (name uri : Option String) (levels : Levels) (hsize : Text.bytes source ≤ maxOffset) :
    (lookup source name uri levels).scopes = Scope.nested (Scene.parse source name uri levels) :=
  congrArg Lookup.scopes (lookup_eq source name uri levels hsize)

theorem exists_namedBy (hsize : Text.bytes source ≤ maxOffset) {binding : Binding}
    (hbinding : binding ∈ (lookup source name uri levels).scopes.allBindings) :
    ∃ id, binding.symbol.NamedBy (lookup source name uri levels).tree id := by
  rw [scopes_lookup name uri levels hsize] at hbinding
  obtain ⟨entry, hentry⟩ := Scope.exists_declaredBy rfl hbinding
  obtain ⟨id, hid⟩ := hentry.exists_namedBy
  refine ⟨id, ?_⟩
  rw [← Symbol.namedBy_bare, bare_lookup, Symbol.namedBy_bare]
  exact hid

/-- Wherever a scene declares something, the name leads back to it unless it is hidden. -/
theorem exists_returns (hsize : Text.bytes source ≤ maxOffset) {binding : Binding} {id : Nat}
    (hbinding : binding ∈ (lookup source name uri levels).scopes.allBindings)
    (hlast : (lookup source name uri levels).scopes.LastOfNode binding)
    (hid : binding.symbol.NamedBy (lookup source name uri levels).tree id) :
    ∃ node, (lookup source name uri levels).Returns binding id node := by
  have hsearchable := searchable_lookup source name uri levels hsize
  have hscopes := scopes_lookup name uri levels hsize
  have hbare := bare_lookup source name uri levels
  have hframed := framed_phrase source name uri
  rw [← Symbol.namedBy_bare, hbare, Symbol.namedBy_bare] at hid
  obtain ⟨entry, hentry⟩ := Scope.exists_declaredBy rfl (hscopes ▸ hbinding)
  obtain ⟨part, hpart, rfl, htype, hstart, hbehind⟩ := hentry.exists_part hframed hid
  have hmem := Phrase.parts_subset_entries none 0 _ entry hentry.mem hpart
  obtain ⟨node, hnode, hsame⟩ := Tree.exists_node?_of_bare_eq part.id hbare (Phrase.node?_toTree levels source hmem)
  have hkind : node.kind = part.phrase.kind := congrArg Node.kind hsame
  have hoffset : node.offset = part.phrase.start := congrArg Node.offset hsame
  refine ⟨node, hnode, hkind ▸ htype, ?_, ?_⟩
  · rw [← Tree.qualifier?_bare, hbare, Tree.qualifier?_bare]
    exact hentry.qualifier?_part hpart
  · rw [← (phrase_range source name uri).2] at hsize
    rw [hscopes] at hlast hbinding
    have hself := Scope.candidate_self hframed hsize rfl hentry hbinding hstart hbehind
    obtain ⟨found, hfound, hsame⟩ := Lookup.find?_of_candidate hsearchable (hscopes ▸ hself)
    rw [hoffset, hscopes]
    rw [hscopes] at hsame
    exact ⟨found, hfound, hsame.trans ⟨Scope.not_hidden_of_foremost hframed hsize rfl hentry hstart hbehind,
      Scope.foremost_of_not_hidden hframed hsize rfl hentry hbinding hstart hbehind hlast⟩⟩

/-- What a name stands for is the last of what one node declares under that name. -/
theorem lastOfNode_of_find? (hsize : Text.bytes source ≤ maxOffset) {text : String} {type : ReferenceType}
    {offset : Nat} {binding : Binding} (hfound : (lookup source name uri levels).find? text type offset = some binding) :
    (lookup source name uri levels).scopes.LastOfNode binding := by
  have htype := (Lookup.mem_of_find? hfound).2.2
  rcases (Lookup.find?_eq_some_iff (searchable_lookup source name uri levels hsize)).mp hfound with hforemost | hlabel
  · rw [scopes_lookup name uri levels hsize] at hforemost ⊢
    exact Scope.lastOfNode_of_foremost rfl hforemost
  · intro hvar
    rw [htype, hlabel.1] at hvar
    cases hvar

theorem declarationsReferenced_lookup (name uri : Option String) (levels : Levels)
    (hsize : Text.bytes source ≤ maxOffset) : (lookup source name uri levels).DeclarationsReferenced := by
  refine ⟨fun text type offset binding hfound => ?_, fun text type offset binding hfound id hid => ?_⟩
  · exact exists_namedBy hsize (Lookup.mem_of_find? hfound).1
  · have hbinding := (Lookup.mem_of_find? hfound).1
    obtain ⟨node, hreturns⟩ := exists_returns hsize hbinding (lastOfNode_of_find? hsize hfound) hid
    exact hreturns.mem_references_iff hbinding hid

end Scene

end Gamebook
