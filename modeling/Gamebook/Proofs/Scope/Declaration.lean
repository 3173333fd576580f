import Gamebook.Proofs.Scene.Lookup

/-!
Names where they are declared. The name in a declaration is looked up like any other. What it can stand for
there is the symbol itself, what was declared before it in its own scope, and what is declared in the scopes
around. So it stands for its own symbol, unless the symbol is hidden from it: a variable of the whole game,
which is bound in the root, by another variable in a scope around the declaration; a label by a later one of
the same name in its scope.
-/

namespace Gamebook

namespace ScopeTree

/-- A binding that its own declaration does not lead to. -/
inductive Hidden (scopes : ScopeTree) (binding : Binding) : Prop
  | shadowed {other : Binding} (hglobal : binding.symbol.isGlobal = true)
      (h : scopes.Candidate binding.symbol.name .var binding.symbol.offset other) (hscope : other.scope ≠ root)
  | repeated {other : Binding} (hlabel : binding.symbol.referenceType = .label) (h : other ∈ scopes.allBindings)
      (hnamed : other.symbol.name = binding.symbol.name ∧ other.symbol.referenceType = .label)
      (hscope : other.scope = binding.scope) (hindex : binding.index < other.index)

/-- A node can declare one variable several times; this is the last of these bindings. -/
def LastOfNode (scopes : ScopeTree) (binding : Binding) : Prop :=
  binding.symbol.referenceType = .var → ∀ other ∈ scopes.allBindings, other.symbol.node = binding.symbol.node →
    other.symbol.name = binding.symbol.name → other.index ≤ binding.index

end ScopeTree

namespace Phrase.Framed

variable {phrase : Phrase} {entry inner other : TreeEntry}

/-- Nothing in a declaration opens a scope or declares something. -/
theorem not_scoped_of_mem_below (h : phrase.Framed) (hentry : entry ∈ phrase.entries none 0)
    (hdeclares : entry.phrase.kind.declares = true) (hinner : inner ∈ entry.below) :
    inner.phrase.kind.isScoped = false := by
  obtain ⟨part, hpart, hinside⟩ := TreeEntry.mem_below_iff.mp hinner
  have hmem := TreeEntry.phrase_mem_parts hpart
  have hlaid : part.phrase.Laid := (Everywhere.inside h.laid hentry).part hmem
  rcases Kind.isInner_or_isName_of_declares hdeclares ((h.fits hentry).admits _ hmem) with hin | hname
  · exact not_scoped_of_plain (hlaid.plain hin) hinside
  · exact not_scoped_of_plain (hlaid.plain_of_isName hname) hinside

/-- What matters to scopes and is met behind a declaration begins behind it. -/
theorem behind_declaration (h : phrase.Framed) (hpair : [entry, other].Sublist (phrase.entries none 0))
    (hdeclares : entry.phrase.kind.declares = true) (hscoped : other.phrase.kind.isScoped = true) :
    entry.phrase.stop ≤ other.phrase.start := by
  cases h.placed hpair (Scope.isScoped_of_declares hdeclares) hscoped with
  | inside hbelow =>
      have hplain := h.not_scoped_of_mem_below (mem_of_sublist_pair hpair).1 hdeclares hbelow
      exact absurd (hplain.symm.trans hscoped) Bool.false_ne_true
  | behind hbehind => exact hbehind
  | modifiers _ _ _ _ hsuccessive =>
      exact absurd ((Kind.isModifier_of_declares hdeclares).symm.trans hsuccessive.kinds.1) Bool.false_ne_true

/-- What matters to scopes is around a declaration, or ends before it, or begins behind it. -/
theorem around_declaration (h : phrase.Framed) (hentry : entry ∈ phrase.entries none 0)
    (hdeclares : entry.phrase.kind.declares = true) (hother : other ∈ phrase.entries none 0)
    (hscoped : other.phrase.kind.isScoped = true) :
    other = entry ∨ entry ∈ other.below ∨ other.phrase.stop ≤ entry.phrase.start ∨
      entry.phrase.stop ≤ other.phrase.start := by
  rcases sublist_or_eq_or_sublist hother hentry with hpair | heq | hpair
  · cases h.placed hpair hscoped (Scope.isScoped_of_declares hdeclares) with
    | inside hbelow => exact .inr (.inl hbelow)
    | behind hbehind => exact .inr (.inr (.inl hbehind))
    | modifiers _ _ _ _ hsuccessive =>
        exact absurd ((Kind.isModifier_of_declares hdeclares).symm.trans hsuccessive.kinds.2) Bool.false_ne_true
  · exact .inl heq
  · exact .inr (.inr (.inr (h.behind_declaration hpair hdeclares hscoped)))

end Phrase.Framed

namespace Scope

open Phrase (kind?_toTree)
open ScopeTree (Candidate Foremost Hidden LastOfNode)

variable {phrase : Phrase} {levels : Levels} {source : Text} {entry inner : TreeEntry} {holder : Option Nat}
  {bound : List (Option Nat × Symbol)} {offset : Nat}

/-! ### The scopes around a node -/

section Scopes

/-- The scope is the root or that of an entry which the given one is inside of. -/
def Surrounds (phrase : Phrase) (holder : Option Nat) (inner : TreeEntry) : Prop :=
  ∀ id, holder = some id →
    ∃ outer ∈ phrase.entries none 0, outer.id = id ∧ outer.phrase.kind.opensScope = true ∧ inner ∈ outer.below

/-- The scopes that an offset in a declaration is in are those around the declaration. -/
theorem inForce_layout (hframed : phrase.Framed) (hsize : phrase.stop ≤ maxOffset)
    (hentry : entry ∈ phrase.entries none 0) (hdeclares : entry.phrase.kind.declares = true)
    (hstart : entry.phrase.start ≤ offset) (hstop : offset < entry.phrase.stop)
    (hholder : holder ∈ owners (openedOf (phrase.entries none 0))) :
    (layout (phrase.toTree levels source) (openedOf (phrase.entries none 0)) bound).InForce offset
      (number (openedOf (phrase.entries none 0)) holder) ↔ Surrounds phrase holder entry := by
  cases holder with
  | none =>
      rw [number_none]
      exact iff_of_true (.inl rfl) nofun
  | some id =>
      obtain ⟨outer, houter, hopens, rfl⟩ := mem_openedOf.mp (some_mem_owners.mp hholder)
      constructor
      · rintro (hroot | ⟨scope, hscope, hbefore, hbehind⟩)
        · rw [← number_none] at hroot
          cases number_inj hholder hroot
        · rw [scope?_layout hholder, Option.some.injEq] at hscope
          subst hscope
          rw [offset_scopeOf_entry houter] at hbefore
          rw [stop_scopeOf_entry hframed hsize houter] at hbehind
          rintro _ ⟨rfl⟩
          refine ⟨outer, houter, rfl, hopens, ?_⟩
          rcases hframed.around_declaration hentry hdeclares houter (isScoped_of_opensScope hopens) with
            rfl | hbelow | hends | hbegins
          · exact absurd ((declares_of_opensScope hopens).symm.trans hdeclares) Bool.false_ne_true
          · exact hbelow
          · omega
          · omega
      · intro hsurrounds
        obtain ⟨other, hother, hid, _, hbelow⟩ := hsurrounds _ rfl
        obtain rfl := Phrase.entry_eq_of_id_eq hother houter hid
        have henclosed := hframed.enclosed hother (TreeEntry.mem_inside_iff.mpr (.inr hbelow))
        refine .inr ⟨_, scope?_layout hholder, ?_, ?_⟩
        · rw [offset_scopeOf_entry hother]
          exact Nat.le_trans henclosed.1 hstart
        · rw [stop_scopeOf_entry hframed hsize hother]
          exact Nat.lt_of_lt_of_le hstop henclosed.2

theorem Surrounds.mem_owners (h : Surrounds phrase holder inner) :
    holder ∈ owners (openedOf (phrase.entries none 0)) := by
  refine Scope.mem_owners.mpr fun id hid => ?_
  obtain ⟨outer, houter, rfl, hopens, _⟩ := h id hid
  exact mem_openedOf.mpr ⟨outer, houter, hopens, rfl⟩

/-- What is around an entry is the scope that it stands in, or is around the node that opens this scope. -/
theorem Surrounds.eq_owner_or (h : Surrounds phrase holder inner) (hinner : inner ∈ phrase.entries none 0) :
    holder = owner (phrase.toTree levels source) inner.id ∨
      ∃ nearest ∈ phrase.entries none 0, nearest.phrase.kind.opensScope = true ∧
        owner (phrase.toTree levels source) inner.id = some nearest.id ∧ Surrounds phrase holder nearest := by
  cases holder with
  | none =>
      cases howner : owner (phrase.toTree levels source) inner.id with
      | none => exact .inl rfl
      | some id =>
          obtain ⟨nearest, hnearest, rfl, hopens, _⟩ := exists_of_owner hinner howner
          exact .inr ⟨nearest, hnearest, hopens, rfl, nofun⟩
  | some id =>
      obtain ⟨outer, houter, rfl, hopens, hbelow⟩ := h id rfl
      obtain ⟨nearest, hnearest, hnearestopens, howner⟩ :=
        @owner_of_mem_below phrase levels source inner outer houter hopens hbelow
      rw [howner]
      rcases TreeEntry.mem_inside_iff.mp hnearest with rfl | hinside
      · exact .inl rfl
      · refine .inr ⟨nearest, Phrase.sublist_inside houter hnearest, hnearestopens, rfl, ?_⟩
        rintro _ ⟨rfl⟩
        exact ⟨outer, houter, rfl, hopens, hinside⟩

/-- The way outward from the scope that an entry stands in leads through all scopes around it. -/
theorem mem_outward_owner (hinner : inner ∈ phrase.entries none 0) (h : Surrounds phrase holder inner) :
    number (openedOf (phrase.entries none 0)) holder ∈
      (layout (phrase.toTree levels source) (openedOf (phrase.entries none 0)) bound).outward
        (number (openedOf (phrase.entries none 0)) (owner (phrase.toTree levels source) inner.id)) := by
  have hwalked := @walked_entries phrase levels source
  induction hnumber : number (openedOf (phrase.entries none 0)) (owner (phrase.toTree levels source) inner.id)
    using Nat.strongRecOn generalizing inner with
  | ind place ih =>
      subst hnumber
      rcases @Surrounds.eq_owner_or phrase levels source inner holder h hinner with
        heq | ⟨nearest, hnearest, hopens, howner, hsurrounds⟩
      · rw [← heq]
        refine ScopeTree.mem_outward_self ?_
        rw [size_layout]
        exact number_lt h.mem_owners
      · have hmem := mem_openedOf.mpr ⟨nearest, hnearest, hopens, rfl⟩
        rw [howner, hwalked.linked.outward_child (parent?_layout (some_mem_owners.mpr hmem))]
        exact List.mem_cons_of_mem _ (ih _ (howner ▸ hwalked.number_lt hmem) hnearest hsurrounds rfl)

end Scopes

/-! ### Symbols and the nodes that declare them -/

section Symbols

variable {tree : Tree} {id : Nat} {node : Node}

theorem name_symbolOf (hnode : tree.node? id = some node) (name : Nat) :
    (symbolOf tree id name).name = tree.name name := by
  simp only [symbolOf, hnode]
  cases node.kind <;> rfl

theorem referenceType_symbolOf (hnode : tree.node? id = some node) (name : Nat) :
    (symbolOf tree id name).referenceType = if node.kind = .labelDeclaration then .label else .var := by
  simp only [symbolOf, hnode]
  cases node.kind <;> rfl

theorem isGlobal_symbolOf (hnode : tree.node? id = some node) (name : Nat) :
    (symbolOf tree id name).isGlobal = true ↔ node.kind = .variableDeclaration .create := by
  simp only [symbolOf, hnode]
  cases hkind : node.kind with
  | variableDeclaration declaration => cases declaration <;> simp [Symbol.isGlobal, variableSymbol]
  | _ => simp [Symbol.isGlobal, plainSymbol]

end Symbols

/-- A symbol of a scene with the entry that declares it. -/
structure DeclaredBy (phrase : Phrase) (levels : Levels) (source : Text) (binding : Binding) (entry : TreeEntry) :
    Prop where
  mem : entry ∈ phrase.entries none 0
  declares : entry.phrase.kind.declares = true
  symbol : ∃ name ∈ names (phrase.toTree levels source) entry.id,
    binding.symbol = symbolOf (phrase.toTree levels source) entry.id name
  held : home (phrase.toTree levels source) entry.id ∈ owners (openedOf (phrase.entries none 0))
  scope : binding.scope = number (openedOf (phrase.entries none 0)) (home (phrase.toTree levels source) entry.id)

section Bound

variable {binding other : Binding}

theorem exists_declaredBy (hfirst : phrase.before = [])
    (h : binding ∈ (nested (phrase.toTree levels source)).allBindings) :
    ∃ entry, DeclaredBy phrase levels source binding entry := by
  obtain ⟨entry, hentry, name, hname, hsymbol, hhome, hscope⟩ := exists_of_binding hfirst h
  exact ⟨entry, hentry, declares_of_mem_names hentry hname, ⟨name, hname, hsymbol⟩, hhome, hscope⟩

namespace DeclaredBy

theorem place (h : DeclaredBy phrase levels source binding entry) :
    binding.symbol.node = entry.id ∧ binding.symbol.offset = entry.phrase.start := by
  obtain ⟨name, _, hsymbol⟩ := h.symbol
  rw [hsymbol]
  exact node_symbolOf (node_eq h.mem) name

theorem referenceType (h : DeclaredBy phrase levels source binding entry) :
    binding.symbol.referenceType = if entry.phrase.kind = .labelDeclaration then .label else .var := by
  obtain ⟨name, _, hsymbol⟩ := h.symbol
  rw [hsymbol]
  exact referenceType_symbolOf (node_eq h.mem) name

theorem label_or_var (h : DeclaredBy phrase levels source binding entry) :
    binding.symbol.referenceType = .label ∨ binding.symbol.referenceType = .var := by
  rw [h.referenceType]
  split
  · exact .inl rfl
  · exact .inr rfl

theorem isGlobal (h : DeclaredBy phrase levels source binding entry) :
    binding.symbol.isGlobal = true ↔ entry.phrase.kind = .variableDeclaration .create := by
  obtain ⟨name, _, hsymbol⟩ := h.symbol
  rw [hsymbol]
  exact isGlobal_symbolOf (node_eq h.mem) name

theorem var_of_isGlobal (h : DeclaredBy phrase levels source binding entry) (hglobal : binding.symbol.isGlobal = true) :
    binding.symbol.referenceType = .var := by
  rw [h.referenceType, h.isGlobal.mp hglobal]
  rfl

theorem home_eq (h : DeclaredBy phrase levels source binding entry) : home (phrase.toTree levels source) entry.id =
    if binding.symbol.isGlobal = true then none else owner (phrase.toTree levels source) entry.id := by
  simp only [home, kind?_toTree levels source h.mem, Option.some.injEq]
  exact if_congr h.isGlobal.symm rfl rfl

theorem surrounds (h : DeclaredBy phrase levels source binding entry) :
    Surrounds phrase (home (phrase.toTree levels source) entry.id) entry := by
  rw [h.home_eq]
  split
  · exact nofun
  · exact fun id hid => exists_of_owner h.mem hid

theorem entry_eq (h : DeclaredBy phrase levels source binding entry)
    (hother : DeclaredBy phrase levels source other inner) (hnode : other.symbol.node = binding.symbol.node) :
    inner = entry := by
  rw [h.place.1, hother.place.1] at hnode
  exact Phrase.entry_eq_of_id_eq hother.mem h.mem hnode

end DeclaredBy

/-- Of two symbols in one scope the second is declared by the node that declares the first, or behind it. -/
theorem behind_of_index_lt (hframed : phrase.Framed) (hfirst : phrase.before = [])
    (hbinding : binding ∈ (nested (phrase.toTree levels source)).allBindings)
    (hother : other ∈ (nested (phrase.toTree levels source)).allBindings) (hscope : other.scope = binding.scope)
    (hindex : binding.index < other.index) : other.symbol.node = binding.symbol.node ∨
      ∃ entry ∈ phrase.entries none 0, entry.id = binding.symbol.node ∧ entry.phrase.stop ≤ other.symbol.offset := by
  have hsymbol := (ScopeTree.mem_bindings_iff.mp (ScopeTree.mem_allBindings_iff.mp hbinding)).2
  have hsymbol' := (ScopeTree.mem_bindings_iff.mp (ScopeTree.mem_allBindings_iff.mp hother)).2
  rw [hscope] at hsymbol'
  have hpairs := @pairwise_symbols_nested phrase levels source
    (fun left right => right.node = left.node ∨
      ∃ entry ∈ phrase.entries none 0, entry.id = left.node ∧ entry.phrase.stop ≤ right.offset) hfirst ?_ ?_ binding.scope
  · obtain ⟨hlt, hleft⟩ := Array.getElem?_eq_some_iff.mp hsymbol
    obtain ⟨hlt', hright⟩ := Array.getElem?_eq_some_iff.mp hsymbol'
    rw [← hleft, ← hright]
    exact List.pairwise_iff_getElem.mp hpairs _ _ hlt hlt' hindex
  · intro entry hentry first second
    left
    rw [(node_symbolOf (node_eq hentry) first).1, (node_symbolOf (node_eq hentry) second).1]
  · intro left right hpair hleft hright first second
    have hmem := mem_of_sublist_pair hpair
    refine .inr ⟨left, hmem.1, (node_symbolOf (node_eq hmem.1) first).1.symm, ?_⟩
    rw [(node_symbolOf (node_eq hmem.2) second).2]
    exact hframed.behind_declaration hpair hleft (isScoped_of_declares hright)

/-! ### Looking up a name where it is declared -/

section Own

variable (hframed : phrase.Framed) (hsize : phrase.stop ≤ maxOffset) (hfirst : phrase.before = [])
  (h : DeclaredBy phrase levels source binding entry)
  (hbinding : binding ∈ (nested (phrase.toTree levels source)).allBindings)
  (hstart : entry.phrase.start ≤ offset) (hstop : offset < entry.phrase.stop)
include hframed hsize hfirst h hstart hstop

theorem inForce_iff (hother : DeclaredBy phrase levels source other inner) :
    (nested (phrase.toTree levels source)).InForce offset other.scope ↔
      Surrounds phrase (home (phrase.toTree levels source) inner.id) entry := by
  rw [nested_toTree hfirst, hother.scope]
  exact inForce_layout hframed hsize h.mem h.declares hstart hstop hother.held

/-- What a name can stand for in a declaration it can stand for where the declaration begins. -/
theorem candidate_start {name : String} {type : ReferenceType} :
    (nested (phrase.toTree levels source)).Candidate name type offset other ↔
      (nested (phrase.toTree levels source)).Candidate name type binding.symbol.offset other := by
  rw [h.place.2]
  have hfilled := Nat.lt_of_le_of_lt hstart hstop
  constructor <;> intro hother <;> obtain ⟨inner, hinner⟩ := exists_declaredBy hfirst hother.bound
  · refine ⟨hother.bound, hother.named, hother.declared.imp_right fun hdeclared => ?_, ?_⟩
    · rw [hinner.place.2] at hdeclared ⊢
      rcases hframed.around_declaration h.mem h.declares hinner.mem (isScoped_of_declares hinner.declares) with
        rfl | hbelow | hends | hbegins
      · exact Nat.le_refl _
      · exact (hframed.enclosed hinner.mem (TreeEntry.mem_inside_iff.mpr (.inr hbelow))).1
      · exact Nat.le_trans (hframed.fits hinner.mem).ordered hends
      · omega
    · exact (inForce_iff hframed hsize hfirst h (Nat.le_refl _) hfilled hinner).mpr
        ((inForce_iff hframed hsize hfirst h hstart hstop hinner).mp hother.inForce)
  · refine ⟨hother.bound, hother.named, hother.declared.imp_right fun hdeclared => Nat.le_trans hdeclared hstart, ?_⟩
    exact (inForce_iff hframed hsize hfirst h hstart hstop hinner).mpr
      ((inForce_iff hframed hsize hfirst h (Nat.le_refl _) hfilled hinner).mp hother.inForce)

include hbinding in
theorem candidate_self : (nested (phrase.toTree levels source)).Candidate binding.symbol.name
    binding.symbol.referenceType offset binding where
  bound := hbinding
  named := ⟨rfl, rfl⟩
  declared := .inr (h.place.2 ▸ hstart)
  inForce := (inForce_iff hframed hsize hfirst h hstart hstop h).mpr h.surrounds

omit hstart hstop in
theorem outward_of_isGlobal (hglobal : binding.symbol.isGlobal = true) :
    (nested (phrase.toTree levels source)).outward binding.scope = [ScopeTree.root] := by
  have hsearchable := @searchable_nested phrase levels source hframed hsize hfirst
  rw [h.scope, h.home_eq, if_pos hglobal, number_none]
  exact ScopeTree.outward_of_parent?_none hsearchable.filled hsearchable.free

theorem not_hidden_of_foremost (hforemost : (nested (phrase.toTree levels source)).Foremost
    ((nested (phrase.toTree levels source)).Candidate binding.symbol.name binding.symbol.referenceType offset) binding) :
    ¬(nested (phrase.toTree levels source)).Hidden binding := by
  rintro (⟨hglobal, hcandidate, hscope⟩ | ⟨hlabel, hbound, hnamed, hscope, hindex⟩)
  · rw [← candidate_start hframed hsize hfirst h hstart hstop, ← h.var_of_isGlobal hglobal] at hcandidate
    have hmem := hforemost.innermost _ hcandidate
    rw [outward_of_isGlobal hframed hsize hfirst h hglobal, List.mem_singleton] at hmem
    exact hscope hmem
  · have hle := hforemost.last _ ⟨hbound, ⟨hnamed.1, hnamed.2.trans hlabel.symm⟩, .inl hlabel,
      hscope ▸ hforemost.mem.inForce⟩ hscope
    exact absurd hle (Nat.not_le.mpr hindex)

include hbinding

/-- In its declaration a name stands for its own symbol, unless that is hidden. -/
theorem foremost_of_not_hidden (hlast : (nested (phrase.toTree levels source)).LastOfNode binding)
    (hvisible : ¬(nested (phrase.toTree levels source)).Hidden binding) :
    (nested (phrase.toTree levels source)).Foremost ((nested (phrase.toTree levels source)).Candidate
      binding.symbol.name binding.symbol.referenceType offset) binding where
  mem := candidate_self hframed hsize hfirst h hbinding hstart hstop
  innermost := by
    intro other hother
    by_cases hglobal : binding.symbol.isGlobal = true
    · rw [outward_of_isGlobal hframed hsize hfirst h hglobal, List.mem_singleton]
      by_contra hscope
      rw [candidate_start hframed hsize hfirst h hstart hstop, h.var_of_isGlobal hglobal] at hother
      exact hvisible (.shadowed hglobal hother hscope)
    · obtain ⟨inner, hinner⟩ := exists_declaredBy hfirst hother.bound
      have hsurrounds := (inForce_iff hframed hsize hfirst h hstart hstop hinner).mp hother.inForce
      rw [h.scope, h.home_eq, if_neg hglobal, hinner.scope, nested_toTree hfirst]
      exact mem_outward_owner h.mem hsurrounds
  last := by
    intro other hother hscope
    by_contra hnot
    have hindex := Nat.not_le.mp hnot
    rcases h.label_or_var with hlabel | hvar
    · exact hvisible (.repeated hlabel hother.bound ⟨hother.named.1, hother.named.2.trans hlabel⟩ hscope hindex)
    · have hdeclared := hother.declared.resolve_left fun hlabel => nomatch hvar.symm.trans hlabel
      rcases behind_of_index_lt hframed hfirst hbinding hother.bound hscope hindex with hnode | hbehind
      · exact hnot (hlast hvar other hother.bound hnode hother.named.1)
      · obtain ⟨outer, houter, hid, hends⟩ := hbehind
        rw [h.place.1] at hid
        obtain rfl := Phrase.entry_eq_of_id_eq houter h.mem hid
        omega

end Own

end Bound

end Scope

end Gamebook
