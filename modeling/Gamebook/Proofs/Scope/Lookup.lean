import Gamebook.Lookup
import Gamebook.Proofs.Scope.Search
import Mathlib.Data.List.Nodup

/-!
What a name stands for. Of the symbols that a name can stand for at an offset the one in the innermost
scope counts, and in one scope the last. The search outward finds it, if the search for the scope around an
offset comes by all scopes that the offset is in and that bind something.
-/

namespace Gamebook

theorem find?_reverse_eq_some_iff {elements : List α} {element : α} {test : α → Bool} {rank : α → Nat}
    (hsorted : elements.Pairwise fun left right => rank left < rank right) :
    elements.reverse.find? test = some element ↔
      (element ∈ elements ∧ test element = true) ∧
        ∀ other ∈ elements, test other = true → rank other ≤ rank element := by
  have hlast : ∀ {element}, elements.reverse.find? test = some element →
      (element ∈ elements ∧ test element = true) ∧
        ∀ other ∈ elements, test other = true → rank other ≤ rank element := by
    intro element hfound
    obtain ⟨htest, before, after, hsplit, hbefore⟩ := List.find?_eq_some_iff_append.mp hfound
    have helements : elements = after.reverse ++ element :: before.reverse := by
      rw [← List.reverse_reverse elements, hsplit]
      simp
    subst helements
    refine ⟨⟨by simp, htest⟩, fun other hother hpasses => ?_⟩
    rcases List.mem_append.mp hother with hlower | hupper
    · exact Nat.le_of_lt ((List.pairwise_append.mp hsorted).2.2 other hlower element List.mem_cons_self)
    · rcases List.mem_cons.mp hupper with rfl | hbehind
      · exact Nat.le_refl _
      · have hfails := hbefore other (List.mem_reverse.mp hbehind)
        rw [hpasses] at hfails
        cases hfails
  constructor
  · exact hlast
  · rintro ⟨⟨hmem, htest⟩, hmost⟩
    cases hfound : elements.reverse.find? test with
    | none =>
        have hnone := List.find?_eq_none.mp hfound element (List.mem_reverse.mpr hmem)
        exact absurd htest hnone
    | some found =>
        obtain ⟨⟨hfoundmem, hfoundtest⟩, hfoundmost⟩ := hlast hfound
        have hrank : rank found = rank element :=
          Nat.le_antisymm (hmost found hfoundmem hfoundtest) (hfoundmost element hmem htest)
        have hnodup : (elements.map rank).Nodup := List.pairwise_map.mpr (hsorted.imp Nat.ne_of_lt)
        exact congrArg some (List.inj_on_of_nodup_map hnodup hfoundmem hmem hrank)

namespace ScopeTree

variable {scopes : ScopeTree} {id scope offset : Nat} {binding other : Binding} {name : String}
  {type : ReferenceType}

/-! ### Bindings -/

theorem mem_bindings_iff :
    binding ∈ scopes.bindings id ↔ binding.scope = id ∧ (scopes.symbols id)[binding.index]? = some binding.symbol := by
  obtain ⟨scope, index, symbol⟩ := binding
  rw [bindings, List.mem_map]
  constructor
  · rintro ⟨⟨symbol', index'⟩, hmem, heq⟩
    cases heq
    rw [List.mem_zipIdx_iff_getElem?, Array.getElem?_toList] at hmem
    exact ⟨rfl, hmem⟩
  · rintro ⟨rfl, hsymbol⟩
    refine ⟨(symbol, index), ?_, rfl⟩
    rw [List.mem_zipIdx_iff_getElem?, Array.getElem?_toList]
    exact hsymbol

theorem pairwise_bindings (scopes : ScopeTree) (id : Nat) :
    (scopes.bindings id).Pairwise fun left right => left.index < right.index := by
  have hindices : (scopes.bindings id).map (·.index) = List.range' 0 (scopes.symbols id).toList.length := by
    rw [bindings, List.map_map, ← List.zipIdx_map_snd]
    rfl
  rw [← List.pairwise_map, hindices]
  exact List.pairwise_lt_range' 1

theorem lt_size_of_mem_bindings (h : binding ∈ scopes.bindings id) : id < scopes.size := by
  by_contra hnot
  have hnone : scopes.scope? id = none := Array.getElem?_eq_none (Nat.not_lt.mp hnot)
  have hsymbol := (mem_bindings_iff.mp h).2
  rw [symbols, hnone] at hsymbol
  cases hsymbol

theorem mem_allBindings_iff : binding ∈ scopes.allBindings ↔ binding ∈ scopes.bindings binding.scope := by
  rw [allBindings, List.mem_flatMap]
  constructor
  · rintro ⟨id, _, hmem⟩
    rwa [(mem_bindings_iff.mp hmem).1]
  · intro hmem
    exact ⟨binding.scope, List.mem_range.mpr (lt_size_of_mem_bindings hmem), hmem⟩

/-- A binding is told by its scope and its place there. -/
theorem eq_of_place (hbinding : binding ∈ scopes.allBindings) (hother : other ∈ scopes.allBindings)
    (hscope : binding.scope = other.scope) (hindex : binding.index = other.index) : binding = other := by
  have hsymbol := (mem_bindings_iff.mp (mem_allBindings_iff.mp hbinding)).2
  have hsymbol' := (mem_bindings_iff.mp (mem_allBindings_iff.mp hother)).2
  rw [hscope, hindex, hsymbol', Option.some.injEq] at hsymbol
  obtain ⟨_, _, _⟩ := binding
  obtain ⟨_, _, _⟩ := other
  cases hscope
  cases hindex
  cases hsymbol
  rfl

theorem same_iff (hbinding : binding ∈ scopes.allBindings) (hother : other ∈ scopes.allBindings) :
    binding.same other = true ↔ binding = other := by
  rw [Binding.same, Bool.and_eq_true, beq_iff_eq, beq_iff_eq]
  constructor
  · exact fun hplace => eq_of_place hbinding hother hplace.1 hplace.2
  · rintro rfl
    exact ⟨rfl, rfl⟩

/-! ### Outward -/

/-- From each scope on the way outward the rest of the way is its own. -/
theorem Linked.outward_of_split (hlinked : scopes.Linked) {front back : List Nat} (hsize : id < scopes.size)
    (hsplit : scopes.outward id = front ++ scope :: back) : scopes.outward scope = scope :: back := by
  induction front generalizing id with
  | nil =>
      cases hparent : scopes.parent? id with
      | none =>
          rw [outward_of_parent?_none hsize hparent, List.nil_append, List.cons.injEq] at hsplit
          obtain ⟨rfl, rfl⟩ := hsplit
          exact outward_of_parent?_none hsize hparent
      | some above =>
          have hown := hlinked.outward_child hparent
          rw [hsplit, List.nil_append, List.cons.injEq] at hown
          rw [hown.1, hlinked.outward_child hparent, hown.2]
  | cons first more ih =>
      cases hparent : scopes.parent? id with
      | none =>
          rw [outward_of_parent?_none hsize hparent, List.cons_append, List.cons.injEq] at hsplit
          exact absurd hsplit.2 (by simp)
      | some above =>
          rw [hlinked.outward_child hparent, List.cons_append, List.cons.injEq] at hsplit
          exact ih (Nat.lt_trans (hlinked.rank above id hparent) hsize) hsplit.2

theorem Linked.le_of_mem_outward (hlinked : scopes.Linked) (hsize : id < scopes.size) (h : scope ∈ scopes.outward id) :
    scope ≤ id := by
  induction id using Nat.strongRecOn with
  | ind id ih =>
      cases hparent : scopes.parent? id with
      | none =>
          rw [outward_of_parent?_none hsize hparent, List.mem_singleton] at h
          exact Nat.le_of_eq h
      | some above =>
          have hlt := hlinked.rank above id hparent
          rw [hlinked.outward_child hparent] at h
          rcases List.mem_cons.mp h with rfl | hmem
          · exact Nat.le_refl _
          · exact Nat.le_trans (ih above hlt (Nat.lt_trans hlt hsize) hmem) (Nat.le_of_lt hlt)

/-! ### The declarative side -/

/-- An offset is in a scope; in the root are all. -/
def InForce (scopes : ScopeTree) (offset id : Nat) : Prop :=
  id = root ∨ ∃ scope, scopes.scope? id = some scope ∧ scope.offset ≤ offset ∧ offset < scope.stop

/-- What a name can stand for at an offset: what is bound under that name in a scope that the offset is in,
in the case of a variable at the offset or before it. -/
structure Candidate (scopes : ScopeTree) (name : String) (type : ReferenceType) (offset : Nat) (binding : Binding) :
    Prop where
  bound : binding ∈ scopes.allBindings
  named : binding.symbol.name = name ∧ binding.symbol.referenceType = type
  declared : type = .label ∨ binding.symbol.offset ≤ offset
  inForce : scopes.InForce offset binding.scope

/-- Of some bindings the last one in the innermost scope: all others are in the same scope, and there not
behind it, or in scopes around. -/
structure Foremost (scopes : ScopeTree) (among : Binding → Prop) (binding : Binding) : Prop where
  mem : among binding
  innermost : ∀ other, among other → other.scope ∈ scopes.outward binding.scope
  last : ∀ other, among other → other.scope = binding.scope → other.index ≤ binding.index

/-- The scope tree can be searched: the search for the scope around an offset leads through all scopes that
bind something and that the offset is in. -/
structure Searchable (scopes : ScopeTree) : Prop where
  linked : scopes.Linked
  filled : root < scopes.size
  free : scopes.parent? root = none
  found : ∀ binding ∈ scopes.allBindings, ∀ offset, scopes.InForce offset binding.scope →
    binding.scope ∈ scopes.outward (scopes.find offset 0)

/-- What the search for a name in one scope accepts. -/
theorem candidate_iff : scopes.Candidate name type offset binding ↔
    (binding ∈ scopes.bindings binding.scope ∧
      (binding.symbol.answers name type && binding.symbol.countsAt offset) = true) ∧
        scopes.InForce offset binding.scope := by
  rw [Symbol.answers, Symbol.countsAt, Bool.and_eq_true, Bool.and_eq_true, beq_iff_eq, beq_iff_eq, Bool.or_eq_true,
    beq_iff_eq, decide_eq_true_eq, ← mem_allBindings_iff]
  constructor
  · rintro ⟨hbound, ⟨hname, htype⟩, hdeclared, hforce⟩
    exact ⟨⟨hbound, ⟨hname, htype⟩, htype ▸ hdeclared⟩, hforce⟩
  · rintro ⟨⟨hbound, ⟨hname, htype⟩, hdeclared⟩, hforce⟩
    exact ⟨hbound, ⟨hname, htype⟩, htype ▸ hdeclared, hforce⟩

namespace Searchable

theorem find_lt_size (h : scopes.Searchable) (offset : Nat) : scopes.find offset 0 < scopes.size := by
  rcases (h.linked.leadsTo_find offset 0).1.cases_tail with heq | ⟨_, _, hchild⟩
  · rw [heq]
    exact h.filled
  · exact (h.linked.childAt?_bounds hchild).2.2

/-- The offset is in all scopes on the way outward. -/
theorem inForce_of_mem_outward (h : scopes.Searchable) (hid : id ∈ scopes.outward (scopes.find offset 0)) :
    scopes.InForce offset id := by
  rcases h.linked.holds_of_mem_outward h.filled h.free (h.linked.leadsTo_find offset 0).1 id hid with rfl | hholds
  · exact .inl rfl
  · obtain ⟨scope, hscope, hcontains⟩ := (Option.any_eq_true _ _).mp hholds
    simp only [Scope.contains, Bool.and_eq_true, decide_eq_true_eq] at hcontains
    exact .inr ⟨scope, hscope, hcontains.1⟩

theorem findIn?_eq_some_iff (hid : scopes.InForce offset id) : scopes.findIn? id name type offset = some binding ↔
    (scopes.Candidate name type offset binding ∧ binding.scope = id) ∧
      ∀ other, scopes.Candidate name type offset other → other.scope = id → other.index ≤ binding.index := by
  rw [findIn?, find?_reverse_eq_some_iff (scopes.pairwise_bindings id)]
  constructor
  · rintro ⟨⟨hmem, htest⟩, hlast⟩
    obtain rfl := (mem_bindings_iff.mp hmem).1
    refine ⟨⟨candidate_iff.mpr ⟨⟨hmem, htest⟩, hid⟩, rfl⟩, fun other hother hscope => ?_⟩
    obtain ⟨⟨hothermem, hothertest⟩, _⟩ := candidate_iff.mp hother
    exact hlast other (hscope ▸ hothermem) hothertest
  · rintro ⟨⟨hcandidate, rfl⟩, hlast⟩
    obtain ⟨⟨hmem, htest⟩, _⟩ := candidate_iff.mp hcandidate
    refine ⟨⟨hmem, htest⟩, fun other hother hothertest => ?_⟩
    have hscope := (mem_bindings_iff.mp hother).1
    exact hlast other (candidate_iff.mpr ⟨⟨hscope ▸ hother, hothertest⟩, hscope ▸ hid⟩) hscope

theorem findIn?_eq_none (hcandidate : scopes.Candidate name type offset binding) :
    scopes.findIn? binding.scope name type offset ≠ none := by
  intro hnone
  obtain ⟨⟨hmem, htest⟩, _⟩ := candidate_iff.mp hcandidate
  exact List.find?_eq_none.mp hnone binding (List.mem_reverse.mpr hmem) htest

/-- The search outward finds the foremost of the bindings that the name can stand for. -/
theorem findSome?_eq_some_iff (h : scopes.Searchable) :
    (scopes.outward (scopes.find offset 0)).findSome? (scopes.findIn? · name type offset) = some binding ↔
      scopes.Foremost (scopes.Candidate name type offset) binding := by
  have hforemost : ∀ {binding}, (scopes.outward (scopes.find offset 0)).findSome?
      (scopes.findIn? · name type offset) = some binding →
        scopes.Foremost (scopes.Candidate name type offset) binding := by
    intro binding hfound
    obtain ⟨front, scope, back, hsplit, hin, hfront⟩ := List.findSome?_eq_some_iff.mp hfound
    have hscope : scope ∈ scopes.outward (scopes.find offset 0) := by simp [hsplit]
    obtain ⟨⟨hcandidate, rfl⟩, hlast⟩ := (findIn?_eq_some_iff (h.inForce_of_mem_outward hscope)).mp hin
    refine ⟨hcandidate, fun other hother => ?_, hlast⟩
    -- in the scopes that the search has passed there is no other one
    have hmem := h.found other hother.bound offset hother.inForce
    rw [hsplit] at hmem
    rcases List.mem_append.mp hmem with hpassed | hbehind
    · exact absurd (hfront other.scope hpassed) (findIn?_eq_none hother)
    · rwa [h.linked.outward_of_split (h.find_lt_size offset) hsplit]
  constructor
  · exact hforemost
  · intro hbinding
    cases hfound : (scopes.outward (scopes.find offset 0)).findSome? (scopes.findIn? · name type offset) with
    | none =>
        have hscope := h.found binding hbinding.mem.bound offset hbinding.mem.inForce
        exact absurd (List.findSome?_eq_none_iff.mp hfound binding.scope hscope) (findIn?_eq_none hbinding.mem)
    | some found =>
        have hother := hforemost hfound
        have hsize : ∀ {binding}, binding ∈ scopes.allBindings → binding.scope < scopes.size :=
          fun hmem => lt_size_of_mem_bindings (mem_allBindings_iff.mp hmem)
        have hscope : found.scope = binding.scope := Nat.le_antisymm
          (h.linked.le_of_mem_outward (hsize hbinding.mem.bound) (hbinding.innermost found hother.mem))
          (h.linked.le_of_mem_outward (hsize hother.mem.bound) (hother.innermost binding hbinding.mem))
        have hindex : found.index = binding.index := Nat.le_antisymm
          (hbinding.last found hother.mem hscope) (hother.last binding hbinding.mem hscope.symm)
        exact congrArg some (eq_of_place hother.mem.bound hbinding.mem.bound hscope hindex)

theorem findSome?_eq_none_iff (h : scopes.Searchable) :
    (scopes.outward (scopes.find offset 0)).findSome? (scopes.findIn? · name type offset) = none ↔
      ∀ binding, ¬scopes.Candidate name type offset binding := by
  rw [List.findSome?_eq_none_iff]
  constructor
  · intro hnone binding hcandidate
    exact findIn?_eq_none hcandidate (hnone _ (h.found binding hcandidate.bound offset hcandidate.inForce))
  · intro hnone scope hscope
    refine Option.eq_none_iff_forall_ne_some.mpr fun binding hin => ?_
    exact hnone binding ((findIn?_eq_some_iff (h.inForce_of_mem_outward hscope)).mp hin).1.1

end Searchable

end ScopeTree

namespace Lookup

open ScopeTree (Candidate Foremost)

variable {lookup : Lookup} {name : String} {type : ReferenceType} {offset : Nat} {binding : Binding}

/-- What a name stands for: the foremost of what it can stand for, or else, if it is the name of a label,
the first such label in the scene. -/
theorem find?_eq_some_iff (h : lookup.scopes.Searchable) : lookup.find? name type offset = some binding ↔
    lookup.scopes.Foremost (lookup.scopes.Candidate name type offset) binding ∨
      type = .label ∧ (∀ other, ¬lookup.scopes.Candidate name type offset other) ∧
        lookup.scopes.allBindings.find? (·.symbol.answers name .label) = some binding := by
  simp only [find?]
  cases hfound : (lookup.scopes.outward (lookup.scopes.find offset 0)).findSome?
      (lookup.scopes.findIn? · name type offset) with
  | none =>
      have hnone := h.findSome?_eq_none_iff.mp hfound
      have hforemost : ¬lookup.scopes.Foremost (lookup.scopes.Candidate name type offset) binding :=
        fun hforemost => hnone binding hforemost.mem
      by_cases hlabel : type = .label
      · simp [hlabel, hlabel ▸ hnone, hlabel ▸ hforemost]
      · simp [hlabel, hforemost]
  | some found =>
      have hforemost := h.findSome?_eq_some_iff.mp hfound
      rw [← h.findSome?_eq_some_iff, hfound]
      constructor
      · exact .inl
      · rintro (heq | ⟨_, hnone, _⟩)
        · exact heq
        · exact absurd hforemost.mem (hnone found)

/-- What a name stands for is bound in the scene under that name. -/
theorem mem_of_find? (hfound : lookup.find? name type offset = some binding) :
    binding ∈ lookup.scopes.allBindings ∧ binding.symbol.name = name ∧ binding.symbol.referenceType = type := by
  simp only [find?] at hfound
  split at hfound
  · rename_i found hsome
    cases hfound
    obtain ⟨scope, _, hin⟩ := List.exists_of_findSome?_eq_some hsome
    have htest := List.find?_some hin
    have hmem := List.mem_reverse.mp (List.mem_of_find?_eq_some hin)
    simp only [Symbol.answers, Bool.and_eq_true, beq_iff_eq] at htest
    refine ⟨ScopeTree.mem_allBindings_iff.mpr ?_, htest.1⟩
    rwa [(ScopeTree.mem_bindings_iff.mp hmem).1]
  · split at hfound
    · rename_i hlabel
      subst hlabel
      have htest := List.find?_some hfound
      simp only [Symbol.answers, Bool.and_eq_true, beq_iff_eq] at htest
      exact ⟨List.mem_of_find?_eq_some hfound, htest⟩
    · cases hfound

theorem find?_eq_none_iff (h : lookup.scopes.Searchable) : lookup.find? name type offset = none ↔
    (∀ binding, ¬lookup.scopes.Candidate name type offset binding) ∧
      (type = .label → ∀ binding ∈ lookup.scopes.allBindings, binding.symbol.answers name .label = false) := by
  simp only [find?]
  cases hfound : (lookup.scopes.outward (lookup.scopes.find offset 0)).findSome?
      (lookup.scopes.findIn? · name type offset) with
  | none =>
      have hnone := h.findSome?_eq_none_iff.mp hfound
      by_cases hlabel : type = .label
      · subst hlabel
        simp [hnone]
      · simp [hlabel, hnone]
  | some found =>
      have hforemost := h.findSome?_eq_some_iff.mp hfound
      simp only [reduceCtorEq, false_iff]
      exact fun hnone => hnone.1 found hforemost.mem

/-- Where a name can stand for some binding, it stands for something, and for that binding if it is the
foremost. -/
theorem find?_of_candidate (h : lookup.scopes.Searchable) (hcandidate : lookup.scopes.Candidate name type offset binding) :
    ∃ found, lookup.find? name type offset = some found ∧
      (found = binding ↔ lookup.scopes.Foremost (lookup.scopes.Candidate name type offset) binding) := by
  cases hfound : lookup.find? name type offset with
  | none => exact absurd hcandidate (((find?_eq_none_iff h).mp hfound).1 binding)
  | some found =>
      refine ⟨found, rfl, ?_⟩
      rw [← Option.some.injEq, ← hfound, find?_eq_some_iff h]
      exact or_iff_left fun hlabel => hlabel.2.1 binding hcandidate

/-! ### Names of a tree -/

/-- A name leads to what is found under it where it stands, unless a scene is named beside it. -/
theorem ofNode?_eq_some_iff {id : Nat} : lookup.ofNode? id = some binding ↔
    ∃ node, lookup.tree.node? id = some node ∧ qualifier? lookup.tree id = none ∧ node.kind.referenceType ≠ .unknown ∧
      lookup.find? (lookup.tree.name id) node.kind.referenceType node.offset = some binding := by
  cases hnode : lookup.tree.node? id with
  | none => simp [ofNode?, hnode]
  | some node =>
      have htype : lookup.referenceType id = node.kind.referenceType := by
        rw [referenceType, Tree.kind?, hnode]
        rfl
      by_cases hunknown : node.kind.referenceType = .unknown
      · simp [ofNode?, htype, hunknown]
      · cases hqualifier : qualifier? lookup.tree id with
        | none => simp [ofNode?, htype, hunknown, hqualifier, hnode]
        | some scene => simp [ofNode?, hqualifier]

/-- A name refers to a binding when it leads to it. -/
theorem refersTo_iff {id : Nat} (hbinding : binding ∈ lookup.scopes.allBindings) :
    lookup.refersTo id binding = true ↔ lookup.ofNode? id = some binding := by
  rw [refersTo, Bool.and_eq_true, Option.any_eq_true]
  constructor
  · rintro ⟨_, found, hfound, hsame⟩
    obtain ⟨_, _, _, _, hfind⟩ := ofNode?_eq_some_iff.mp hfound
    rw [hfound, (ScopeTree.same_iff (mem_of_find? hfind).1 hbinding).mp hsame]
  · intro hfound
    obtain ⟨node, hnode, _, _, hfind⟩ := ofNode?_eq_some_iff.mp hfound
    obtain ⟨_, hname, htype⟩ := mem_of_find? hfind
    have hreference : lookup.referenceType id = node.kind.referenceType := by
      rw [referenceType, Tree.kind?, hnode]
      rfl
    refine ⟨?_, binding, hfound, (ScopeTree.same_iff hbinding hbinding).mpr rfl⟩
    rw [Symbol.answers, hname, htype, hreference, beq_self_eq_true, beq_self_eq_true]
    rfl

end Lookup

end Gamebook
