import Gamebook.Proofs.Scope.Growth
import Gamebook.Proofs.Scope.Lookup

/-!
The innermost scope. Where scopes nest, those that hold a range are each around the next one, from the root
inwards; the search, which looks at one child of each scope only, goes through all of them and ends at the
last. So it finds the deepest scope that holds the range together with all scopes around it.
-/

namespace Gamebook

namespace ScopeTree

/-- A range begins in a scope and reaches no further than it. -/
def Covers (tree : ScopeTree) (offset length id : Nat) : Prop :=
  ∃ scope ∈ tree.scope? id, scope.offset ≤ offset ∧ offset < scope.stop ∧ offsetAdd offset length ≤ scope.stop

/-- The way from a scope out to the root: the scope, the one around it, and so on. -/
inductive Way (tree : ScopeTree) : Nat → List Nat → Prop
  | root : tree.Way root [root]
  | child {id above : Nat} {way : List Nat} (hparent : tree.parent? id = some above) (hway : tree.Way above way) :
      tree.Way id (id :: way)

/-- A scope is the innermost one for a range: it is reached from the root through scopes that cover the range,
every other scope that is reached so is less deep, and neither outside its way nor below it is the range covered. -/
structure Innermost (tree : ScopeTree) (offset length id : Nat) (way : List Nat) : Prop where
  reached : tree.Way id way
  covered : ∀ scope ∈ way, scope = root ∨ tree.Covers offset length scope
  deepest : ∀ other more, tree.Way other more → (∀ scope ∈ more, scope = root ∨ tree.Covers offset length scope) →
    other = id ∨ more.length < way.length
  outside : ∀ scope, tree.Covers offset length scope → scope = root ∨ scope ∈ way
  below : ∀ child ∈ tree.children id, ¬tree.Covers offset length child

variable {tree : ScopeTree} {offset length id child above : Nat} {way : List Nat}

theorem Way.mem_self (h : tree.Way id way) : id ∈ way := by cases h <;> simp

theorem holds_iff : tree.holds offset length id = true ↔ tree.Covers offset length id := by
  cases hscope : tree.scope? id <;> simp [holds, Covers, Scope.contains, hscope, and_assoc]

theorem Covers.started (h : tree.Covers offset length id) : tree.started offset id = true := by
  obtain ⟨scope, hscope, hoffset, _⟩ := h
  exact started_iff.mpr ⟨scope, hscope, hoffset⟩

theorem Covers.lt_size (h : tree.Covers offset length id) : id < tree.size := by
  obtain ⟨scope, hscope, _⟩ := h
  exact lt_size_of_scope? hscope

/-- What a scope covers is covered by the scope around it. -/
theorem Within.covers (h : tree.Within id above) (hcovers : tree.Covers offset length id) :
    tree.Covers offset length above := by
  obtain ⟨part, hpart, whole, hwhole, hstart, hstop⟩ := h
  obtain ⟨scope, hscope, hfrom, hto, hreach⟩ := hcovers
  obtain rfl : part = scope := Option.some.inj (hpart.symm.trans hscope)
  exact ⟨whole, hwhole, by omega, by omega, by omega⟩

/-- A scope behind one that covers a range has not started where the range begins. -/
theorem Precedes.not_started {left right : Nat} (h : tree.Precedes left right) (hcovers : tree.Covers offset length left) :
    tree.started offset right = false := by
  obtain ⟨former, hformer, latter, hlatter, _, hapart⟩ := h
  obtain ⟨scope, hscope, _, hto, _⟩ := hcovers
  obtain rfl : former = scope := Option.some.inj (hformer.symm.trans hscope)
  rw [Bool.eq_false_iff]
  intro hstarted
  obtain ⟨other, hother, hle⟩ := started_iff.mp hstarted
  obtain rfl : latter = other := Option.some.inj (hlatter.symm.trans hother)
  omega

theorem head?_outward (hid : id < tree.size) : (tree.outward id).head? = some id := by
  rw [outward]
  cases hbudget : tree.size with
  | zero => omega
  | succ budget =>
      unfold outwardWithin
      split <;> rfl

namespace Nests

theorem lt_size (h : tree.Nests) : root < tree.size := by
  obtain ⟨scope, hscope, _⟩ := h.top
  exact lt_size_of_scope? hscope

theorem free (h : tree.Nests) : tree.parent? root = none := by
  obtain ⟨scope, hscope, hparent⟩ := h.top
  rw [parent?, hscope]
  exact hparent

/-! ### The ways -/

theorem way_eq (h : tree.Nests) (hway : tree.Way id way) : way = tree.outward id := by
  induction hway with
  | root => exact (outward_of_parent?_none h.lt_size h.free).symm
  | child hparent _ ih => rw [h.outward_child hparent, ih]

/-- From every scope a way leads out to the root. -/
theorem way_outward (h : tree.Nests) (hid : id < tree.size) : tree.Way id (tree.outward id) := by
  induction id using Nat.strongRecOn with
  | ind id ih =>
      by_cases hroot : id = root
      · subst hroot
        rw [outward_of_parent?_none h.lt_size h.free]
        exact .root
      · obtain ⟨above, hparent, _⟩ := h.below id hid hroot
        have hlt := h.rank above id hparent
        rw [h.outward_child hparent]
        exact .child hparent (ih above hlt (Nat.lt_trans hlt hid))

/-! ### The search -/

/-- From a scope the search goes on to the child that covers the range. -/
theorem childAt?_of_covers (h : tree.Nests) (hchild : child ∈ tree.children id)
    (hcovers : tree.Covers offset length child) : tree.childAt? id offset length = some child := by
  obtain ⟨front, back, hsplit⟩ := List.append_of_mem (Array.mem_toList_iff.mpr hchild)
  have hsorted := h.sorted id
  rw [hsplit, List.pairwise_append, List.pairwise_cons] at hsorted
  obtain ⟨_, ⟨hback, _⟩, hfront⟩ := hsorted
  apply childAt?_eq hsplit
  · intro other hother
    exact (hfront other hother child List.mem_cons_self).started hcovers.started
  · exact hcovers.started
  · intro other hother
    exact (hback other hother).not_started hcovers
  · exact holds_iff.mpr hcovers

/-- The search comes through every scope that covers the range. -/
theorem leadsTo_of_covers (h : tree.Nests) (hcovers : tree.Covers offset length id) :
    tree.LeadsTo offset length root id := by
  induction id using Nat.strongRecOn with
  | ind id ih =>
      by_cases hroot : id = root
      · subst hroot
        exact .refl
      · obtain ⟨above, hparent, hmem, hwithin⟩ := h.below id hcovers.lt_size hroot
        exact (ih above (h.rank above id hparent) (hwithin.covers hcovers)).tail (h.childAt?_of_covers hmem hcovers)

theorem find_lt_size (h : tree.Nests) (offset length : Nat) : tree.find offset length < tree.size := by
  rcases (h.leadsTo_find offset length).1.cases_tail with hroot | ⟨above, _, hchild⟩
  · rw [hroot]
    exact h.lt_size
  · exact (h.childAt?_bounds hchild).2.2

theorem mem_outward_find (h : tree.Nests) (hcovers : tree.Covers offset length id) :
    id ∈ tree.outward (tree.find offset length) :=
  h.mem_outward_of_leadsTo hcovers.lt_size (h.find_of_leadsTo (h.leadsTo_of_covers hcovers))

/-- A scope on a way is the one that it starts from, or its own way is shorter. -/
theorem outward_length_lt (h : tree.Nests) {inner : Nat} (hinner : inner < tree.size) (hmem : id ∈ tree.outward inner) :
    id = inner ∨ (tree.outward id).length < (tree.outward inner).length := by
  obtain ⟨front, back, hsplit⟩ := List.append_of_mem hmem
  rw [h.outward_of_split hinner hsplit]
  cases front with
  | nil =>
      left
      have hhead := head?_outward hinner
      rw [hsplit] at hhead
      exact Option.some.inj hhead
  | cons first more =>
      right
      have hlength := congrArg List.length hsplit
      rw [List.length_append, List.length_cons] at hlength
      omega

/-- Where scopes nest, the search finds the innermost one. -/
theorem innermost_find (h : tree.Nests) (offset length : Nat) :
    tree.Innermost offset length (tree.find offset length) (tree.outward (tree.find offset length)) := by
  have hsize := h.find_lt_size offset length
  refine ⟨h.way_outward hsize, fun scope hscope => ?_, fun other more hway hcovered => ?_, fun scope hcovers => ?_,
    fun child hchild hcovers => ?_⟩
  · have hholds := h.holds_of_mem_outward h.lt_size h.free (h.leadsTo_find offset length).1 scope hscope
    rwa [holds_iff] at hholds
  · have hmem : other ∈ tree.outward (tree.find offset length) := by
      rcases hcovered other (hway.mem_self) with rfl | hcovers
      · exact h.mem_outward_of_leadsTo h.lt_size (h.leadsTo_find offset length).1
      · exact h.mem_outward_find hcovers
    rw [h.way_eq hway]
    exact h.outward_length_lt hsize hmem
  · exact .inr (h.mem_outward_find hcovers)
  · have hle := h.le_of_mem_outward hsize (h.mem_outward_find hcovers)
    have hlt := h.rank _ child (h.parent _ child hchild)
    omega

end Nests

/-! ### Scopes added in any order -/

/-- Whatever scopes are added to the root, one by one and in any order, each with a range that is not empty, within
that of its parent and apart from those beside it: they are there with their ranges, the children of each scope
are sorted by offset, and the search for a range finds the innermost scope. -/
theorem innermost_addAll (additions : List Addition) (h : initial.AdmitsAll additions) :
    (initial.addAll additions).size = additions.length + 1 ∧
    (∀ number addition, additions[number]? = some addition → ∃ children,
      (initial.addAll additions).scope? (number + 1) = some { addition.scope with children }) ∧
    (∀ id, ((initial.addAll additions).children id).toList.Pairwise (initial.addAll additions).Precedes) ∧
    ∀ offset length, ∃ way,
      (initial.addAll additions).Innermost offset length ((initial.addAll additions).find offset length) way := by
  have hnests := Nests.initial.addAll h
  refine ⟨?_, fun number addition haddition => ?_, hnests.sorted, fun offset length => ⟨_, hnests.innermost_find offset length⟩⟩
  · rw [size_addAll, Nat.add_comm]
    rfl
  · have hscope := initial.scope?_addAll haddition
    rwa [Nat.add_comm] at hscope

/-- Two options that touch, the second one added first, a condition in the first one, and a scope up to the greatest
offset. -/
def touching : List Addition := [⟨root, 50, 20⟩, ⟨root, 10, 40⟩, ⟨2, 15, 5⟩, ⟨root, maxOffset - 5, 10⟩]

theorem innermost_addAll_touching : initial.AdmitsAll touching ∧ (initial.addAll touching).children root = #[2, 1, 4] ∧
    ((initial.addAll touching).find 16 2 = 3 ∧ ∃ way, (initial.addAll touching).Innermost 16 2 3 way) := by
  have hadmits : initial.AdmitsAll touching := by
    refine ⟨?_, ?_, ?_, ?_, trivial⟩ <;> decide +kernel
  have hfind : (initial.addAll touching).find 16 2 = 3 := by decide +kernel
  have hinnermost := (innermost_addAll touching hadmits).2.2.2 16 2
  rw [hfind] at hinnermost
  exact ⟨hadmits, by decide +kernel, hfind, hinnermost⟩

end ScopeTree

end Gamebook
