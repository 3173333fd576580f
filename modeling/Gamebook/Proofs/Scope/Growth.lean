import Gamebook.Proofs.Scope.Search
import Mathlib.Data.List.InsertIdx

/-!
Scopes added one by one. Each is put below a scope that is there, in whatever order: a range that holds
something, within the range above it and apart from the ranges beside it. So the scopes nest at every moment:
the children of a scope stand within it, one behind the other, and a new one finds its place among them by
halving, since they are sorted.
-/

namespace Gamebook

namespace ScopeTree

structure Addition where
  parent : Nat
  offset : Nat
  length : Nat
  deriving DecidableEq, Repr

namespace Addition

def stop (addition : Addition) : Nat := offsetAdd addition.offset addition.length

def scope (addition : Addition) : Scope := ⟨addition.offset, addition.length, some addition.parent, #[], #[]⟩

end Addition

def add (tree : ScopeTree) (addition : Addition) : ScopeTree :=
  (tree.nest addition.parent addition.offset addition.length).2

def addAll (tree : ScopeTree) (additions : List Addition) : ScopeTree := additions.foldl add tree

/-- The range is not empty, lies within that of a scope that is there, and is apart from those of its children. -/
structure Admits (tree : ScopeTree) (addition : Addition) : Prop where
  filled : 0 < addition.length
  within : ∃ above ∈ tree.scope? addition.parent, above.offset ≤ addition.offset ∧ addition.stop ≤ above.stop
  apart : ∀ child ∈ tree.children addition.parent, ∀ sibling ∈ tree.scope? child,
    sibling.stop ≤ addition.offset ∨ addition.stop ≤ sibling.offset

instance (tree : ScopeTree) (addition : Addition) : Decidable (tree.Admits addition) :=
  decidable_of_iff (0 < addition.length ∧
      (∃ above ∈ tree.scope? addition.parent, above.offset ≤ addition.offset ∧ addition.stop ≤ above.stop) ∧
      ∀ child ∈ tree.children addition.parent, ∀ sibling ∈ tree.scope? child,
        sibling.stop ≤ addition.offset ∨ addition.stop ≤ sibling.offset)
    ⟨fun h => ⟨h.1, h.2.1, h.2.2⟩, fun h => ⟨h.filled, h.within, h.apart⟩⟩

def AdmitsAll (tree : ScopeTree) : List Addition → Prop
  | [] => True
  | addition :: more => tree.Admits addition ∧ (tree.add addition).AdmitsAll more

/-- The one scope starts no later than the other one, and does not reach into it. -/
def Precedes (tree : ScopeTree) (left right : Nat) : Prop :=
  ∃ former ∈ tree.scope? left, ∃ latter ∈ tree.scope? right, former.offset ≤ latter.offset ∧ former.stop ≤ latter.offset

def Within (tree : ScopeTree) (inner outer : Nat) : Prop :=
  ∃ part ∈ tree.scope? inner, ∃ whole ∈ tree.scope? outer, whole.offset ≤ part.offset ∧ part.stop ≤ whole.stop

/-- The scopes nest: each but the root is among the children of another one and within it, and children stand
one behind the other. -/
structure Nests (tree : ScopeTree) : Prop extends tree.Linked where
  top : ∃ scope ∈ tree.scope? root, scope.parent = none
  below : ∀ id < tree.size, id ≠ root → ∃ above, tree.parent? id = some above ∧ id ∈ tree.children above ∧
    tree.Within id above
  sorted : ∀ id, (tree.children id).toList.Pairwise tree.Precedes

variable {tree : ScopeTree} {addition : Addition} {id child : Nat} {scope : Scope}

/-! ### One addition -/

@[simp] theorem size_add (tree : ScopeTree) (addition : Addition) : (tree.add addition).size = tree.size + 1 := by
  simp [add, nest, size]

theorem lt_size_of_scope? (h : tree.scope? id = some scope) : id < tree.size := (Array.getElem?_eq_some_iff.mp h).1

/-- An addition puts the new scope behind the others and its number among the children of its parent. -/
theorem scope?_add (tree : ScopeTree) (addition : Addition) (id : Nat) : (tree.add addition).scope? id =
    if id = tree.size then some addition.scope
    else (tree.scope? id).map fun scope =>
      if id = addition.parent then
        { scope with
          children := scope.children.insertIdxIfInBounds
            (tree.startedBy addition.offset (tree.children addition.parent)) tree.size }
      else scope := by
  rw [scope?, scope?, add, nest, Array.getElem?_push, Array.size_modify, Array.getElem?_modify, ← size]
  by_cases hnew : id = tree.size
  · rw [if_pos hnew, if_pos hnew]
    rfl
  · rw [if_neg hnew, if_neg hnew]
    by_cases hparent : id = addition.parent
    · simp [hparent]
    · simp [hparent, Ne.symm hparent]

theorem scope?_add_size (tree : ScopeTree) (addition : Addition) :
    (tree.add addition).scope? tree.size = some addition.scope := by simp [scope?_add]

/-- A scope that is there stays what it is, up to its children. -/
theorem scope?_add_of_some (addition : Addition) (h : tree.scope? id = some scope) :
    ∃ children, (tree.add addition).scope? id = some { scope with children } := by
  have hlt := lt_size_of_scope? h
  rw [scope?_add, if_neg (Nat.ne_of_lt hlt), h, Option.map_some]
  split
  · exact ⟨_, rfl⟩
  · exact ⟨scope.children, rfl⟩

theorem parent?_add (tree : ScopeTree) (addition : Addition) (id : Nat) :
    (tree.add addition).parent? id = if id = tree.size then some addition.parent else tree.parent? id := by
  rw [parent?, scope?_add]
  split
  · rfl
  · rw [parent?, Option.bind_map]
    congr 1
    funext scope
    simp only [Function.comp]
    split <;> rfl

theorem children_size (tree : ScopeTree) : tree.children tree.size = #[] := by simp [children, scope?, size]

theorem children_add (hparent : addition.parent < tree.size) (id : Nat) : (tree.add addition).children id =
    if id = addition.parent then
      (tree.children id).insertIdxIfInBounds (tree.startedBy addition.offset (tree.children id)) tree.size
    else tree.children id := by
  by_cases hnew : id = tree.size
  · subst hnew
    rw [if_neg (Nat.ne_of_gt hparent), children_size, children, scope?_add_size]
    rfl
  · obtain ⟨above, habove⟩ : ∃ above, tree.scope? addition.parent = some above :=
      ⟨_, Array.getElem?_eq_getElem hparent⟩
    rw [children, scope?_add, if_neg hnew, Option.map_map]
    by_cases hid : id = addition.parent
    · subst hid
      simp [children, habove]
    · simp only [children, if_neg hid]
      rfl

/-! ### The place among the children -/

theorem insertIdx_append (front back : List α) (element : α) :
    (front ++ back).insertIdx front.length element = front ++ element :: back := by
  induction front with
  | nil => exact List.insertIdx_zero
  | cons first more ih =>
      rw [List.cons_append, List.length_cons, List.insertIdx_succ_cons, ih]
      rfl

theorem started_iff {offset : Nat} : tree.started offset id = true ↔ ∃ scope ∈ tree.scope? id, scope.offset ≤ offset := by
  cases hscope : tree.scope? id <;> simp [started, hscope]

theorem Precedes.started {left right offset : Nat} (h : tree.Precedes left right) (hright : tree.started offset right = true) :
    tree.started offset left = true := by
  obtain ⟨former, hformer, latter, hlatter, hoffset, _⟩ := h
  obtain ⟨scope, hscope, hle⟩ := started_iff.mp hright
  obtain rfl : latter = scope := Option.some.inj (hlatter.symm.trans hscope)
  exact started_iff.mpr ⟨former, hformer, Nat.le_trans hoffset hle⟩

/-- The new scope goes between the children that have started and those that have not. -/
theorem Nests.exists_place (h : tree.Nests) (hparent : addition.parent < tree.size) : ∃ front back,
    (tree.children addition.parent).toList = front ++ back ∧
      ((tree.add addition).children addition.parent).toList = front ++ tree.size :: back ∧
      (∀ child ∈ front, tree.started addition.offset child = true) ∧
      ∀ child ∈ back, tree.started addition.offset child = false := by
  obtain ⟨front, back, hsplit, hfront, hback⟩ : ∃ front back, (tree.children addition.parent).toList = front ++ back ∧
      (∀ child ∈ front, tree.started addition.offset child = true) ∧
      ∀ child ∈ back, tree.started addition.offset child = false :=
    ⟨_, _, List.takeWhile_append_dropWhile.symm, List.all_eq_true.mp List.all_takeWhile,
      not_of_mem_dropWhile (h.sorted addition.parent) fun _ _ => Precedes.started⟩
  refine ⟨front, back, hsplit, ?_, hfront, hback⟩
  have hplace : tree.startedBy addition.offset (tree.children addition.parent) = front.length :=
    startedBy_eq hsplit hfront hback
  have hbound : front.length ≤ (tree.children addition.parent).size := by
    rw [← Array.length_toList, hsplit]
    simp
  rw [children_add hparent, if_pos rfl, hplace, Array.insertIdxIfInBounds, dif_pos hbound, Array.toList_insertIdx,
    hsplit, insertIdx_append]

/-! ### The scopes nest -/

theorem Precedes.add {left right : Nat} (h : tree.Precedes left right) (addition : Addition) :
    (tree.add addition).Precedes left right := by
  obtain ⟨former, hformer, latter, hlatter, hbounds⟩ := h
  obtain ⟨_, hformer'⟩ := scope?_add_of_some addition hformer
  obtain ⟨_, hlatter'⟩ := scope?_add_of_some addition hlatter
  exact ⟨_, hformer', _, hlatter', hbounds⟩

theorem Within.add {inner outer : Nat} (h : tree.Within inner outer) (addition : Addition) :
    (tree.add addition).Within inner outer := by
  obtain ⟨part, hpart, whole, hwhole, hbounds⟩ := h
  obtain ⟨_, hpart'⟩ := scope?_add_of_some addition hpart
  obtain ⟨_, hwhole'⟩ := scope?_add_of_some addition hwhole
  exact ⟨_, hpart', _, hwhole', hbounds⟩

theorem Admits.lt_size (h : tree.Admits addition) : addition.parent < tree.size := by
  obtain ⟨above, habove, _⟩ := h.within
  exact lt_size_of_scope? habove

/-- Scopes do not stop behind the greatest offset. -/
theorem stop_le_maxOffset (scope : Scope) : scope.stop ≤ maxOffset := Nat.min_le_right _ _

/-- Children that have started stop before the new scope starts: it is apart from them and has started itself. -/
theorem Admits.precedes_new (h : tree.Admits addition) (hchild : child ∈ tree.children addition.parent)
    (hstarted : tree.started addition.offset child = true) : (tree.add addition).Precedes child tree.size := by
  obtain ⟨scope, hscope, hoffset⟩ := started_iff.mp hstarted
  obtain ⟨_, hscope'⟩ := scope?_add_of_some addition hscope
  refine ⟨_, hscope', _, tree.scope?_add_size addition, hoffset, ?_⟩
  show scope.stop ≤ addition.offset
  have hfilled := h.filled
  have hstop := stop_le_maxOffset scope
  have hnew : addition.stop = min (addition.offset + addition.length) maxOffset := rfl
  rcases h.apart child hchild scope hscope with hapart | hapart
  · exact hapart
  · -- the new scope stops where it starts, which with a length it does at the greatest offset only
    omega

namespace Nests

theorem scope?_child (h : tree.Nests) (hchild : child ∈ tree.children id) : ∃ scope, tree.scope? child = some scope := by
  obtain ⟨scope, hscope, _⟩ := Option.bind_eq_some_iff.mp (h.parent id child hchild)
  exact ⟨scope, hscope⟩

/-- Children that have not started start behind the new scope. -/
theorem new_precedes (h : tree.Nests) (hadmits : tree.Admits addition) (hchild : child ∈ tree.children addition.parent)
    (hstarted : tree.started addition.offset child = false) : (tree.add addition).Precedes tree.size child := by
  obtain ⟨scope, hscope⟩ := h.scope?_child hchild
  obtain ⟨_, hscope'⟩ := scope?_add_of_some addition hscope
  have hoffset : addition.offset < scope.offset := by
    by_contra hle
    rw [started_iff.mpr ⟨scope, hscope, Nat.not_lt.mp hle⟩] at hstarted
    cases hstarted
  refine ⟨_, tree.scope?_add_size addition, _, hscope', Nat.le_of_lt hoffset, ?_⟩
  have hstop : scope.stop = min (scope.offset + scope.length) maxOffset := rfl
  have hnew : addition.stop ≤ maxOffset := Nat.min_le_right _ _
  show addition.stop ≤ scope.offset
  rcases hadmits.apart child hchild scope hscope with hapart | hapart
  · omega
  · exact hapart

/-- The children of a scope stay sorted, wherever the new one goes. -/
theorem sorted_add (h : tree.Nests) (hadmits : tree.Admits addition) (id : Nat) :
    ((tree.add addition).children id).toList.Pairwise (tree.add addition).Precedes := by
  have hold := (h.sorted id).imp fun hprecedes => hprecedes.add addition
  by_cases hid : id = addition.parent
  · subst hid
    obtain ⟨front, back, hsplit, hchildren, hfront, hback⟩ := h.exists_place hadmits.lt_size
    rw [hsplit, List.pairwise_append] at hold
    obtain ⟨hfronts, hbacks, hacross⟩ := hold
    have hmem : ∀ child ∈ front ++ back, child ∈ tree.children addition.parent := fun child hchild => by
      rwa [← Array.mem_toList_iff, hsplit]
    rw [hchildren, List.pairwise_append, List.pairwise_cons]
    refine ⟨hfronts, ⟨fun child hchild => ?_, hbacks⟩, fun child hchild other hother => ?_⟩
    · exact h.new_precedes hadmits (hmem child (List.mem_append_right _ hchild)) (hback child hchild)
    · rcases List.mem_cons.mp hother with rfl | hother
      · exact hadmits.precedes_new (hmem child (List.mem_append_left _ hchild)) (hfront child hchild)
      · exact hacross child hchild other hother
  · rwa [children_add hadmits.lt_size, if_neg hid]

/-- Of the children after an addition only the new scope was none before. -/
theorem mem_children_add (h : tree.Nests) (hparent : addition.parent < tree.size) :
    child ∈ (tree.add addition).children id ↔ child ∈ tree.children id ∨ (child = tree.size ∧ id = addition.parent) := by
  by_cases hid : id = addition.parent
  · subst hid
    obtain ⟨front, back, hsplit, hchildren, _⟩ := h.exists_place hparent
    rw [← Array.mem_toList_iff, ← Array.mem_toList_iff, hsplit, hchildren]
    simp
    tauto
  · simp [children_add hparent, hid]

theorem linked_add (h : tree.Nests) (hparent : addition.parent < tree.size) : (tree.add addition).Linked where
  parent id child hchild := by
    rw [parent?_add]
    rcases (h.mem_children_add hparent).mp hchild with hold | ⟨rfl, rfl⟩
    · have habove := h.parent id child hold
      rw [if_neg (Nat.ne_of_lt (lt_size_of_parent? habove)), habove]
    · exact if_pos rfl
  rank id child habove := by
    rw [parent?_add] at habove
    split at habove
    · rename_i hnew
      cases habove
      rwa [hnew]
    · exact h.rank id child habove

/-- What nests still nests after an addition. -/
theorem add (h : tree.Nests) (hadmits : tree.Admits addition) : (tree.add addition).Nests where
  toLinked := h.linked_add hadmits.lt_size
  top := by
    obtain ⟨scope, hscope, hparent⟩ := h.top
    obtain ⟨_, hscope'⟩ := scope?_add_of_some addition hscope
    exact ⟨_, hscope', hparent⟩
  below id hid hroot := by
    rw [parent?_add]
    by_cases hnew : id = tree.size
    · obtain ⟨above, habove, hbounds⟩ := hadmits.within
      obtain ⟨_, habove'⟩ := scope?_add_of_some addition habove
      subst hnew
      exact ⟨addition.parent, if_pos rfl, (h.mem_children_add hadmits.lt_size).mpr (.inr ⟨rfl, rfl⟩), _,
        tree.scope?_add_size addition, _, habove', hbounds⟩
    · rw [size_add] at hid
      obtain ⟨above, habove, hmem, hwithin⟩ := h.below id (by omega) hroot
      exact ⟨above, by rw [if_neg hnew, habove], (h.mem_children_add hadmits.lt_size).mpr (.inl hmem),
        hwithin.add addition⟩
  sorted := h.sorted_add hadmits

/-! ### Runs -/

theorem initial : ScopeTree.initial.Nests := by
  have hparent : ∀ id, ScopeTree.initial.parent? id = none := fun id => by cases id <;> rfl
  have hchildren : ∀ id, ScopeTree.initial.children id = #[] := fun id => by cases id <;> rfl
  refine ⟨⟨fun id child hchild => ?_, fun id child habove => ?_⟩, ⟨rootScope, rfl, rfl⟩, fun id hid hroot => ?_,
    fun id => ?_⟩
  · simp [hchildren] at hchild
  · simp [hparent] at habove
  · exact absurd (Nat.lt_one_iff.mp hid) hroot
  · simp [hchildren]

theorem addAll {additions : List Addition} (h : tree.Nests) (hadmits : tree.AdmitsAll additions) :
    (tree.addAll additions).Nests := by
  induction additions generalizing tree with
  | nil => exact h
  | cons addition more ih => exact ih (h.add hadmits.1) hadmits.2

end Nests

theorem scope?_addAll_of_some (additions : List Addition) (h : tree.scope? id = some scope) :
    ∃ children, (tree.addAll additions).scope? id = some { scope with children } := by
  induction additions generalizing tree scope with
  | nil => exact ⟨scope.children, h⟩
  | cons addition more ih =>
      obtain ⟨children, hadd⟩ := scope?_add_of_some addition h
      obtain ⟨children', hmore⟩ := ih hadd
      exact ⟨children', hmore⟩

theorem size_addAll (tree : ScopeTree) (additions : List Addition) :
    (tree.addAll additions).size = tree.size + additions.length := by
  induction additions generalizing tree with
  | nil => rfl
  | cons addition more ih =>
      have hstep : tree.addAll (addition :: more) = (tree.add addition).addAll more := rfl
      rw [hstep, ih, size_add, List.length_cons]
      omega

/-- Every scope that was added is there, under the number of the addition, with the range and the parent that it
was given. -/
theorem scope?_addAll (tree : ScopeTree) {additions : List Addition} {number : Nat}
    (h : additions[number]? = some addition) :
    ∃ children, (tree.addAll additions).scope? (tree.size + number) = some { addition.scope with children } := by
  induction additions generalizing tree number with
  | nil => cases h
  | cons first more ih =>
      cases number with
      | zero =>
          obtain rfl : first = addition := Option.some.inj h
          exact scope?_addAll_of_some more (tree.scope?_add_size first)
      | succ number =>
          obtain ⟨children, hscope⟩ := ih (tree.add first) h
          rw [size_add, Nat.add_right_comm] at hscope
          exact ⟨children, hscope⟩

end ScopeTree

end Gamebook
