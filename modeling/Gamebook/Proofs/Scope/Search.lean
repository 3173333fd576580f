import Gamebook.Scope
import Mathlib.Logic.Relation

/-!
The search for a scope. From each scope the search goes on to the last child that starts at the offset or
before it, if that child holds the range. The children are sorted by offset, so that halving finds the child;
as scopes are numbered in the order of their creation, behind the scope around them, the search comes to an
end, and so does the way back out.
-/

namespace Gamebook

namespace ScopeTree

variable {tree : ScopeTree} {id child : Nat} {offset length : Nat}

def started (tree : ScopeTree) (offset id : Nat) : Bool := (tree.scope? id).any (·.offset ≤ offset)

def holds (tree : ScopeTree) (offset length id : Nat) : Bool := (tree.scope? id).any (·.contains offset length)

theorem startedBy_eq {ids : Array Nat} {front back : List Nat} (hsplit : ids.toList = front ++ back)
    (hfront : ∀ id ∈ front, tree.started offset id = true) (hback : ∀ id ∈ back, tree.started offset id = false) :
    tree.startedBy offset ids = front.length := partitionPoint_eq hsplit hfront hback

/-- The search goes on to the last child that has started. -/
theorem childAt?_eq {front back : List Nat} (hsplit : (tree.children id).toList = front ++ child :: back)
    (hfront : ∀ other ∈ front, tree.started offset other = true) (hchild : tree.started offset child = true)
    (hback : ∀ other ∈ back, tree.started offset other = false) (hholds : tree.holds offset length child = true) :
    tree.childAt? id offset length = some child := by
  have hstarted : tree.startedBy offset (tree.children id) = front.length + 1 := by
    have hsplit' : (tree.children id).toList = (front ++ [child]) ++ back := by
      rw [hsplit, List.append_assoc, List.singleton_append]
    rw [startedBy_eq hsplit' ?_ hback, List.length_append, List.length_singleton]
    exact List.forall_mem_append.mpr ⟨hfront, List.forall_mem_singleton.mpr hchild⟩
  simp only [childAt?, hstarted]
  rw [← Array.getElem?_toList, hsplit, List.getElem?_append_right (Nat.le_refl _), Nat.sub_self,
    List.getElem?_cons_zero]
  exact Option.filter_some_pos hholds

theorem mem_children_of_childAt? (h : tree.childAt? id offset length = some child) :
    child ∈ tree.children id ∧ tree.holds offset length child = true := by
  unfold childAt? at h
  dsimp only at h
  split at h
  · cases h
  · obtain ⟨hfound, hholds⟩ := Option.filter_eq_some_iff.mp h
    exact ⟨Array.mem_of_getElem? hfound, hholds⟩

theorem childAt?_eq_none (h : ∀ child ∈ tree.children id, tree.holds offset length child = false) :
    tree.childAt? id offset length = none := by
  rw [Option.eq_none_iff_forall_ne_some]
  intro child hfound
  obtain ⟨hchild, hholds⟩ := mem_children_of_childAt? hfound
  rw [h child hchild] at hholds
  cases hholds

/-! ### Going in and out -/

/-- The children of a scope are those whose parent it is, and come behind it. -/
structure Linked (tree : ScopeTree) : Prop where
  parent : ∀ id, ∀ child ∈ tree.children id, tree.parent? child = some id
  rank : ∀ id child, tree.parent? child = some id → id < child

/-- The search for a range leads from one scope to another. -/
def LeadsTo (tree : ScopeTree) (offset length : Nat) : Nat → Nat → Prop :=
  Relation.ReflTransGen fun id child => tree.childAt? id offset length = some child

theorem lt_size_of_parent? {parent : Nat} (h : tree.parent? id = some parent) : id < tree.size := by
  obtain ⟨scope, hscope, _⟩ := Option.bind_eq_some_iff.mp h
  exact (Array.getElem?_eq_some_iff.mp hscope).1

theorem Linked.childAt?_bounds (hlinked : tree.Linked) (h : tree.childAt? id offset length = some child) :
    tree.parent? child = some id ∧ id < child ∧ child < tree.size := by
  have hparent := hlinked.parent id child (mem_children_of_childAt? h).1
  exact ⟨hparent, hlinked.rank id child hparent, lt_size_of_parent? hparent⟩

theorem Linked.findBelow_spec (hlinked : tree.Linked) {budget : Nat} (hbudget : tree.size ≤ budget + id) :
    tree.LeadsTo offset length id (tree.findBelow offset length budget id) ∧
      tree.childAt? (tree.findBelow offset length budget id) offset length = none := by
  induction budget generalizing id with
  | zero =>
      refine ⟨.refl, Option.eq_none_iff_forall_ne_some.mpr fun child hfound => ?_⟩
      have hbounds := hlinked.childAt?_bounds (show tree.childAt? id offset length = some child from hfound)
      omega
  | succ budget ih =>
      unfold findBelow
      cases hfound : tree.childAt? id offset length with
      | none => exact ⟨.refl, hfound⟩
      | some child =>
          have hbounds := hlinked.childAt?_bounds hfound
          obtain ⟨hleads, hnone⟩ := @ih child (by omega)
          exact ⟨.head hfound hleads, hnone⟩

theorem Linked.leadsTo_find (hlinked : tree.Linked) (offset length : Nat) :
    tree.LeadsTo offset length root (tree.find offset length) ∧
      tree.childAt? (tree.find offset length) offset length = none :=
  hlinked.findBelow_spec (Nat.le_refl _)

/-- Every scope on the way from the root is on the way to the scope that is found. -/
theorem Linked.find_of_leadsTo (hlinked : tree.Linked) (h : tree.LeadsTo offset length root id) :
    tree.LeadsTo offset length id (tree.find offset length) := by
  obtain ⟨hfind, hnone⟩ := hlinked.leadsTo_find offset length
  have hunique : Relator.RightUnique fun id child => tree.childAt? id offset length = some child :=
    fun _ _ _ hleft hright => Option.some.inj (hleft.symm.trans hright)
  rcases Relation.ReflTransGen.total_of_right_unique hunique h hfind with hleads | hback
  · exact hleads
  · rcases hback.cases_head with heq | ⟨child, hchild, _⟩
    · rw [heq]
      exact .refl
    · rw [hnone] at hchild
      cases hchild

theorem Linked.find_eq (hlinked : tree.Linked) (h : tree.LeadsTo offset length root id)
    (hnone : tree.childAt? id offset length = none) : tree.find offset length = id := by
  rcases (hlinked.find_of_leadsTo h).cases_head with heq | ⟨child, hchild, _⟩
  · exact heq.symm
  · rw [hnone] at hchild
    cases hchild

theorem Linked.outwardWithin_eq (hlinked : tree.Linked) {budget more : Nat} (hbudget : id < budget)
    (hmore : id < more) : tree.outwardWithin budget id = tree.outwardWithin more id := by
  induction budget generalizing id more with
  | zero => cases hbudget
  | succ budget ih =>
      cases more with
      | zero => cases hmore
      | succ more =>
          unfold outwardWithin
          cases hparent : tree.parent? id with
          | none => rfl
          | some above =>
              have hlt := hlinked.rank above id hparent
              exact congrArg (id :: ·) (ih (by omega) (by omega))

theorem outward_of_parent?_none (hsize : id < tree.size) (hparent : tree.parent? id = none) :
    tree.outward id = [id] := by
  rw [outward]
  cases hbudget : tree.size with
  | zero =>
      rw [hbudget] at hsize
      cases hsize
  | succ budget => rw [outwardWithin, hparent]

theorem Linked.outward_child (hlinked : tree.Linked) {parent : Nat} (hparent : tree.parent? id = some parent) :
    tree.outward id = id :: tree.outward parent := by
  have hsize := lt_size_of_parent? hparent
  have hlt := hlinked.rank parent id hparent
  rw [outward, outward]
  cases hbudget : tree.size with
  | zero => omega
  | succ budget =>
      rw [outwardWithin, hparent]
      exact congrArg (id :: ·) (hlinked.outwardWithin_eq (by omega) (by omega))

theorem mem_outward_self (hsize : id < tree.size) : id ∈ tree.outward id := by
  rw [outward]
  cases hbudget : tree.size with
  | zero => omega
  | succ budget =>
      unfold outwardWithin
      split <;> simp

/-- The way out of a scope that the search leads to goes back through all scopes on the way. -/
theorem Linked.mem_outward_of_leadsTo (hlinked : tree.Linked) {inner : Nat} (hsize : id < tree.size)
    (h : tree.LeadsTo offset length id inner) : id ∈ tree.outward inner := by
  induction h with
  | refl => exact mem_outward_self hsize
  | tail _ hchild ih =>
      rw [hlinked.outward_child (hlinked.childAt?_bounds hchild).1]
      exact List.mem_cons_of_mem _ ih

/-- All scopes on the way out of a scope that the search leads to hold the range, the root apart. -/
theorem Linked.holds_of_mem_outward (hlinked : tree.Linked) (hsize : root < tree.size)
    (hroot : tree.parent? root = none) (h : tree.LeadsTo offset length root id) :
    ∀ scope ∈ tree.outward id, scope = root ∨ tree.holds offset length scope = true := by
  induction h with
  | refl =>
      rw [outward_of_parent?_none hsize hroot]
      exact List.forall_mem_singleton.mpr (.inl rfl)
  | tail _ hchild ih =>
      rw [hlinked.outward_child (hlinked.childAt?_bounds hchild).1]
      exact List.forall_mem_cons.mpr ⟨.inr (mem_children_of_childAt? hchild).2, ih⟩

end ScopeTree

end Gamebook
