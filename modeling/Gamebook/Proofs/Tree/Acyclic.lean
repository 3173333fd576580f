import Gamebook.Tree.Basic
import Mathlib.Data.Finset.Card
import Mathlib.Logic.Relation

/-!
Trees without cycles. A node is told what stands above it and what stands below it; where a way never leads
back, the nodes have ranks that fall with every step, and no way is longer than the tree is large.
-/

namespace Gamebook.Tree

open Relation (ReflTransGen TransGen)

def Climbs (tree : Tree) (id above : Nat) : Prop := tree.parent? id = some above

def Descends (tree : Tree) (above id : Nat) : Prop := id ∈ tree.children above

/-- No way down leads back to the node where it began. -/
def Acyclic (tree : Tree) : Prop := ∀ id, ¬TransGen tree.Descends id id

/-- Parents and children agree, and no way up leads back. -/
structure Linked (tree : Tree) : Prop where
  hung : ∀ id above, tree.parent? id = some above ↔ id ∈ tree.children above
  once : ∀ above, (tree.children above).Nodup
  acyclic : ∀ id, ¬TransGen tree.Climbs id id

variable {tree old : Tree} {id above : Nat}

theorem Climbs.lt_size (h : tree.Climbs id above) : id < tree.size := by
  refine Nat.lt_of_not_le fun hle => ?_
  rw [Climbs, parent?, node?, Array.getElem?_eq_none hle] at h
  cases h

theorem Descends.lt_size (h : tree.Descends above id) : above < tree.size := by
  refine Nat.lt_of_not_le fun hle => ?_
  rw [Descends, children, node?, Array.getElem?_eq_none hle] at h
  cases h

/-- Steps among finitely many numbers that never lead back lead down a rank: the number of those numbers
that can still be come to. -/
theorem exists_rank {step : Nat → Nat → Prop} {size : Nat} (hsize : ∀ a b, step a b → a < size)
    (hacyclic : ∀ a, ¬TransGen step a a) :
    ∃ rank : Nat → Nat, (∀ a, rank a ≤ size) ∧ ∀ a b, step a b → rank b < rank a := by
  classical
  refine ⟨fun a => ((Finset.range size).filter (ReflTransGen step a)).card, fun a => ?_, fun a b hstep => ?_⟩
  · exact (Finset.card_filter_le _ _).trans_eq (Finset.card_range size)
  · refine Finset.card_lt_card (Finset.ssubset_iff_of_subset ?_ |>.mpr ⟨a, ?_, ?_⟩)
    · intro c hc
      rw [Finset.mem_filter] at hc ⊢
      exact ⟨hc.1, .head hstep hc.2⟩
    · exact Finset.mem_filter.mpr ⟨Finset.mem_range.mpr (hsize a b hstep), .refl⟩
    · exact fun hback => hacyclic a (.head' hstep (Finset.mem_filter.mp hback).2)

/-- What is closed under the steps holds all that they lead to. -/
theorem mem_of_closed {step : Nat → Nat → Prop} {ids : List Nat} (hclosed : ∀ a ∈ ids, ∀ b, step a b → b ∈ ids)
    {first last : Nat} (hfirst : first ∈ ids) (hsteps : ReflTransGen step first last) : last ∈ ids := by
  induction hsteps with
  | refl => exact hfirst
  | tail _ hstep ih => exact hclosed _ ih _ hstep

/-- A tree whose nodes stand in front of their children has no cycle. -/
theorem acyclic_of_lt (h : ∀ above id, tree.Descends above id → above < id) : tree.Acyclic := by
  have hlt : ∀ above id, TransGen tree.Descends above id → above < id := by
    intro above id hsteps
    induction hsteps with
    | single hstep => exact h _ _ hstep
    | tail _ hstep ih => exact Nat.lt_trans ih (h _ _ hstep)
  exact fun id hcycle => Nat.lt_irrefl id (hlt id id hcycle)

theorem Linked.congr (h : old.Linked) (hparent : ∀ id, tree.parent? id = old.parent? id)
    (hchildren : ∀ id, tree.children id = old.children id) : tree.Linked := by
  have hclimbs : tree.Climbs = old.Climbs := by
    funext id above
    rw [Climbs, Climbs, hparent]
  refine ⟨fun id above => ?_, fun above => ?_, ?_⟩
  · rw [hparent, hchildren]
    exact h.hung id above
  · rw [hchildren]
    exact h.once above
  · rw [hclimbs]
    exact h.acyclic

end Gamebook.Tree
