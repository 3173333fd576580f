import Gamebook.Proofs.Parser.Fresh
import Gamebook.Proofs.Tree.Acyclic

/-!
Growth. A node that has to cover a range grows, and then the nodes above it; growth stops at the first node
that covers the range already. The nodes above that one cover the range as well, since they cover that node:
so growth leaves every node within the one above it.
-/

namespace Gamebook

namespace Node

theorem stop_grow (node : Node) (offset stop : Nat) : (node.grow offset stop).stop = max node.stop stop := by
  have hstart : min node.offset offset ≤ node.stop := Nat.le_trans (Nat.min_le_left _ _) (Nat.le_add_right _ _)
  exact Nat.add_sub_cancel' (Nat.le_trans hstart (Nat.le_max_left _ _))

end Node

namespace Tree

def Surrounds (tree : Tree) (id offset stop : Nat) : Prop :=
  ∃ node, tree.node? id = some node ∧ node.offset ≤ offset ∧ stop ≤ node.stop

/-- Every node of the older tree is there and still covers what it covered. -/
def Widens (tree old : Tree) : Prop := ∀ id node, old.node? id = some node → tree.Surrounds id node.offset node.stop

/-- Every node lies within the one that it hangs below. -/
def Nests (tree : Tree) : Prop :=
  ∀ id node, tree.node? id = some node → ∀ above ∈ node.parent, tree.Surrounds above node.offset node.stop

variable {tree old : Tree} {id above offset stop : Nat}

theorem Widens.refl (tree : Tree) : tree.Widens tree :=
  fun _ node hnode => ⟨node, hnode, Nat.le_refl _, Nat.le_refl _⟩

theorem Widens.surrounds (h : tree.Widens old) (hsurrounds : old.Surrounds id offset stop) : tree.Surrounds id offset stop := by
  obtain ⟨node, hnode, hoffset, hstop⟩ := hsurrounds
  obtain ⟨wider, hwider, hbefore, hbehind⟩ := h id node hnode
  exact ⟨wider, hwider, Nat.le_trans hbefore hoffset, Nat.le_trans hstop hbehind⟩

theorem Widens.trans {middle : Tree} (h : tree.Widens middle) (hmiddle : middle.Widens old) : tree.Widens old :=
  fun id node hnode => h.surrounds (hmiddle id node hnode)

theorem Surrounds.lt_size (h : tree.Surrounds id offset stop) : id < tree.size := by
  obtain ⟨node, hnode, _⟩ := h
  exact (Array.getElem?_eq_some_iff.mp hnode).1

theorem exists_node (h : id < tree.size) : ∃ node, tree.node? id = some node :=
  ⟨_, Array.getElem?_eq_getElem h⟩

/-- Growing a node changes its extent only. -/
theorem map_modify_grow {β : Type} (view : Node → β) (hview : ∀ node, view (node.grow offset stop) = view node)
    (tree : Tree) (first id : Nat) :
    ((tree.modify first (·.grow offset stop)).node? id).map view = (tree.node? id).map view := by
  rw [node?_modify]
  split
  · rw [Option.map_map]
    exact congrArg (Option.map · _) (funext hview)
  · rfl

theorem map_growUp {β : Type} (view : Node → β) (offset stop : Nat)
    (hview : ∀ node, view (node.grow offset stop) = view node) (budget : Nat) (tree : Tree) (first id : Nat) :
    ((growUp offset stop budget tree first).node? id).map view = (tree.node? id).map view := by
  induction budget generalizing tree first with
  | zero => rfl
  | succ budget ih =>
      have hgrown := map_modify_grow view hview tree first id
      rw [growUp]
      split
      · rfl
      · split
        · rfl
        · dsimp only
          split
          · exact hgrown
          · rw [ih, hgrown]

theorem parent?_congr (h : (tree.node? id).map (·.parent) = (old.node? id).map (·.parent)) :
    tree.parent? id = old.parent? id := by
  have hparent : ∀ tree : Tree, tree.parent? id = ((tree.node? id).map (·.parent)).getD none := by
    intro tree
    rw [parent?]
    cases tree.node? id <;> rfl
  rw [hparent, hparent, h]

theorem parent?_grow (tree : Tree) (first offset stop id : Nat) :
    (tree.grow first offset stop).parent? id = tree.parent? id :=
  parent?_congr (map_growUp (·.parent) offset stop (fun _ => rfl) (tree.size + 1) tree first id)

theorem children_grow (tree : Tree) (first offset stop id : Nat) :
    (tree.grow first offset stop).children id = tree.children id :=
  congrArg (·.getD []) (map_growUp (·.children) offset stop (fun _ => rfl) (tree.size + 1) tree first id)

theorem widens_modify_grow (tree : Tree) (first offset stop : Nat) :
    (tree.modify first (·.grow offset stop)).Widens tree := by
  intro id node hnode
  rw [Surrounds, node?_modify, hnode]
  split
  · refine ⟨_, rfl, Nat.min_le_left _ _, ?_⟩
    rw [Node.stop_grow]
    exact Nat.le_max_left _ _
  · exact ⟨node, rfl, Nat.le_refl _, Nat.le_refl _⟩

theorem widens_growUp (budget : Nat) (tree : Tree) (first : Nat) : (growUp offset stop budget tree first).Widens tree := by
  induction budget generalizing tree first with
  | zero => exact .refl tree
  | succ budget ih =>
      rw [growUp]
      split
      · exact .refl tree
      · split
        · exact .refl tree
        · dsimp only
          split
          · exact tree.widens_modify_grow first offset stop
          · exact (ih _ _).trans (tree.widens_modify_grow first offset stop)

theorem widens_grow (tree : Tree) (first offset stop : Nat) : (tree.grow first offset stop).Widens tree :=
  widens_growUp _ tree first

/-- The node from which growth goes up covers the range. -/
theorem surrounds_grow (h : id < tree.size) (offset stop : Nat) : (tree.grow id offset stop).Surrounds id offset stop := by
  obtain ⟨node, hnode⟩ := exists_node h
  have hgrown : (tree.modify id (·.grow offset stop)).Surrounds id offset stop := by
    rw [Surrounds, node?_modify, if_pos rfl, hnode]
    refine ⟨_, rfl, Nat.min_le_right _ _, ?_⟩
    rw [Node.stop_grow]
    exact Nat.le_max_right _ _
  rw [grow, growUp, hnode]
  dsimp only
  split
  · rename_i hcovers
    rw [Node.covers, Bool.and_eq_true, decide_eq_true_eq, decide_eq_true_eq] at hcovers
    exact ⟨node, hnode, hcovers⟩
  · split
    · exact hgrown
    · exact (widens_growUp _ _ _).surrounds hgrown

/-- Every node would lie within the one above it if one node covered a range as well: all is in order but
that this node may have to grow. -/
def Lags (tree : Tree) (id offset stop : Nat) : Prop :=
  ∀ lower node, tree.node? lower = some node → ∀ above ∈ node.parent,
    (tree.modify id (·.grow offset stop)).Surrounds above node.offset node.stop

theorem Nests.lags (h : tree.Nests) (id offset stop : Nat) : tree.Lags id offset stop :=
  fun lower node hnode above habove => (tree.widens_modify_grow id offset stop).surrounds (h lower node hnode above habove)

/-- Nothing is in arrears where the node covers the range. -/
theorem Lags.nests (h : tree.Lags id offset stop) {node : Node} (hnode : tree.node? id = some node)
    (hcovers : node.covers offset stop = true) : tree.Nests := by
  rw [Node.covers, Bool.and_eq_true, decide_eq_true_eq, decide_eq_true_eq] at hcovers
  intro lower inner hinner above habove
  obtain ⟨outer, houter, hoffset, hstop⟩ := h lower inner hinner above habove
  rw [node?_modify] at houter
  split at houter
  · rename_i hsame
    subst hsame
    rw [hnode, Option.map_some, Option.some.injEq] at houter
    subst houter
    rw [Node.stop_grow, Nat.max_eq_left hcovers.2] at hstop
    exact ⟨node, hnode, Nat.le_trans (Nat.le_min.mpr ⟨Nat.le_refl _, hcovers.1⟩) hoffset, hstop⟩
  · exact ⟨outer, houter, hoffset, hstop⟩

/-- When the node has grown, the one above it may have to grow next, and no other. -/
theorem Lags.step (h : tree.Lags id offset stop) {node : Node} (hnode : tree.node? id = some node)
    (hparent : node.parent = some above) :
    (tree.modify id (·.grow offset stop)).Lags above offset stop := by
  intro lower inner hinner upper hupper
  have hwidens := (tree.modify id (·.grow offset stop)).widens_modify_grow above offset stop
  rw [node?_modify] at hinner
  split at hinner
  · rename_i hsame
    subst hsame
    rw [hnode, Option.map_some, Option.some.injEq] at hinner
    subst hinner
    obtain rfl : above = upper := Option.some.inj (hparent.symm.trans hupper)
    obtain ⟨outer, houter, hoffset, hstop⟩ := h id node hnode above hparent
    refine ⟨outer.grow offset stop, by rw [node?_modify, if_pos rfl, houter]; rfl, ?_, ?_⟩
    · exact Nat.le_min.mpr ⟨Nat.le_trans (Nat.min_le_left _ _) hoffset, Nat.min_le_right _ _⟩
    · rw [Node.stop_grow, Node.stop_grow]
      exact Nat.max_le.mpr ⟨Nat.le_trans hstop (Nat.le_max_left _ _), Nat.le_max_right _ _⟩
  · exact hwidens.surrounds (h lower inner hinner upper hupper)

/-- Where the last node above has grown, all is in order. -/
theorem Lags.top (h : tree.Lags id offset stop) {node : Node} (hnode : tree.node? id = some node)
    (hparent : node.parent = none) : (tree.modify id (·.grow offset stop)).Nests := by
  intro lower inner hinner upper hupper
  rw [node?_modify] at hinner
  split at hinner
  · rename_i hsame
    subst hsame
    rw [hnode, Option.map_some, Option.some.injEq] at hinner
    subst hinner
    rw [Node.grow, hparent] at hupper
    cases hupper
  · exact h lower inner hinner upper hupper

/-- Growth puts a tree in order, given one more node of budget than there are ranks to climb. -/
theorem Lags.growUp {rank : Nat → Nat} (hrank : ∀ id above, tree.Climbs id above → rank above < rank id)
    {budget : Nat} (hbudget : rank id < budget) (hid : id < tree.size) (h : tree.Lags id offset stop) :
    (growUp offset stop budget tree id).Nests := by
  induction budget generalizing tree id with
  | zero => cases hbudget
  | succ budget ih =>
      obtain ⟨node, hnode⟩ := exists_node hid
      rw [Tree.growUp, hnode]
      dsimp only
      split
      · rename_i hcovers
        exact h.nests hnode hcovers
      · split
        · rename_i hparent
          exact h.top hnode hparent
        · rename_i above hparent
          have hclimbs : tree.Climbs id above := by rw [Climbs, parent?, hnode]; exact hparent
          have hlower := hrank id above hclimbs
          refine ih (fun lower upper hstep => hrank lower upper ?_) (by omega) ?_ (h.step hnode hparent)
          · rwa [Climbs, parent?_congr (map_modify_grow (·.parent) (fun _ => rfl) tree id lower)] at hstep
          · exact (h id node hnode above hparent).lt_size

theorem Linked.nests_grow (h : tree.Linked) (hlags : tree.Lags id offset stop) (hid : id < tree.size) :
    (tree.grow id offset stop).Nests := by
  obtain ⟨rank, hle, hrank⟩ := exists_rank (fun _ _ => Climbs.lt_size) h.acyclic
  exact hlags.growUp hrank (Nat.lt_succ_of_le (hle id)) hid

theorem Linked.grow (h : tree.Linked) (first offset stop : Nat) : (tree.grow first offset stop).Linked :=
  h.congr (tree.parent?_grow first offset stop) (tree.children_grow first offset stop)

end Tree

end Gamebook
