import Gamebook.Tree.Basic

/-!
Trees that go on from other trees. Nodes are added behind those that are there, and as long as only added
nodes are changed, and are hung below added nodes, all the older ones stay as they were: growth goes up from
a node to its ancestors, and these are added nodes too. What was added can then be dropped again.
-/

namespace Gamebook.Tree

/-- The tree goes on from an older one: it begins with the nodes of that tree, and no node behind them has
one of them as its parent. -/
structure Extends (old tree : Tree) : Prop where
  source : tree.source = old.source
  size_le : old.size ≤ tree.size
  kept : ∀ id < old.size, tree.node? id = old.node? id
  apart : ∀ id node, old.size ≤ id → tree.node? id = some node → ∀ above ∈ node.parent, old.size ≤ above

variable {old tree : Tree} {id : Nat}

theorem node?_modify (tree : Tree) (id other : Nat) (change : Node → Node) :
    (tree.modify id change).node? other = if id = other then (tree.node? other).map change else tree.node? other :=
  Array.getElem?_modify

@[simp] theorem size_modify (tree : Tree) (id : Nat) (change : Node → Node) :
    (tree.modify id change).size = tree.size := Array.size_modify

theorem node?_create (tree : Tree) (kind : Kind) (offset id : Nat) :
    (tree.create kind offset).2.node? id = if id = tree.size then some { kind, offset } else tree.node? id :=
  Array.getElem?_push

theorem extends_refl (tree : Tree) : tree.Extends tree := by
  refine ⟨rfl, Nat.le_refl _, fun _ _ => rfl, fun id node hid hnode => ?_⟩
  rw [node?, Array.getElem?_eq_none hid] at hnode
  cases hnode

theorem Extends.create (h : old.Extends tree) (kind : Kind) (offset : Nat) :
    old.Extends (tree.create kind offset).2 := by
  refine ⟨h.source, ?_, fun other hother => ?_, fun other node hother hnode => ?_⟩
  · have hsize : (tree.create kind offset).2.size = tree.size + 1 := Array.size_push _
    rw [hsize]
    exact Nat.le_succ_of_le h.size_le
  · rw [node?_create, if_neg (Nat.ne_of_lt (Nat.lt_of_lt_of_le hother h.size_le)), h.kept other hother]
  · rw [node?_create] at hnode
    split at hnode
    · cases hnode
      exact nofun
    · exact h.apart other node hother hnode

/-- An added node may be changed as long as it is not hung below an older one. -/
theorem Extends.modify (h : old.Extends tree) (hid : old.size ≤ id) (change : Node → Node)
    (hchange : ∀ node, ∀ above ∈ (change node).parent, above ∈ node.parent ∨ old.size ≤ above) :
    old.Extends (tree.modify id change) := by
  refine ⟨h.source, ?_, fun other hother => ?_, fun other node hother hnode => ?_⟩
  · rw [size_modify]
    exact h.size_le
  · rw [node?_modify, if_neg (Nat.ne_of_gt (Nat.lt_of_lt_of_le hother hid)), h.kept other hother]
  · rw [node?_modify] at hnode
    split at hnode
    · obtain ⟨before, hbefore, rfl⟩ := Option.map_eq_some_iff.mp hnode
      intro above habove
      rcases hchange before above habove with hparent | hadded
      · exact h.apart other before hother hbefore above hparent
      · exact hadded
    · exact h.apart other node hother hnode

/-- A change that leaves the parent of a node where it is. -/
theorem Extends.modify_inside (h : old.Extends tree) (hid : old.size ≤ id) (change : Node → Node)
    (hchange : ∀ node, (change node).parent = node.parent) : old.Extends (tree.modify id change) := by
  refine h.modify hid change fun node above habove => .inl ?_
  rwa [← hchange node]

/-- Growing goes up through added nodes only. -/
theorem Extends.growUp (h : old.Extends tree) (hid : old.size ≤ id) (offset stop budget : Nat) :
    old.Extends (growUp offset stop budget tree id) := by
  induction budget generalizing tree id with
  | zero => exact h
  | succ budget ih =>
      rw [Tree.growUp]
      split
      · exact h
      · rename_i node hnode
        split
        · exact h
        · have hgrown := h.modify_inside hid (·.grow offset stop) fun _ => rfl
          dsimp only
          split
          · exact hgrown
          · rename_i above habove
            exact ih hgrown (h.apart id node hid hnode above habove)

theorem Extends.grow (h : old.Extends tree) (hid : old.size ≤ id) (offset stop : Nat) :
    old.Extends (tree.grow id offset stop) := h.growUp hid offset stop _

theorem Extends.reach (h : old.Extends tree) (hid : old.size ≤ id) (stop : Nat) :
    old.Extends (tree.reach id stop) := by
  rw [Tree.reach]
  split
  · exact h
  · exact h.grow hid _ _

theorem Extends.mark (h : old.Extends tree) (hid : old.size ≤ id) (marker : Marker) :
    old.Extends (tree.mark id marker) := (h.grow hid _ _).modify_inside hid _ fun _ => rfl

theorem Extends.detach (h : old.Extends tree) (hid : old.size ≤ id) : old.Extends (tree.detach id) := by
  rw [Tree.detach]
  split
  · exact h
  · rename_i above habove
    obtain ⟨node, hnode, hparent⟩ := Option.bind_eq_some_iff.mp habove
    exact h.modify_inside (h.apart id node hid hnode above hparent) _ fun _ => rfl

theorem Extends.adopt (h : old.Extends tree) {parent child : Nat} (hparent : old.size ≤ parent)
    (hchild : old.size ≤ child) (index : Option Nat) : old.Extends (tree.adopt parent child index) := by
  have hhung := (h.detach hchild).modify hchild (fun node => { node with parent := some parent })
    (by rintro node above ⟨⟩; exact .inr hparent)
  have hadopted := hhung.modify_inside hparent
    (fun node => { node with children := place child index node.children }) fun _ => rfl
  rw [Tree.adopt]
  split
  · exact hadopted
  · exact hadopted.grow hparent _ _

/-! ### Sources -/

/-- Every tree goes on from the one without nodes. -/
theorem extends_ofSource (tree : Tree) : (ofSource tree.source).Extends tree :=
  ⟨rfl, Nat.zero_le _, fun id hid => absurd hid (Nat.not_lt_zero id), fun _ _ _ _ _ _ => Nat.zero_le _⟩

theorem source_grow (tree : Tree) (id offset stop : Nat) : (tree.grow id offset stop).source = tree.source :=
  (tree.extends_ofSource.grow (Nat.zero_le id) offset stop).source

theorem source_reach (tree : Tree) (id stop : Nat) : (tree.reach id stop).source = tree.source :=
  (tree.extends_ofSource.reach (Nat.zero_le id) stop).source

theorem source_mark (tree : Tree) (id : Nat) (marker : Marker) : (tree.mark id marker).source = tree.source :=
  (tree.extends_ofSource.mark (Nat.zero_le id) marker).source

theorem source_adopt (tree : Tree) (parent child : Nat) (index : Option Nat) :
    (tree.adopt parent child index).source = tree.source :=
  (tree.extends_ofSource.adopt (Nat.zero_le parent) (Nat.zero_le child) index).source

/-! ### Going back -/

/-- Dropping what was added leads back to the older tree. -/
theorem Extends.truncate (h : old.Extends tree) : tree.truncate old.size = old := by
  have hsize : old.size ≤ tree.nodes.size := h.size_le
  have hnodes : tree.nodes.take old.size = old.nodes := by
    refine Array.ext_getElem? fun other => ?_
    rw [Array.take_eq_extract, Array.getElem?_extract, Nat.zero_add, Nat.sub_zero]
    split
    · rename_i hlt
      exact h.kept other (Nat.lt_of_lt_of_le hlt (Nat.min_le_left _ _))
    · rename_i hge
      rw [Nat.min_eq_left hsize] at hge
      exact (Array.getElem?_eq_none (Nat.not_lt.mp hge)).symm
  rw [Tree.truncate, hnodes, h.source]

end Gamebook.Tree
