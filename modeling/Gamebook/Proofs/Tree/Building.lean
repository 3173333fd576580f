import Gamebook.Proofs.Tree.Growth
import Mathlib.Data.List.Perm.Basic

/-!
Trees in the making. A tree is built by steps: a node is made, hung below another one, made to reach
further, or marked. However such steps follow each other, and wherever a node was hung before, the nodes are
a forest at every moment: parents and children agree, nothing stands below itself, and what stands below a
node lies within its extent, which no step makes smaller. So does what is marked on a node, unless the marked
range reaches beyond the last offset: its end wraps around then, and the node does not cover it.
-/

namespace Gamebook

namespace Tree

open Relation (ReflTransGen TransGen)

/-- A step by which a tree is built. -/
inductive Edit where
  | create (kind : Kind) (offset : Nat)
  | adopt (parent child : Nat) (index : Option Nat)
  | reach (id stop : Nat)
  | mark (id : Nat) (marker : Marker)

def perform (tree : Tree) : Edit → Tree
  | .create kind offset => (tree.create kind offset).2
  | .adopt parent child index => tree.adopt parent child index
  | .reach id stop => tree.reach id stop
  | .mark id marker => tree.mark id marker

def performAll (tree : Tree) (edits : List Edit) : Tree := edits.foldl perform tree

/-- A step names nodes that are there and offsets that are machine words, and hangs no node below itself or
below what stands below it. -/
def Admits (tree : Tree) : Edit → Prop
  | .create _ offset => offset ≤ maxOffset
  | .adopt parent child _ => parent < tree.size ∧ child < tree.size ∧ ¬ReflTransGen tree.Climbs parent child
  | .reach id stop => id < tree.size ∧ stop ≤ maxOffset
  | .mark id _ => id < tree.size

def AdmitsAll (tree : Tree) : List Edit → Prop
  | [] => True
  | edit :: more => tree.Admits edit ∧ (tree.perform edit).AdmitsAll more

/-- Every node covers its markers up to what counts as their ends in a text of `size` bytes. -/
def Marked (size : Nat) (tree : Tree) : Prop :=
  ∀ id node, tree.node? id = some node → ∀ marker ∈ node.issues,
    tree.Surrounds id marker.offset (marker.wrappedStop size)

/-- No node reaches beyond `last`. -/
def Bounded (last : Nat) (tree : Tree) : Prop := ∀ id node, tree.node? id = some node → node.stop ≤ last

/-- The nodes form trees, each node around those below it and around its markers, and end where there are
offsets. -/
structure Forest (tree : Tree) : Prop extends tree.Linked where
  nests : tree.Nests
  marked : tree.Marked (Text.bytes tree.source)
  bounded : tree.Bounded (lastOffset (Text.bytes tree.source))

variable {tree old : Tree} {id above parent child offset stop size last : Nat} {index : Option Nat}

/-- A marked range lies within its node where, and only where, it ends at an offset. -/
theorem Forest.surrounds_iff (h : tree.Forest) {node : Node} (hnode : tree.node? id = some node) {marker : Marker}
    (hmarker : marker ∈ node.issues) :
    tree.Surrounds id marker.offset marker.stop ↔ marker.stop ≤ lastOffset (Text.bytes tree.source) := by
  constructor
  · rintro ⟨same, hsame, -, hstop⟩
    exact Nat.le_trans hstop (h.bounded id same hsame)
  · intro hfits
    have hcovered := h.marked id node hnode marker hmarker
    rwa [Marker.wrappedStop_eq hfits] at hcovered

/-! ### New nodes -/

theorem node?_size (tree : Tree) : tree.node? tree.size = none := Array.getElem?_eq_none (Nat.le_refl _)

theorem parent?_create (tree : Tree) (kind : Kind) (offset id : Nat) :
    (tree.create kind offset).2.parent? id = tree.parent? id := by
  rw [parent?, parent?, node?_create]
  split
  · subst id
    rw [node?_size]
    rfl
  · rfl

theorem children_create (tree : Tree) (kind : Kind) (offset id : Nat) :
    (tree.create kind offset).2.children id = tree.children id := by
  rw [children, children, node?_create]
  split
  · subst id
    rw [node?_size]
    rfl
  · rfl

theorem widens_create (tree : Tree) (kind : Kind) (offset : Nat) : (tree.create kind offset).2.Widens tree := by
  intro id node hnode
  refine ⟨node, ?_, Nat.le_refl _, Nat.le_refl _⟩
  rw [node?_create, if_neg, hnode]
  rintro rfl
  rw [node?_size] at hnode
  cases hnode

theorem Forest.create (h : tree.Forest) (kind : Kind) (hoffset : offset ≤ maxOffset) :
    (tree.create kind offset).2.Forest := by
  have hold : ∀ id node, (tree.create kind offset).2.node? id = some node →
      tree.node? id = some node ∨ node = { kind, offset } := by
    intro id node hnode
    rw [node?_create] at hnode
    split at hnode
    · exact .inr (Option.some.inj hnode).symm
    · exact .inl hnode
  refine ⟨h.toLinked.congr (tree.parent?_create kind offset) (tree.children_create kind offset), ?_, ?_, ?_⟩
  · intro id node hnode above habove
    rcases hold id node hnode with hnode | rfl
    · exact (tree.widens_create kind offset).surrounds (h.nests id node hnode above habove)
    · cases habove
  · intro id node hnode marker hmarker
    rcases hold id node hnode with hnode | rfl
    · exact (tree.widens_create kind offset).surrounds (h.marked id node hnode marker hmarker)
    · cases hmarker
  · intro id node hnode
    rcases hold id node hnode with hnode | rfl
    · exact h.bounded id node hnode
    · exact Nat.le_trans hoffset (Nat.le_max_left _ _)

/-! ### Growth -/

/-- Markers stay covered while nodes grow. -/
theorem Marked.grow (h : tree.Marked size) (first offset stop : Nat) : (tree.grow first offset stop).Marked size := by
  intro id node hnode marker hmarker
  have hissues := map_growUp (·.issues) offset stop (fun _ => rfl) (tree.size + 1) tree first id
  rw [← Tree.grow, hnode] at hissues
  obtain ⟨before, hbefore, hsame⟩ := Option.map_eq_some_iff.mp hissues.symm
  exact (tree.widens_grow first offset stop).surrounds (h id before hbefore marker (hsame ▸ hmarker))

theorem Bounded.modify (h : tree.Bounded last) (id : Nat) (change : Node → Node)
    (hchange : ∀ node, node.stop ≤ last → (change node).stop ≤ last) : (tree.modify id change).Bounded last := by
  intro other node hnode
  rw [node?_modify] at hnode
  split at hnode
  · obtain ⟨before, hbefore, rfl⟩ := Option.map_eq_some_iff.mp hnode
    exact hchange before (h other before hbefore)
  · exact h other node hnode

theorem Bounded.growUp (h : tree.Bounded last) (hstop : stop ≤ last) (offset budget first : Nat) :
    (growUp offset stop budget tree first).Bounded last := by
  induction budget generalizing tree first with
  | zero => exact h
  | succ budget ih =>
      rw [Tree.growUp]
      split
      · exact h
      · split
        · exact h
        · have hgrown := h.modify first (·.grow offset stop) fun node hnode => by
            rw [Node.stop_grow]
            exact Nat.max_le.mpr ⟨hnode, hstop⟩
          dsimp only
          split
          · exact hgrown
          · exact ih hgrown _

theorem Forest.grow (h : tree.Forest) (hid : id < tree.size) (offset : Nat)
    (hstop : stop ≤ lastOffset (Text.bytes tree.source)) : (tree.grow id offset stop).Forest := by
  refine ⟨h.toLinked.grow id offset stop, h.nests_grow (h.nests.lags id offset stop) hid, ?_, ?_⟩
  · rw [source_grow]
    exact h.marked.grow id offset stop
  · rw [source_grow]
    exact h.bounded.growUp hstop offset _ id

theorem Forest.reach (h : tree.Forest) (hid : id < tree.size) (hstop : stop ≤ maxOffset) :
    (tree.reach id stop).Forest := by
  obtain ⟨node, hnode⟩ := exists_node hid
  rw [Tree.reach, hnode]
  exact h.grow hid node.offset (Nat.le_trans hstop (Nat.le_max_left _ _))

theorem widens_reach (tree : Tree) (id stop : Nat) : (tree.reach id stop).Widens tree := by
  rw [reach]
  split
  · exact .refl tree
  · exact tree.widens_grow id _ stop

/-! ### Markers -/

theorem node?_mark (tree : Tree) (id : Nat) (marker : Marker) (other : Nat) : (tree.mark id marker).node? other =
    ((tree.grow id marker.offset (marker.wrappedStop (Text.bytes tree.source))).node? other).map fun node =>
      { node with issues := if other = id then node.issues ++ [marker] else node.issues } := by
  rw [mark, node?_modify]
  split
  · rename_i hsame
    simp only [if_pos hsame.symm]
  · rename_i hne
    simp only [if_neg (Ne.symm hne), Option.map_id']

theorem widens_mark_grow (tree : Tree) (id : Nat) (marker : Marker) :
    (tree.mark id marker).Widens (tree.grow id marker.offset (marker.wrappedStop (Text.bytes tree.source))) := by
  intro other node hnode
  rw [Surrounds, node?_mark, hnode]
  exact ⟨_, rfl, Nat.le_refl _, Nat.le_refl _⟩

theorem widens_mark (tree : Tree) (id : Nat) (marker : Marker) : (tree.mark id marker).Widens tree :=
  (tree.widens_mark_grow id marker).trans (tree.widens_grow id _ _)

theorem Forest.mark (h : tree.Forest) (hid : id < tree.size) (marker : Marker) : (tree.mark id marker).Forest := by
  have hgrown : (tree.grow id marker.offset (marker.wrappedStop (Text.bytes tree.source))).Forest :=
    h.grow hid marker.offset (offsetWrap_le_last _ _ _)
  have hwidens := tree.widens_mark_grow id marker
  have hsource := tree.source_mark id marker
  refine ⟨hgrown.toLinked.congr (fun other => ?_) (fun other => ?_), ?_, ?_, ?_⟩
  · rw [parent?, parent?, node?_mark]
    cases (tree.grow id marker.offset (marker.wrappedStop (Text.bytes tree.source))).node? other <;> rfl
  · rw [children, children, node?_mark, Option.map_map]
    rfl
  · intro other node hnode above habove
    rw [node?_mark] at hnode
    obtain ⟨before, hbefore, rfl⟩ := Option.map_eq_some_iff.mp hnode
    exact hwidens.surrounds (hgrown.nests other before hbefore above habove)
  · intro other node hnode own hown
    rw [node?_mark] at hnode
    rw [hsource]
    obtain ⟨before, hbefore, rfl⟩ := Option.map_eq_some_iff.mp hnode
    have hcases : own ∈ before.issues ∨ (other = id ∧ own = marker) := by
      dsimp only at hown
      split at hown
      · rename_i hsame
        rcases List.mem_append.mp hown with hold | hnew
        · exact .inl hold
        · exact .inr ⟨hsame, List.mem_singleton.mp hnew⟩
      · exact .inl hown
    rcases hcases with hold | ⟨rfl, rfl⟩
    · exact hwidens.surrounds (h.marked.grow id _ _ other before hbefore own hold)
    · exact hwidens.surrounds (surrounds_grow hid own.offset _)
  · have hbounded := hgrown.bounded.modify id (fun node => { node with issues := node.issues ++ [marker] })
      fun _ hnode => hnode
    rw [source_grow] at hbounded
    rw [hsource]
    exact hbounded

/-! ### Adoption -/

/-- A node that is put among others stands there once, and they stay. -/
theorem place_perm (child : Nat) (index : Option Nat) (ids : List Nat) :
    (place child index ids).Perm (child :: ids) := by
  cases index with
  | none => exact List.perm_append_singleton child ids
  | some at_ =>
      rw [place]
      split
      · rename_i hlt
        exact List.perm_insertIdx child ids (Nat.le_of_lt hlt)
      · exact List.perm_append_singleton child ids

/-- The tree with a node hung below another one, before that one grows. -/
def hang (tree : Tree) (parent child : Nat) (index : Option Nat) : Tree :=
  ((tree.detach child).modify child fun node => { node with parent := some parent }).modify parent fun node =>
    { node with children := place child index node.children }

theorem source_hang (tree : Tree) (parent child : Nat) (index : Option Nat) :
    (tree.hang parent child index).source = tree.source :=
  (tree.extends_ofSource.detach (Nat.zero_le child)).source

theorem adopt_eq (tree : Tree) (parent child : Nat) (index : Option Nat) : tree.adopt parent child index =
    match (tree.hang parent child index).node? child with
    | none => tree.hang parent child index
    | some node => (tree.hang parent child index).grow parent node.offset node.stop := rfl

/-- Where parents and children agree, a detached node is nowhere among the children. -/
theorem Linked.node?_detach (h : tree.Linked) (child id : Nat) : (tree.detach child).node? id =
    (tree.node? id).map fun node => { node with children := node.children.filter (· != child) } := by
  have hapart : ∀ node, tree.node? id = some node → tree.parent? child ≠ some id →
      node.children.filter (· != child) = node.children := by
    intro node hnode hparent
    refine List.filter_eq_self.mpr fun other hother => ?_
    rw [bne_iff_ne]
    rintro rfl
    refine hparent ((h.hung other id).mpr ?_)
    rw [children, hnode]
    exact hother
  have hsame : tree.parent? child ≠ some id → tree.node? id =
      (tree.node? id).map fun node => { node with children := node.children.filter (· != child) } := by
    intro hparent
    cases hnode : tree.node? id with
    | none => rfl
    | some node =>
        rw [Option.map_some, hapart node hnode hparent]
  rw [detach]
  split
  · rename_i hparent
    exact hsame (by rw [hparent]; exact (Option.some_ne_none id).symm)
  · rename_i above hparent
    rw [node?_modify]
    split
    · rfl
    · rename_i hne
      exact hsame (by rw [hparent]; exact fun heq => hne (Option.some.inj heq))

theorem Linked.node?_hang (h : tree.Linked) (parent child : Nat) (index : Option Nat) (id : Nat) :
    (tree.hang parent child index).node? id = (tree.node? id).map fun node => { node with
      parent := if id = child then some parent else node.parent
      children := if id = parent then place child index (node.children.filter (· != child))
        else node.children.filter (· != child) } := by
  rw [hang, node?_modify, node?_modify, h.node?_detach]
  by_cases hparent : parent = id <;> by_cases hchild : child = id <;>
    simp [hparent, hchild, eq_comm, Option.map_map, Function.comp_def]

theorem Linked.parent?_hang (h : tree.Linked) (hchild : child < tree.size) (parent : Nat) (index : Option Nat)
    (id : Nat) : (tree.hang parent child index).parent? id = if id = child then some parent else tree.parent? id := by
  rw [parent?, parent?, h.node?_hang]
  split
  · rename_i hsame
    obtain ⟨node, hnode⟩ := exists_node hchild
    rw [hsame, hnode, Option.map_some, Option.bind_some]
  · cases tree.node? id <;> rfl

theorem Linked.children_hang (h : tree.Linked) (hparent : parent < tree.size) (child : Nat) (index : Option Nat)
    (id : Nat) : (tree.hang parent child index).children id =
      if id = parent then place child index ((tree.children id).filter (· != child))
      else (tree.children id).filter (· != child) := by
  rw [children, children, h.node?_hang, Option.map_map]
  by_cases hid : id = parent
  · obtain ⟨node, hnode⟩ := exists_node hparent
    rw [if_pos hid, hid, hnode]
    simp
  · rw [if_neg hid]
    cases tree.node? id <;> simp [hid]

/-- A way up in the tree with the hung node was there before, or goes through the new place. -/
theorem Linked.climbs_hang (h : tree.Linked) (hchild : child < tree.size)
    (hapart : ¬ReflTransGen tree.Climbs parent child) (hway : TransGen (tree.hang parent child index).Climbs id above) :
    TransGen tree.Climbs id above ∨ (ReflTransGen tree.Climbs id child ∧ ReflTransGen tree.Climbs parent above) := by
  have hstep : ∀ lower upper, (tree.hang parent child index).Climbs lower upper →
      tree.Climbs lower upper ∨ (lower = child ∧ upper = parent) := by
    intro lower upper hclimbs
    rw [Climbs, h.parent?_hang hchild] at hclimbs
    split at hclimbs
    · rename_i hsame
      exact .inr ⟨hsame, (Option.some.inj hclimbs).symm⟩
    · exact .inl hclimbs
  induction hway with
  | single hlast =>
      rcases hstep _ _ hlast with hold | ⟨rfl, rfl⟩
      · exact .inl (.single hold)
      · exact .inr ⟨.refl, .refl⟩
  | tail _ hlast ih =>
      rcases hstep _ _ hlast with hold | ⟨rfl, rfl⟩
      · exact ih.imp (·.tail hold) fun hnew => ⟨hnew.1, hnew.2.tail hold⟩
      · rcases ih with hold | ⟨_, hback⟩
        · exact .inr ⟨hold.to_reflTransGen, .refl⟩
        · exact absurd hback hapart

theorem Linked.hang (h : tree.Linked) (hparent : parent < tree.size) (hchild : child < tree.size)
    (hapart : ¬ReflTransGen tree.Climbs parent child) (index : Option Nat) : (tree.hang parent child index).Linked := by
  refine ⟨fun id above => ?_, fun above => ?_, fun id hcycle => ?_⟩
  · have hmem : id ∈ (tree.children above).filter (· != child) ↔ tree.parent? id = some above ∧ id ≠ child := by
      rw [List.mem_filter, bne_iff_ne, h.hung]
    rw [h.parent?_hang hchild, h.children_hang hparent]
    by_cases habove : above = parent
    · rw [if_pos habove, (place_perm _ _ _).mem_iff, List.mem_cons, hmem, habove]
      by_cases hid : id = child <;> simp [hid]
    · rw [if_neg habove, hmem]
      by_cases hid : id = child <;> simp [hid, Ne.symm habove]
  · have honce : ((tree.children above).filter (· != child)).Nodup := (h.once above).filter _
    rw [h.children_hang hparent]
    split
    · refine (place_perm _ _ _).nodup_iff.mpr (List.nodup_cons.mpr ⟨fun hmem => ?_, honce⟩)
      simp at hmem
    · exact honce
  · rcases h.climbs_hang hchild hapart hcycle with hold | ⟨hdown, hup⟩
    · exact h.acyclic id hold
    · exact hapart (hup.trans hdown)

theorem Linked.widens_hang (h : tree.Linked) (parent child : Nat) (index : Option Nat) :
    (tree.hang parent child index).Widens tree := by
  intro id node hnode
  rw [Surrounds, h.node?_hang, hnode]
  exact ⟨_, rfl, Nat.le_refl _, Nat.le_refl _⟩

/-- A node that was hung below another one may lie outside of it; all else is in order. -/
theorem Forest.lags_hang (h : tree.Forest) (hparent : parent < tree.size) {node : Node}
    (hnode : (tree.hang parent child index).node? child = some node) :
    (tree.hang parent child index).Lags parent node.offset node.stop := by
  intro id inner hinner above habove
  have hwidens := (tree.hang parent child index).widens_modify_grow parent node.offset node.stop
  have hplace := hinner
  rw [h.node?_hang] at hplace
  obtain ⟨before, hbefore, rfl⟩ := Option.map_eq_some_iff.mp hplace
  dsimp only at habove
  split at habove
  · rename_i hsame
    subst hsame
    obtain rfl : parent = above := Option.some.inj habove
    obtain rfl := Option.some.inj (hinner.symm.trans hnode)
    obtain ⟨outer, houter⟩ := exists_node hparent
    rw [Surrounds, node?_modify, if_pos rfl, h.node?_hang, houter]
    refine ⟨_, rfl, Nat.min_le_right _ _, ?_⟩
    rw [Node.stop_grow]
    exact Nat.le_max_right _ _
  · exact hwidens.surrounds ((h.widens_hang parent child index).surrounds (h.nests id before hbefore above habove))

theorem Forest.adopt (h : tree.Forest) (hparent : parent < tree.size) (hchild : child < tree.size)
    (hapart : ¬ReflTransGen tree.Climbs parent child) (index : Option Nat) : (tree.adopt parent child index).Forest := by
  have hhung := h.toLinked.hang hparent hchild hapart index
  obtain ⟨before, hbefore⟩ := exists_node hchild
  obtain ⟨node, hnode⟩ : ∃ node, (tree.hang parent child index).node? child = some node := by
    rw [h.node?_hang, hbefore]
    exact ⟨_, rfl⟩
  have hsize : parent < (tree.hang parent child index).size := by
    obtain ⟨outer, houter⟩ := exists_node hparent
    exact (h.widens_hang parent child index parent outer houter).lt_size
  have hsource := tree.source_hang parent child index
  have hmarked : (tree.hang parent child index).Marked (Text.bytes tree.source) := by
    intro id inner hinner marker hmarker
    rw [h.node?_hang] at hinner
    obtain ⟨old, hold, rfl⟩ := Option.map_eq_some_iff.mp hinner
    exact (h.widens_hang parent child index).surrounds (h.marked id old hold marker hmarker)
  have hbounded : (tree.hang parent child index).Bounded (lastOffset (Text.bytes tree.source)) := by
    intro id inner hinner
    rw [h.node?_hang] at hinner
    obtain ⟨old, hold, rfl⟩ := Option.map_eq_some_iff.mp hinner
    exact h.bounded id old hold
  rw [adopt_eq, hnode]
  refine ⟨hhung.grow _ _ _, hhung.nests_grow (h.lags_hang hparent hnode) hsize, ?_, ?_⟩
  · rw [source_grow, hsource]
    exact hmarked.grow _ _ _
  · rw [source_grow, hsource]
    exact hbounded.growUp (hbounded child node hnode) _ _ _

theorem Linked.widens_adopt (h : tree.Linked) (parent child : Nat) (index : Option Nat) :
    (tree.adopt parent child index).Widens tree := by
  rw [adopt_eq]
  split
  · exact h.widens_hang parent child index
  · exact (widens_grow _ _ _ _).trans (h.widens_hang parent child index)

/-! ### Runs -/

theorem Forest.perform (h : tree.Forest) {edit : Edit} (hadmits : tree.Admits edit) : (tree.perform edit).Forest := by
  cases edit with
  | create kind offset => exact h.create kind hadmits
  | adopt parent child index => exact h.adopt hadmits.1 hadmits.2.1 hadmits.2.2 index
  | reach id stop => exact h.reach hadmits.1 hadmits.2
  | mark id marker => exact h.mark hadmits marker

theorem Linked.widens_perform (h : tree.Linked) (edit : Edit) : (tree.perform edit).Widens tree := by
  cases edit with
  | create kind offset => exact tree.widens_create kind offset
  | adopt parent child index => exact h.widens_adopt parent child index
  | reach id stop => exact tree.widens_reach id stop
  | mark id marker => exact tree.widens_mark id marker

theorem Forest.performAll (h : tree.Forest) {edits : List Edit} (hadmits : tree.AdmitsAll edits) :
    (tree.performAll edits).Forest := by
  induction edits generalizing tree with
  | nil => exact h
  | cons edit more ih => exact ih (h.perform hadmits.1) hadmits.2

theorem AdmitsAll.front {front back : List Edit} (h : tree.AdmitsAll (front ++ back)) : tree.AdmitsAll front := by
  induction front generalizing tree with
  | nil => trivial
  | cons edit more ih => exact ⟨h.1, ih h.2⟩

theorem forest_ofSource (source : Text) : (ofSource source).Forest := by
  have hnode : ∀ id, (ofSource source).node? id = none := fun id => Array.getElem?_empty
  have hparent : ∀ id, (ofSource source).parent? id = none := fun id => by rw [parent?, hnode]; rfl
  have hchildren : ∀ id, (ofSource source).children id = [] := fun id => by rw [children, hnode]; rfl
  refine ⟨⟨fun id above => ?_, fun above => ?_, fun id hcycle => ?_⟩, fun id node h => ?_, fun id node h => ?_,
    fun id node h => ?_⟩
  · simp [hparent, hchildren]
  · rw [hchildren]
    exact .nil
  · obtain ⟨above, hstep, _⟩ := Relation.TransGen.head'_iff.mp hcycle
    rw [Climbs, hparent] at hstep
    cases hstep
  all_goals
    rw [hnode] at h
    cases h

/-- Every step keeps the source. -/
theorem source_perform (tree : Tree) (edit : Edit) : (tree.perform edit).source = tree.source := by
  cases edit with
  | create kind offset => rfl
  | adopt parent child index => exact tree.source_adopt parent child index
  | reach id stop => exact tree.source_reach id stop
  | mark id marker => exact tree.source_mark id marker

theorem source_performAll (tree : Tree) (edits : List Edit) : (tree.performAll edits).source = tree.source := by
  induction edits generalizing tree with
  | nil => rfl
  | cons edit more ih => exact (ih (tree.perform edit)).trans (tree.source_perform edit)

/-- A node may be hung below one whose ways up all stay among nodes that it is none of. -/
theorem admits_adopt (ids : List Nat) (hsize : parent < tree.size ∧ child < tree.size)
    (hclosed : ∀ id ∈ ids, ∀ above ∈ tree.parent? id, above ∈ ids) (hparent : parent ∈ ids) (hchild : child ∉ ids)
    (index : Option Nat) : tree.Admits (.adopt parent child index) :=
  ⟨hsize.1, hsize.2, fun hway => hchild (mem_of_closed hclosed hparent hway)⟩

/-- A word is hung below another one, reaches further there, is then put in front of it and at last behind
it, where the other one is marked, once up to an offset and once beyond the last of them. -/
def wandering : List Edit :=
  [.create .textLine 4, .create .realWord 2, .create .realWord 7, .adopt 0 1 none, .adopt 1 2 (some 0), .reach 2 9,
    .adopt 0 2 (some 0), .adopt 0 2 none, .mark 1 (.ofRule .unexpectedToken .error 1 0 12),
    .mark 1 (.ofRule .unexpectedToken .error 1 1 maxOffset)]

end Tree

end Gamebook
