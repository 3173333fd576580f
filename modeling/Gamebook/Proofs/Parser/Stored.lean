import Gamebook.Proofs.Scene.Levels

/-!
Phrases in trees. A tree that is built node by node holds at its end the nodes of a phrase that is still
open: its own node has no parent yet. What is done to that node is what is done to the phrase; to put
another phrase into it is to hang the node of that phrase below it.
-/

namespace Gamebook

namespace Node

def below (parent : Nat) (node : Node) : Node := { node with parent := some parent }

def holding (child : Nat) (node : Node) : Node := { node with children := node.children ++ [child] }

def marked (marker : Marker) (node : Node) : Node := { node with issues := node.issues ++ [marker] }

/-- A node that covers a range does not grow when it is to cover it. -/
theorem grow_of_covers {node : Node} {offset stop : Nat} (h : node.covers offset stop = true) :
    node.grow offset stop = node := by
  rw [covers, Bool.and_eq_true, decide_eq_true_eq, decide_eq_true_eq] at h
  rw [grow, Nat.min_eq_left h.1, Nat.max_eq_left h.2, Node.stop, Nat.add_sub_cancel_left]

/-- The range of the marker ends at an offset of the text, or the node covers it as it is. -/
def Bears (size : Nat) (node : Node) (marker : Marker) : Prop :=
  marker.stop ≤ lastOffset size ∨ node.covers marker.offset marker.stop = true

/-- A node grows to the exact end of such a marker. -/
theorem Bears.grow {size : Nat} {node : Node} {marker : Marker} (h : node.Bears size marker) :
    node.grow marker.offset (marker.wrappedStop size) = node.grow marker.offset marker.stop := by
  rcases h with hfits | hcovers
  · rw [Marker.wrappedStop_eq hfits]
  · rw [grow_of_covers hcovers]
    rw [covers, Bool.and_eq_true, decide_eq_true_eq, decide_eq_true_eq] at hcovers
    apply grow_of_covers
    rw [covers, Bool.and_eq_true, decide_eq_true_eq, decide_eq_true_eq]
    exact ⟨hcovers.1, Nat.le_trans (offsetWrap_le_add _ _ _) hcovers.2⟩

end Node

/-- A range that a marker is put on ends at an offset of the text, or the phrase covers it as it is. -/
def Phrase.Bears (size : Nat) (phrase : Phrase) (offset length : Nat) : Prop :=
  offset + length ≤ lastOffset size ∨ (phrase.start ≤ offset ∧ offset + length ≤ phrase.stop)

/-- A phrase covers its whole range. -/
theorem Phrase.bears_whole {phrase : Phrase} (hordered : phrase.start ≤ phrase.stop) (size : Nat) :
    phrase.Bears size phrase.start phrase.length :=
  .inr ⟨Nat.le_refl _, Nat.le_of_eq (Nat.add_sub_cancel' hordered)⟩

namespace Tree

/-- The tree of a source with a node of the given number between some others. -/
structure Split (source : Text) (id : Nat) (front : List Node) (node : Node) (back : List Node) (tree : Tree) :
    Prop where
  source : tree.source = source
  nodes : tree.nodes.toList = front ++ node :: back
  id : front.length = id

variable {source : Text} {tree : Tree} {front back middle : List Node} {node other : Node} {id : Nat}

theorem Split.node? (h : tree.Split source id front node back) : tree.node? id = some node := by
  rw [Tree.node?, ← Array.getElem?_toList, h.nodes, ← h.id, List.getElem?_append_right (Nat.le_refl _), Nat.sub_self]
  rfl

theorem Split.modify (h : tree.Split source id front node back) (change : Node → Node) :
    (tree.modify id change).Split source id front (change node) back := by
  have hlist : ∀ front : List Node,
      (front ++ node :: back).modify front.length change = front ++ change node :: back := by
    intro front
    induction front with
    | nil => rfl
    | cons first more ih => rw [List.cons_append, List.length_cons, List.modify_succ_cons, ih, List.cons_append]
  exact ⟨h.source, by rw [Tree.modify, Array.toList_modify, h.nodes, ← h.id, hlist], h.id⟩

/-- A node without a parent grows alone. -/
theorem Split.grow (h : tree.Split source id front node back) (hparent : node.parent = none) (offset stop : Nat) :
    (tree.grow id offset stop).Split source id front (node.grow offset stop) back := by
  rw [Tree.grow, growUp, h.node?]
  dsimp only
  split
  · rename_i hcovers
    rw [Node.grow_of_covers hcovers]
    exact h
  · rw [hparent]
    exact h.modify (·.grow offset stop)

theorem Split.reach (h : tree.Split source id front node back) (hparent : node.parent = none) (stop : Nat) :
    (tree.reach id stop).Split source id front (node.grow node.offset stop) back := by
  rw [Tree.reach, h.node?]
  exact h.grow hparent node.offset stop

theorem Split.mark (h : tree.Split source id front node back) (hparent : node.parent = none) {marker : Marker}
    (hbears : node.Bears (Text.bytes source) marker) :
    (tree.mark id marker).Split source id front ((node.grow marker.offset marker.stop).marked marker) back := by
  rw [← hbears.grow, Tree.mark, h.source]
  exact (h.grow hparent marker.offset _).modify (Node.marked marker)

/-- The later of two nodes, and the earlier one. -/
theorem Split.later (h : tree.Split source id front node (middle ++ other :: back)) :
    tree.Split source (id + 1 + middle.length) (front ++ node :: middle) other back :=
  ⟨h.source, by rw [h.nodes, List.append_assoc, List.cons_append],
    by rw [List.length_append, List.length_cons, h.id, Nat.add_assoc, Nat.add_comm 1]⟩

theorem Split.earlier (h : tree.Split source (id + 1 + middle.length) (front ++ node :: middle) other back) :
    tree.Split source id front node (middle ++ other :: back) := by
  refine ⟨h.source, by rw [h.nodes, List.append_assoc, List.cons_append], ?_⟩
  have hid := h.id
  rw [List.length_append, List.length_cons] at hid
  omega

theorem Split.extend {mid : Tree} {otherId : Nat} {behind : List Node} (h : mid.Split source id front node back)
    (htree : tree.Split mid.source otherId (mid.nodes.toList ++ middle) other behind) :
    tree.Split source id front node ((back ++ middle) ++ other :: behind) := by
  refine ⟨htree.source.trans h.source, ?_, h.id⟩
  rw [htree.nodes, h.nodes]
  simp only [List.append_assoc, List.cons_append]

/-- What adopting does between two nodes that have no parents. -/
theorem adopt_of_roots {child : Node} {childId : Nat} (hchild : tree.node? childId = some child)
    (hroot : child.parent = none) (parentId : Nat)
    (hfound : ((tree.modify childId (Node.below parentId)).modify parentId (Node.holding childId)).node? childId =
      some (child.below parentId)) :
    tree.adopt parentId childId none =
      ((tree.modify childId (Node.below parentId)).modify parentId (Node.holding childId)).grow parentId child.offset
        child.stop := by
  have hdetach : tree.detach childId = tree := by rw [detach, parent?, hchild, Option.bind_some, hroot]
  have hplace : ((tree.modify childId fun node => { node with parent := some parentId }).modify parentId fun node =>
      { node with children := place childId none node.children }) =
        (tree.modify childId (Node.below parentId)).modify parentId (Node.holding childId) := rfl
  rw [adopt, hdetach, hplace, hfound]
  rfl

/-- A node is put below one that was made before it. -/
theorem Split.adopt_later (h : tree.Split source id front node (middle ++ other :: back)) (hnode : node.parent = none)
    (hother : other.parent = none) :
    (tree.adopt id (id + 1 + middle.length) none).Split source id front
      ((node.holding (id + 1 + middle.length)).grow other.offset other.stop) (middle ++ other.below id :: back) := by
  have hhung := (h.later.modify (Node.below id)).earlier.modify (Node.holding (id + 1 + middle.length))
  rw [adopt_of_roots h.later.node? hother id hhung.later.node?]
  exact hhung.grow hnode other.offset other.stop

/-- A node is put below one that was made after it. -/
theorem Split.adopt_earlier (h : tree.Split source id front node (middle ++ other :: back))
    (hnode : node.parent = none) (hother : other.parent = none) :
    (tree.adopt (id + 1 + middle.length) id none).Split source id front (node.below (id + 1 + middle.length))
      (middle ++ (other.holding id).grow node.offset node.stop :: back) := by
  have hhung := (h.modify (Node.below (id + 1 + middle.length))).later.modify (Node.holding id)
  rw [adopt_of_roots h.node? hnode (id + 1 + middle.length) hhung.earlier.node?]
  exact (hhung.grow hother node.offset node.stop).earlier

end Tree

namespace Phrase

theorem countAll_append (left right : List Phrase) : countAll (left ++ right) = countAll left + countAll right := by
  induction left with
  | nil => rw [List.nil_append, countAll, Nat.zero_add]
  | cons phrase more ih => rw [List.cons_append, countAll, ih, countAll, Nat.add_assoc]

theorem idsFrom_append (base : Nat) (left right : List Phrase) :
    idsFrom base (left ++ right) = idsFrom base left ++ idsFrom (base + countAll left) right := by
  rw [← TreeEntry.map_id_located none, TreeEntry.located_append, List.map_append, TreeEntry.map_id_located,
    TreeEntry.map_id_located]

theorem nodesOf_append (levels : Levels) (parent : Option Nat) (base : Nat) (left right : List Phrase) :
    nodesOf levels parent base (left ++ right) =
      nodesOf levels parent base left ++ nodesOf levels parent (base + countAll left) right := by
  induction left generalizing base with
  | nil => rfl
  | cons phrase more ih => rw [List.cons_append, nodesOf, ih, nodesOf, countAll, List.append_assoc, Nat.add_assoc]

end Phrase

namespace TreeEntry

variable (levels : Levels) (entry : TreeEntry)

/-- The nodes of the parts that were begun before the phrase. -/
def front : List Node := Phrase.nodesOf levels (some entry.id) entry.base entry.phrase.before

/-- The nodes of the parts that were begun after it. -/
def back : List Node := Phrase.nodesOf levels (some entry.id) (entry.id + 1) entry.phrase.after

theorem nodes_eq :
    entry.phrase.nodes levels entry.parent entry.base = entry.front levels ++ entry.node levels :: entry.back levels := by
  obtain ⟨base, parent, kind, start, stop, issues, before, after⟩ := entry
  rw [Phrase.nodes, node, parts, List.map_append, map_id_located, map_id_located]
  rfl

theorem length_front : (entry.front levels).length = Phrase.countAll entry.phrase.before :=
  Phrase.length_nodesOf levels _ _ _

theorem length_back : (entry.back levels).length = Phrase.countAll entry.phrase.after :=
  Phrase.length_nodesOf levels _ _ _

variable {levels entry}

theorem bears_node (hordered : entry.phrase.start ≤ entry.phrase.stop) {size offset length : Nat}
    (h : entry.phrase.Bears size offset length) (rule : Rule) (level : Level) :
    (entry.node levels).Bears size (.ofRule rule level entry.id offset length) := by
  refine h.imp_right fun hcovers => ?_
  rw [Node.covers, Bool.and_eq_true, decide_eq_true_eq, decide_eq_true_eq, node_stop hordered]
  exact hcovers

/-- The node of a phrase grows with the phrase. -/
theorem node_grow (hordered : entry.phrase.start ≤ entry.phrase.stop) (start stop : Nat) :
    (entry.node levels).grow start stop = TreeEntry.node levels { entry with phrase := entry.phrase.grow start stop } := by
  rw [Node.grow, node_stop hordered]
  rfl

/-- A marker on the node of a phrase is an issue of the phrase. -/
theorem node_flag (hordered : entry.phrase.start ≤ entry.phrase.stop) {rule : Rule} (hrule : levels.of rule ≠ .ignore)
    (offset length : Nat) :
    ((entry.node levels).grow offset (offset + length)).marked (.ofRule rule (levels.of rule) entry.id offset length) =
      TreeEntry.node levels { entry with phrase := entry.phrase.flag rule offset length } := by
  have hmarker : Issue.marker? levels entry.id ⟨rule, offset, length⟩ =
      some (.ofRule rule (levels.of rule) entry.id offset length) := if_neg hrule
  have hissues : List.filterMap (Issue.marker? levels entry.id) (entry.phrase.issues ++ [⟨rule, offset, length⟩]) =
      entry.phrase.issues.filterMap (Issue.marker? levels entry.id) ++
        [.ofRule rule (levels.of rule) entry.id offset length] := by
    rw [List.filterMap_append, List.filterMap_cons_some hmarker]
    rfl
  rw [node_grow hordered, Node.marked, TreeEntry.node, TreeEntry.node]
  exact congrArg (Node.mk _ _ _ _ _ · _) hissues.symm

/-- Where a rule is not reported, an issue over the whole phrase does not show. -/
theorem node_flagWhole (hordered : entry.phrase.start ≤ entry.phrase.stop) {rule : Rule}
    (hrule : levels.of rule = .ignore) :
    TreeEntry.node levels { entry with phrase := entry.phrase.flagWhole rule } = entry.node levels := by
  have hmarker : Issue.marker? levels entry.id ⟨rule, entry.phrase.start, entry.phrase.length⟩ = none := if_pos hrule
  have hissues : List.filterMap (Issue.marker? levels entry.id)
      (entry.phrase.issues ++ [⟨rule, entry.phrase.start, entry.phrase.length⟩]) =
        entry.phrase.issues.filterMap (Issue.marker? levels entry.id) := by
    rw [List.filterMap_append, List.filterMap_cons_none hmarker, List.filterMap_nil, List.append_nil]
  have hcovers : (entry.node levels).covers entry.phrase.start (entry.phrase.start + entry.phrase.length) = true := by
    simp [Node.covers, node, Node.stop, Phrase.length]
  rw [← Node.grow_of_covers hcovers, node_grow hordered]
  exact congrArg (Node.mk _ _ _ _ _ · _) hissues

/-- The node of a phrase holds one child more when the phrase has one part more. -/
theorem node_holding (entry : TreeEntry) (part : Phrase) :
    (entry.node levels).holding (part.idFrom (entry.id + 1 + Phrase.countAll entry.phrase.after)) =
      TreeEntry.node levels { entry with phrase := { entry.phrase with after := entry.phrase.after ++ [part] } } := by
  have hchildren : (entry.parts.map id) ++ [part.idFrom (entry.id + 1 + Phrase.countAll entry.phrase.after)] =
      (parts { entry with phrase := { entry.phrase with after := entry.phrase.after ++ [part] } }).map id := by
    rw [parts, parts, located_append, List.map_append, List.map_append, List.map_append, List.append_assoc]
    rfl
  exact congrArg (Node.mk _ _ _ _ · _ _) hchildren

/-- The nodes behind a phrase with one part more. -/
theorem back_append (entry : TreeEntry) (part : Phrase) :
    back levels { entry with phrase := { entry.phrase with after := entry.phrase.after ++ [part] } } =
      entry.back levels ++
        part.nodes levels (some entry.id) (entry.id + 1 + Phrase.countAll entry.phrase.after) := by
  rw [back, Phrase.nodesOf_append, Phrase.nodesOf, Phrase.nodesOf, List.append_nil]
  rfl

end TreeEntry

namespace Tree

/-- The entry of a phrase that is begun next. -/
def entry (tree : Tree) (phrase : Phrase) : TreeEntry := ⟨tree.size, none, phrase⟩

/-- The tree goes on from an older one with the nodes of a phrase that is still open. -/
structure Stores (levels : Levels) (tree old : Tree) (phrase : Phrase) : Prop where
  split : tree.Split old.source (old.entry phrase).id (old.nodes.toList ++ (old.entry phrase).front levels)
    ((old.entry phrase).node levels) ((old.entry phrase).back levels)
  ordered : phrase.start ≤ phrase.stop

variable {levels : Levels} {old tree mid : Tree} {phrase part : Phrase}

theorem Stores.nodes (h : tree.Stores levels old phrase) :
    tree.nodes.toList = old.nodes.toList ++ phrase.nodes levels none old.size := by
  have hnodes : phrase.nodes levels none old.size = _ := (old.entry phrase).nodes_eq levels
  rw [h.split.nodes, hnodes, List.append_assoc]

theorem Stores.size (h : tree.Stores levels old phrase) : tree.size = old.size + phrase.count := by
  rw [Tree.size, ← Array.length_toList, h.nodes, List.length_append, Array.length_toList, Phrase.length_nodes]
  rfl

/-- The parts of the phrase that is open end where the next phrase begins. -/
theorem Stores.next (h : tree.Stores levels old phrase) :
    (old.entry phrase).id + 1 + Phrase.countAll (old.entry phrase).phrase.after = tree.size := by
  rw [h.size, Phrase.count_eq]
  show old.size + Phrase.countAll phrase.before + 1 + Phrase.countAll phrase.after = _
  omega

/-- A tree of nothing but a phrase is the tree of the phrase. -/
theorem Stores.eq_toTree {source : Text} (h : tree.Stores levels (.ofSource source) phrase) :
    tree = phrase.toTree levels source := by
  have hnodes := h.nodes
  obtain ⟨made, nodes⟩ := tree
  obtain rfl : made = source := h.split.source
  exact congrArg (Tree.mk made) (Array.toList_inj.mp hnodes)

/-- The node of a phrase stays the same one when parts are added. -/
theorem id_entry_addAll (old : Tree) (phrase : Phrase) (parts : List Phrase) :
    (old.entry (phrase.addAll parts)).id = (old.entry phrase).id := by
  induction parts generalizing phrase with
  | nil => rfl
  | cons part more ih =>
      rw [Phrase.addAll_cons, ih]
      rfl

theorem stores_create (levels : Levels) (old : Tree) (kind : Kind) (offset : Nat) :
    (old.create kind offset).2.Stores levels old (.empty kind offset) := by
  have hnode : (old.entry (.empty kind offset)).node levels = { kind, offset } := by
    simp [TreeEntry.node, entry, Phrase.empty, TreeEntry.parts, TreeEntry.located]
  refine ⟨⟨rfl, ?_, ?_⟩, Nat.le_refl _⟩
  · rw [hnode]
    show (old.nodes.push _).toList = _
    rw [Array.toList_push]
    simp [entry, TreeEntry.front, TreeEntry.back, Phrase.empty, Phrase.nodesOf]
  · rw [List.length_append, TreeEntry.length_front]
    rfl

theorem Stores.grow (h : tree.Stores levels old phrase) (start stop : Nat) :
    (tree.grow (old.entry phrase).id start stop).Stores levels old (phrase.grow start stop) := by
  have hgrown := h.split.grow rfl start stop
  rw [TreeEntry.node_grow h.ordered] at hgrown
  exact ⟨hgrown, Nat.le_trans (Nat.min_le_left _ _) (Nat.le_trans h.ordered (Nat.le_max_left _ _))⟩

theorem Stores.reach (h : tree.Stores levels old phrase) (stop : Nat) :
    (tree.reach (old.entry phrase).id stop).Stores levels old (phrase.reach stop) := by
  rw [Tree.reach, h.split.node?]
  exact h.grow phrase.start stop

theorem Stores.setKind (h : tree.Stores levels old phrase) (kind : Kind) :
    (tree.modify (old.entry phrase).id fun node => { node with kind }).Stores levels old { phrase with kind } :=
  ⟨h.split.modify fun node => { node with kind }, h.ordered⟩

/-- A rule that is reported is marked on the node. -/
theorem Stores.mark (h : tree.Stores levels old phrase) {rule : Rule} (hrule : levels.of rule ≠ .ignore)
    {offset length : Nat} (hbears : phrase.Bears (Text.bytes old.source) offset length) :
    (tree.mark (old.entry phrase).id (.ofRule rule (levels.of rule) (old.entry phrase).id offset length)).Stores
      levels old (phrase.flag rule offset length) := by
  have hmarked := h.split.mark rfl (TreeEntry.bears_node h.ordered hbears rule (levels.of rule))
  have hnode := @TreeEntry.node_flag levels (old.entry phrase) h.ordered rule hrule offset length
  refine ⟨?_, Nat.le_trans (Nat.min_le_left _ _) (Nat.le_trans h.ordered (Nat.le_max_left _ _))⟩
  exact hnode ▸ hmarked

/-- A rule that is not reported, and would mark the whole phrase, changes nothing. -/
theorem Stores.silent (h : tree.Stores levels old phrase) {rule : Rule} (hrule : levels.of rule = .ignore) :
    tree.Stores levels old (phrase.flagWhole rule) := by
  have hnode := @TreeEntry.node_flagWhole levels (old.entry phrase) h.ordered rule hrule
  refine ⟨?_, Nat.le_trans (Nat.min_le_left _ _) (Nat.le_trans h.ordered (Nat.le_max_left _ _))⟩
  exact hnode ▸ h.split

/-- A phrase is put into the open phrase that was begun before it. -/
theorem Stores.add (h : mid.Stores levels old phrase) (hpart : tree.Stores levels mid part) :
    (tree.adopt (old.entry phrase).id (mid.entry part).id none).Stores levels old (phrase.add part) := by
  have hid : (old.entry phrase).id + 1 +
      ((old.entry phrase).back levels ++ (mid.entry part).front levels).length = (mid.entry part).id := by
    rw [List.length_append, TreeEntry.length_back, TreeEntry.length_front, ← Nat.add_assoc, h.next]
    rfl
  have hnode : (((old.entry phrase).node levels).holding (mid.entry part).id).grow part.start part.stop =
      (old.entry (phrase.add part)).node levels := by
    have hholding := @TreeEntry.node_holding levels (old.entry phrase) part
    rw [h.next] at hholding
    exact (congrArg (Node.grow · part.start part.stop) hholding).trans (TreeEntry.node_grow h.ordered _ _)
  have hback : (old.entry (phrase.add part)).back levels = (old.entry phrase).back levels ++
      (mid.entry part).front levels ++ ((mid.entry part).node levels).below (old.entry phrase).id ::
        (mid.entry part).back levels := by
    have happend := @TreeEntry.back_append levels (old.entry phrase) part
    rw [h.next] at happend
    rw [List.append_assoc]
    exact happend.trans (congrArg _ (TreeEntry.nodes_eq levels ⟨mid.size, some (old.entry phrase).id, part⟩))
  have hadopted := (h.split.extend hpart.split).adopt_later rfl rfl
  rw [hid, TreeEntry.node_stop hpart.ordered, ← hback] at hadopted
  exact ⟨hnode ▸ hadopted, Nat.le_trans (Nat.min_le_left _ _) (Nat.le_trans h.ordered (Nat.le_max_left _ _))⟩

/-! ### Parts that were begun before their phrase -/

/-- A node that is grown over the nodes of some phrases and holds them. -/
def gather (base : Nat) (node : Node) (parts : List Phrase) : Node :=
  let start := parts.foldl (fun start part => min start part.start) node.offset
  { node with
    offset := start
    length := parts.foldl (fun stop part => max stop part.stop) node.stop - start
    children := node.children ++ Phrase.idsFrom base parts }

theorem gather_cons (base : Nat) (node : Node) (part : Phrase) (more : List Phrase) :
    gather base node (part :: more) =
      gather (base + part.count) ((node.holding (part.idFrom base)).grow part.start part.stop) more := by
  have hstop : ((node.holding (part.idFrom base)).grow part.start part.stop).stop = max node.stop part.stop := by
    have hoffset : min node.offset part.start ≤ node.stop := Nat.le_trans (Nat.min_le_left _ _) (Nat.le_add_right _ _)
    exact Nat.add_sub_cancel' (Nat.le_trans hoffset (Nat.le_max_left _ _))
  rw [gather, gather, hstop, Phrase.idsFrom]
  simp only [List.foldl_cons, Node.grow, Node.holding, List.append_assoc, List.singleton_append]

theorem gather_nil (base : Nat) (node : Node) : gather base node [] = node := by
  simp [gather, Phrase.idsFrom, Node.stop]

/-- The nodes of phrases that follow each other are put below the node that was made behind them. -/
theorem Split.adoptAll {source : Text} {parts : List Phrase} {front : List Node} {node : Node} {id : Nat}
    (hordered : ∀ part ∈ parts, part.start ≤ part.stop) (hnode : node.parent = none)
    (h : tree.Split source id (front ++ Phrase.nodesOf levels none front.length parts) node []) :
    ((Phrase.idsFrom front.length parts).foldl (fun tree child => tree.adopt id child none) tree).Split source id
      (front ++ Phrase.nodesOf levels (some id) front.length parts) (gather front.length node parts) [] := by
  induction parts generalizing tree front node with
  | nil =>
      rw [gather_nil]
      exact h
  | cons part more ih =>
      obtain ⟨hsource, hnodes, hid⟩ := h
      let entry : TreeEntry := ⟨front.length, none, part⟩
      let rest := Phrase.nodesOf levels none (front.length + part.count) more
      have hpart : part.nodes levels none front.length = entry.front levels ++ entry.node levels :: entry.back levels :=
        entry.nodes_eq levels
      have hbehind : entry.id + 1 + (entry.back levels ++ rest).length = id := by
        rw [← hid, Phrase.nodesOf, hpart]
        simp only [List.length_append, List.length_cons, TreeEntry.length_front]
        change front.length + Phrase.countAll part.before + 1 + (_ + rest.length) =
          front.length + (Phrase.countAll part.before + (_ + 1) + rest.length)
        omega
      have hsplit : tree.Split source entry.id (front ++ entry.front levels) (entry.node levels)
          ((entry.back levels ++ rest) ++ node :: []) := by
        refine ⟨hsource, ?_, ?_⟩
        · rw [hnodes, Phrase.nodesOf, hpart]
          simp only [List.append_assoc, List.cons_append]
          rfl
        · rw [List.length_append, TreeEntry.length_front]
          rfl
      have hadopted := hsplit.adopt_earlier rfl hnode
      rw [hbehind, TreeEntry.node_stop (hordered part List.mem_cons_self)] at hadopted
      have hhung : part.nodes levels (some id) front.length =
          entry.front levels ++ (entry.node levels).below id :: entry.back levels :=
        TreeEntry.nodes_eq levels ⟨front.length, some id, part⟩
      have hlength : (front ++ part.nodes levels (some id) front.length).length = front.length + part.count := by
        rw [List.length_append, Phrase.length_nodes]
      have hnext : (tree.adopt id entry.id none).Split source id
          ((front ++ part.nodes levels (some id) front.length) ++
            Phrase.nodesOf levels none (front ++ part.nodes levels (some id) front.length).length more)
          ((node.holding entry.id).grow part.start part.stop) [] := by
        rw [hlength]
        refine ⟨hadopted.source, ?_, ?_⟩
        · rw [hadopted.nodes, hhung]
          simp only [List.append_assoc, List.cons_append]
          rfl
        · rw [List.length_append, hlength, Phrase.length_nodesOf, ← hid, Phrase.nodesOf, List.length_append,
            List.length_append, Phrase.length_nodes, Phrase.length_nodesOf, Nat.add_assoc]
      have hroot : ((node.holding entry.id).grow part.start part.stop).parent = none := hnode
      have hrest := ih (fun other hother => hordered other (List.mem_cons_of_mem _ hother)) hroot hnext
      rw [hlength] at hrest
      rw [Phrase.idsFrom, List.foldl_cons, gather_cons, Phrase.nodesOf, ← List.append_assoc]
      exact hrest

/-- The tree goes on from an older one with the nodes of phrases that follow each other. -/
structure Lists (levels : Levels) (tree old : Tree) (phrases : List Phrase) : Prop where
  source : tree.source = old.source
  nodes : tree.nodes.toList = old.nodes.toList ++ Phrase.nodesOf levels none old.size phrases
  ordered : ∀ phrase ∈ phrases, phrase.start ≤ phrase.stop

theorem lists_nil (levels : Levels) (tree : Tree) : tree.Lists levels tree [] :=
  ⟨rfl, (List.append_nil _).symm, nofun⟩

theorem Lists.size {phrases : List Phrase} (h : tree.Lists levels old phrases) :
    tree.size = old.size + Phrase.countAll phrases := by
  rw [Tree.size, ← Array.length_toList, h.nodes, List.length_append, Array.length_toList, Phrase.length_nodesOf]
  rfl

theorem Lists.snoc {phrases : List Phrase} (h : mid.Lists levels old phrases) (hlast : tree.Stores levels mid phrase) :
    tree.Lists levels old (phrases ++ [phrase]) := by
  refine ⟨hlast.split.source.trans h.source, ?_, ?_⟩
  · rw [hlast.nodes, h.nodes, Phrase.nodesOf_append, ← h.size, Phrase.nodesOf, Phrase.nodesOf, List.append_nil,
      List.append_assoc]
  · intro other hother
    rcases List.mem_append.mp hother with hother | hother
    · exact h.ordered other hother
    · rw [List.mem_singleton.mp hother]
      exact hlast.ordered

theorem foldl_min_le_foldl_max (parts : List Phrase) {start stop : Nat} (hle : start ≤ stop) :
    parts.foldl (fun start part => min start part.start) start ≤ parts.foldl (fun stop part => max stop part.stop) stop := by
  induction parts generalizing start stop with
  | nil => exact hle
  | cons part more ih =>
      rw [List.foldl_cons, List.foldl_cons]
      exact ih (Nat.le_trans (Nat.min_le_left _ _) (Nat.le_trans hle (Nat.le_max_left _ _)))

/-- A phrase is begun around phrases that were there before it. -/
theorem Lists.around {phrases : List Phrase} (h : mid.Lists levels old phrases) (kind : Kind) (offset : Nat) :
    ((Phrase.idsFrom old.size phrases).foldl (fun tree child => tree.adopt (mid.create kind offset).1 child none)
      (mid.create kind offset).2).Stores levels old (.around kind offset phrases) := by
  have hsplit : (mid.create kind offset).2.Split old.source mid.size
      (old.nodes.toList ++ Phrase.nodesOf levels none old.nodes.toList.length phrases) { kind, offset } [] := by
    refine ⟨h.source, ?_, ?_⟩
    · show (mid.nodes.push _).toList = _
      rw [Array.toList_push, h.nodes]
      rfl
    · rw [List.length_append, Phrase.length_nodesOf, h.size]
      rfl
  have hadopted := hsplit.adoptAll h.ordered rfl
  have hid : (old.entry (.around kind offset phrases)).id = mid.size := h.size.symm
  have hnode : (old.entry (.around kind offset phrases)).node levels =
      gather old.nodes.toList.length { kind, offset } phrases := by
    rw [TreeEntry.node, TreeEntry.parts, List.map_append, TreeEntry.map_id_located, TreeEntry.map_id_located]
    simp [gather, entry, Phrase.around, Node.stop, Phrase.idsFrom, Tree.size]
  refine ⟨?_, foldl_min_le_foldl_max phrases (Nat.le_refl offset)⟩
  have hfront : (old.entry (.around kind offset phrases)).front levels =
      Phrase.nodesOf levels (some mid.size) old.nodes.toList.length phrases := by
    rw [TreeEntry.front, hid]
    rfl
  rw [hid, hnode, hfront]
  exact hadopted

end Tree

end Gamebook
