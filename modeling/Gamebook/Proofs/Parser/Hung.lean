import Gamebook.Proofs.Parser.Operand
import Gamebook.Proofs.Tree.Forest

/-!
Phrases below others. The statement of a line hangs below the line already when the lines of its block are
put into it; what is done to its node grows the node of the line as well.
-/

namespace Gamebook

namespace Tree

/-- The nodes of the phrases that are inside a phrase. -/
theorem Has.entries {levels : Levels} {tree : Tree} {base : Nat} {phrase : Phrase} (h : tree.Has levels base phrase) :
    ∃ parent, ∀ entry ∈ phrase.entries parent base, tree.node? entry.id = some (entry.node levels) := by
  obtain ⟨parent, front, back, hbase, hnodes⟩ := h
  refine ⟨parent, fun entry hentry => ?_⟩
  obtain ⟨left, right, hsplit, hid⟩ := Phrase.nodes_split levels parent base phrase entry hentry
  have hlength : (front ++ left).length = entry.id := by rw [List.length_append, hbase, hid]
  rw [Tree.node?, ← Array.getElem?_toList, hnodes, hsplit, List.append_assoc, ← List.append_assoc front, ← hlength,
    List.getElem?_append_right (Nat.le_refl _), Nat.sub_self]
  rfl

/-- Whether a phrase holds something can be found out by walking over its nodes. -/
theorem Has.any {levels : Levels} {tree : Tree} {base : Nat} {phrase : Phrase} (h : tree.Has levels base phrase)
    (test : Kind → Bool) :
    (tree.preorder (phrase.idFrom base)).any (fun id => (tree.kind? id).any test) = phrase.any test := by
  obtain ⟨parent, hentries⟩ := h.entries
  have hchildren : ∀ entry ∈ phrase.entries parent base, tree.children entry.id = entry.parts.map TreeEntry.id := by
    intro entry hentry
    rw [children, hentries entry hentry]
    rfl
  have hkinds : (phrase.entries parent base).map (fun entry => tree.kind? entry.id) =
      (phrase.entries parent base).map fun entry => some entry.phrase.kind := by
    refine List.map_congr_left fun entry hentry => ?_
    rw [kind?, hentries entry hentry]
    rfl
  have hany := congrArg (List.any · (Option.any test)) hkinds
  rw [List.any_map, List.any_map] at hany
  rw [Phrase.preorder_entries h.size hchildren, ← Phrase.any_entries test parent base phrase, List.any_map]
  exact hany

variable {source : Text} {tree : Tree} {front back middle more : List Node} {node other child : Node} {id : Nat}

/-- A node grows with the one that it is below. -/
theorem Split.grow_inner (h : tree.Split source id front node (middle ++ other :: back)) (hnode : node.parent = none)
    (hother : other.parent = some id) (hcovers : node.covers other.offset other.stop = true) (offset stop : Nat) :
    (tree.grow (id + 1 + middle.length) offset stop).Split source id front (node.grow offset stop)
      (middle ++ other.grow offset stop :: back) := by
  have hsize : ∃ budget, tree.size = budget + 1 := by
    refine ⟨front.length + (middle ++ other :: back).length, ?_⟩
    rw [Tree.size, ← Array.length_toList, h.nodes, List.length_append, List.length_cons, Nat.add_assoc]
  obtain ⟨budget, hbudget⟩ := hsize
  rw [Tree.grow, growUp, h.later.node?]
  dsimp only
  split
  · rename_i hinner
    have houter : node.covers offset stop = true := by
      simp only [Node.covers, Bool.and_eq_true, decide_eq_true_eq] at hcovers hinner ⊢
      omega
    rw [Node.grow_of_covers hinner, Node.grow_of_covers houter]
    exact h
  · have hgrown := (h.later.modify (·.grow offset stop)).earlier
    rw [hother, hbudget]
    dsimp only
    rw [growUp, hgrown.node?]
    dsimp only
    split
    · rename_i houter
      rw [Node.grow_of_covers houter]
      exact hgrown
    · rw [hnode]
      exact hgrown.modify (·.grow offset stop)

theorem Split.mark_inner (h : tree.Split source id front node (middle ++ other :: back)) (hnode : node.parent = none)
    (hother : other.parent = some id) (hcovers : node.covers other.offset other.stop = true) {marker : Marker}
    (hbears : other.Bears (Text.bytes source) marker) :
    (tree.mark (id + 1 + middle.length) marker).Split source id front (node.grow marker.offset marker.stop)
      (middle ++ (other.grow marker.offset marker.stop).marked marker :: back) := by
  have houter : node.Bears (Text.bytes source) marker := by
    refine hbears.imp_right fun hinner => ?_
    simp only [Node.covers, Bool.and_eq_true, decide_eq_true_eq] at hcovers hinner ⊢
    omega
  rw [← hbears.grow, ← houter.grow, Tree.mark, h.source]
  exact ((h.grow_inner hnode hother hcovers marker.offset _).later.modify (Node.marked marker)).earlier

/-- A node is put below one that hangs below another one. -/
theorem Split.adopt_inner (h : tree.Split source id front node (middle ++ other :: (back ++ child :: more)))
    (hnode : node.parent = none) (hother : other.parent = some id)
    (hcovers : node.covers other.offset other.stop = true) (hchild : child.parent = none) :
    (tree.adopt (id + 1 + middle.length) (id + 1 + middle.length + 1 + back.length) none).Split source id front
      (node.grow child.offset child.stop)
      (middle ++ (other.holding (id + 1 + middle.length + 1 + back.length)).grow child.offset child.stop ::
        (back ++ child.below (id + 1 + middle.length) :: more)) := by
  have hhung := (h.later.later.modify (Node.below (id + 1 + middle.length))).earlier.modify
    (Node.holding (id + 1 + middle.length + 1 + back.length))
  rw [adopt_of_roots h.later.later.node? hchild (id + 1 + middle.length) hhung.later.node?]
  exact hhung.earlier.grow_inner hnode hother hcovers child.offset child.stop

/-- The tree goes on from an older one with the nodes of a phrase and of its last part, which is still open
as well. -/
structure Hangs (levels : Levels) (tree old : Tree) (whole part : Phrase) (id : Nat) : Prop where
  stores : tree.Stores levels old (whole.add part)
  id : id = part.idFrom (old.size + whole.count)
  ordered : part.start ≤ part.stop

variable {levels : Levels} {old mid : Tree} {whole part line : Phrase}

/-- The entry of the last part. -/
def inner (old : Tree) (whole part : Phrase) : TreeEntry :=
  ⟨old.size + whole.count, some (old.entry whole).id, part⟩

theorem back_add (levels : Levels) (old : Tree) (whole part : Phrase) :
    (old.entry (whole.add part)).back levels = ((old.entry whole).back levels ++ (old.inner whole part).front levels) ++
      (old.inner whole part).node levels :: (old.inner whole part).back levels := by
  have happend := @TreeEntry.back_append levels (old.entry whole) part
  have hbase : (old.entry whole).id + 1 + Phrase.countAll (old.entry whole).phrase.after = old.size + whole.count := by
    rw [Phrase.count_eq]
    show old.size + Phrase.countAll whole.before + 1 + Phrase.countAll whole.after = _
    omega
  rw [hbase] at happend
  have hnodes : part.nodes levels (some (old.entry whole).id) (old.size + whole.count) = _ :=
    TreeEntry.nodes_eq levels (old.inner whole part)
  rw [List.append_assoc, ← hnodes]
  exact happend

theorem Hangs.split (h : tree.Hangs levels old whole part id) :
    tree.Split old.source (old.entry whole).id (old.nodes.toList ++ (old.entry whole).front levels)
      ((old.entry (whole.add part)).node levels)
      (((old.entry whole).back levels ++ (old.inner whole part).front levels) ++
        (old.inner whole part).node levels :: (old.inner whole part).back levels) := by
  rw [← back_add]
  exact h.stores.split

theorem Hangs.id_eq (h : tree.Hangs levels old whole part id) :
    (old.entry whole).id + 1 + ((old.entry whole).back levels ++ (old.inner whole part).front levels).length = id := by
  rw [List.length_append, TreeEntry.length_back, TreeEntry.length_front, h.id, Phrase.idFrom, Phrase.count_eq]
  show old.size + Phrase.countAll whole.before + 1 + (Phrase.countAll whole.after + Phrase.countAll part.before) = _
  omega

theorem Hangs.node? (h : tree.Hangs levels old whole part id) :
    tree.node? id = some ((old.inner whole part).node levels) := by
  rw [← h.id_eq]
  exact h.split.later.node?

/-- The nodes of the last part and of all that is in it. -/
theorem Hangs.has (h : tree.Hangs levels old whole part id) : ∃ base, tree.Has levels base part ∧ id = part.idFrom base := by
  have hafter : (whole.add part).after = whole.after ++ part :: [] := rfl
  refine ⟨_, h.stores.has.after hafter, ?_⟩
  rw [h.id, Phrase.count_eq]
  show _ = part.idFrom (old.size + Phrase.countAll whole.before + 1 + Phrase.countAll whole.after)
  rw [Phrase.idFrom, Phrase.idFrom]
  omega

/-- The node of a phrase covers that of its last part. -/
theorem covers_inner (levels : Levels) (old : Tree) (whole : Phrase) (hordered : part.start ≤ part.stop) :
    ((old.entry (whole.add part)).node levels).covers ((old.inner whole part).node levels).offset
      ((old.inner whole part).node levels).stop = true := by
  have hwhole : min whole.start part.start ≤ max whole.stop part.stop :=
    Nat.le_trans (Nat.min_le_right _ _) (Nat.le_trans hordered (Nat.le_max_right _ _))
  have hstop : ((old.entry (whole.add part)).node levels).stop = max whole.stop part.stop :=
    TreeEntry.node_stop hwhole
  rw [TreeEntry.node_stop hordered, Node.covers, hstop, Bool.and_eq_true, decide_eq_true_eq, decide_eq_true_eq]
  exact ⟨Nat.min_le_right _ _, Nat.le_max_right _ _⟩

/-- When the last part is another one that was begun at the same place, the phrase has grown with it. -/
theorem node_replace {part' : Phrase} {start stop : Nat} (hordered : (whole.add part).start ≤ (whole.add part).stop)
    (hbefore : part'.before = part.before) (hstart : part'.start = min part.start start)
    (hstop : part'.stop = max part.stop stop) :
    ((old.entry (whole.add part)).node levels).grow start stop = (old.entry (whole.add part')).node levels := by
  have hchildren : ∀ part : Phrase, (old.entry (whole.add part)).parts.map TreeEntry.id =
      Phrase.idsFrom old.size whole.before ++ (Phrase.idsFrom ((old.entry whole).id + 1) whole.after ++
        [part.idFrom ((old.entry whole).id + 1 + Phrase.countAll whole.after)]) := by
    intro part
    rw [TreeEntry.parts, List.map_append, TreeEntry.map_id_located, TreeEntry.map_id_located]
    exact congrArg _ (Phrase.idsFrom_append _ _ _)
  have hsame : part'.idFrom ((old.entry whole).id + 1 + Phrase.countAll whole.after) =
      part.idFrom ((old.entry whole).id + 1 + Phrase.countAll whole.after) := by
    rw [Phrase.idFrom, hbefore, Phrase.idFrom]
  have hfrom : (whole.add part').start = min (whole.add part).start start := by
    show min whole.start part'.start = min (min whole.start part.start) start
    rw [hstart, Nat.min_assoc]
  have hto : (whole.add part').stop = max (whole.add part).stop stop := by
    show max whole.stop part'.stop = max (max whole.stop part.stop) stop
    rw [hstop, Nat.max_assoc]
  rw [TreeEntry.node_grow hordered, TreeEntry.node, TreeEntry.node]
  have hparts := (hchildren part).trans ((congrArg (fun id => _ ++ (_ ++ [id])) hsame).symm.trans (hchildren part').symm)
  show Node.mk _ (min (whole.add part).start start) (max (whole.add part).stop stop - min (whole.add part).start start)
    _ ((old.entry (whole.add part)).parts.map TreeEntry.id) _ _ = _
  rw [← hfrom, ← hto, hparts]
  rfl

/-- A change to the last part, by its node. -/
theorem Hangs.of_split (h : mid.Hangs levels old whole part id) (part' : Phrase) {start stop : Nat}
    (hbefore : part'.before = part.before) (hstart : part'.start = min part.start start)
    (hstop : part'.stop = max part.stop stop)
    (hsplit : tree.Split old.source (old.entry whole).id (old.nodes.toList ++ (old.entry whole).front levels)
      (((old.entry (whole.add part)).node levels).grow start stop)
      (((old.entry whole).back levels ++ (old.inner whole part).front levels) ++
        (old.inner whole part').node levels :: (old.inner whole part').back levels)) :
    tree.Hangs levels old whole part' id := by
  have hfront : (old.inner whole part').front levels = (old.inner whole part).front levels := by
    rw [TreeEntry.front, TreeEntry.front, TreeEntry.id, TreeEntry.id]
    show Phrase.nodesOf levels (some (part'.idFrom _)) _ part'.before =
      Phrase.nodesOf levels (some (part.idFrom _)) _ part.before
    rw [Phrase.idFrom, Phrase.idFrom, hbefore]
    rfl
  have hordered : part'.start ≤ part'.stop := by
    have hpart := h.ordered
    omega
  refine ⟨⟨?_, ?_⟩, ?_, hordered⟩
  · rw [node_replace h.stores.ordered hbefore hstart hstop, ← hfront, ← back_add] at hsplit
    exact hsplit
  · exact Nat.le_trans (Nat.min_le_right _ _) (Nat.le_trans hordered (Nat.le_max_right _ _))
  · rw [h.id, Phrase.idFrom, Phrase.idFrom, hbefore]

/-- A rule that is reported is marked on the last part. -/
theorem Hangs.mark (h : tree.Hangs levels old whole part id) {rule : Rule} (hrule : levels.of rule ≠ .ignore)
    {offset length : Nat} (hbears : part.Bears (Text.bytes old.source) offset length) :
    (tree.mark id (.ofRule rule (levels.of rule) id offset length)).Hangs levels old whole
      (part.flag rule offset length) id := by
  have hinner : (old.inner whole part).id = id := h.id.symm
  have hborne : ((old.inner whole part).node levels).Bears (Text.bytes old.source)
      (.ofRule rule (levels.of rule) (old.inner whole part).id offset length) :=
    TreeEntry.bears_node h.ordered hbears rule (levels.of rule)
  rw [hinner] at hborne
  have hmarked := h.split.mark_inner rfl rfl (covers_inner levels old whole h.ordered) hborne
  have hnode := @TreeEntry.node_flag levels (old.inner whole part) h.ordered rule hrule offset length
  rw [hinner] at hnode
  rw [h.id_eq] at hmarked
  refine h.of_split (part.flag rule offset length) rfl rfl rfl ?_
  exact hnode ▸ hmarked

/-- A rule that is not reported changes nothing. -/
theorem Hangs.silent (h : tree.Hangs levels old whole part id) {rule : Rule} (hrule : levels.of rule = .ignore) :
    tree.Hangs levels old whole (part.flagWhole rule) id := by
  have hnode := @TreeEntry.node_flagWhole levels (old.inner whole part) h.ordered rule hrule
  have hgrown : ((old.entry (whole.add part)).node levels).grow part.start (part.start + part.length) =
      (old.entry (whole.add part)).node levels := Node.grow_of_covers (covers_inner levels old whole h.ordered)
  have hsplit := h.split
  rw [← hgrown, ← hnode] at hsplit
  exact h.of_split (part.flagWhole rule) rfl rfl rfl hsplit

/-- A line is put into the last part. -/
theorem Hangs.adopt (h : mid.Hangs levels old whole part id) (hline : tree.Stores levels mid line) :
    (tree.adopt id (mid.entry line).id none).Hangs levels old whole (part.add line) id := by
  have hinner : (old.inner whole part).id = id := h.id.symm
  have hmid : id + 1 + Phrase.countAll part.after = mid.size := by
    have hcount : (whole.add part).count = whole.count + part.count := by
      rw [Phrase.count_eq, Phrase.count_eq]
      show Phrase.countAll whole.before + 1 + Phrase.countAll (whole.after ++ [part]) = _
      rw [Phrase.countAll_append, Phrase.countAll, Phrase.countAll]
      omega
    rw [h.stores.size, hcount, h.id, Phrase.idFrom, Phrase.count_eq part]
    omega
  have hid : id + 1 + ((old.inner whole part).back levels ++ (mid.entry line).front levels).length =
      (mid.entry line).id := by
    rw [List.length_append, TreeEntry.length_back, TreeEntry.length_front, ← Nat.add_assoc]
    show id + 1 + Phrase.countAll part.after + _ = _
    rw [hmid]
    rfl
  have hnode : (((old.inner whole part).node levels).holding (mid.entry line).id).grow line.start line.stop =
      (old.inner whole (part.add line)).node levels := by
    have hholding := @TreeEntry.node_holding levels (old.inner whole part) line
    rw [hinner] at hholding
    have hcount : id + 1 + Phrase.countAll (old.inner whole part).phrase.after = mid.size := hmid
    rw [hcount] at hholding
    exact (congrArg (Node.grow · line.start line.stop) hholding).trans (TreeEntry.node_grow h.ordered _ _)
  have hback : (old.inner whole (part.add line)).back levels = ((old.inner whole part).back levels ++
      (mid.entry line).front levels) ++ ((mid.entry line).node levels).below id :: (mid.entry line).back levels := by
    have happend := @TreeEntry.back_append levels (old.inner whole part) line
    rw [hinner] at happend
    have hcount : id + 1 + Phrase.countAll (old.inner whole part).phrase.after = mid.size := hmid
    rw [hcount] at happend
    rw [List.append_assoc]
    exact happend.trans (congrArg _ (TreeEntry.nodes_eq levels ⟨mid.size, some id, line⟩))
  have hgone : tree.Split old.source (old.entry whole).id (old.nodes.toList ++ (old.entry whole).front levels)
      ((old.entry (whole.add part)).node levels)
      (((old.entry whole).back levels ++ (old.inner whole part).front levels) ++ (old.inner whole part).node levels ::
        (((old.inner whole part).back levels ++ (mid.entry line).front levels) ++
          (mid.entry line).node levels :: (mid.entry line).back levels)) := by
    have hextended := h.split.extend hline.split
    simpa only [List.append_assoc, List.cons_append] using hextended
  have hadopted := hgone.adopt_inner rfl rfl (covers_inner levels old whole h.ordered) rfl
  rw [h.id_eq, hid, TreeEntry.node_stop hline.ordered, ← hback] at hadopted
  exact h.of_split (part.add line) rfl rfl rfl (hnode ▸ hadopted)

end Tree

end Gamebook
