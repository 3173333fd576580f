import Gamebook.Proofs.Grammar.Types
import Gamebook.Proofs.Parser.Holds

/-!
Operands. What a node contributes to the type of an operation is what its phrase contributes: a group is
begun before what is in it, so that its first child is the expression between its parentheses.
-/

namespace Gamebook

namespace Phrase

/-- The phrase is no group, or a group that was begun before what is in it, as are the groups in it. -/
inductive Opened : Phrase → Prop
  | group {phrase : Phrase} (hbefore : phrase.before = []) (hinner : ∀ inner ∈ phrase.after.head?, Opened inner) :
      Opened phrase
  | other {phrase : Phrase} (hkind : ∀ type, phrase.kind ≠ .term type .group) : Opened phrase

variable {phrase : Phrase}

theorem Opened.shift (h : phrase.Opened) (distance : Nat) : (phrase.shift distance).Opened := by
  induction h with
  | @group phrase hbefore hinner ih =>
      obtain ⟨kind, start, stop, issues, before, after⟩ := phrase
      subst hbefore
      refine .group rfl fun inner hmem => ?_
      cases after with
      | nil => cases hmem
      | cons first more =>
          obtain rfl := Option.some.inj hmem
          exact ih first rfl
  | other hkind =>
      refine .other fun type => ?_
      rw [shift_kind]
      exact hkind type

/-- A group with its type is opened before what is in it. -/
theorem Typed.opened {target? : Option Phrase} (h : phrase.Typed target?) : phrase.Opened := by
  induction h with
  | operation hkind => exact .other fun type => hkind ▸ Operator.kind_ne_term _ _ _ _
  | assigned hkind => exact .other fun type => hkind ▸ Operator.kind_ne_term _ _ _ _
  | @group _ phrase inner? _ hbefore hafter _ _ ih =>
      refine .group hbefore fun inner hinner => ih inner ?_
      rwa [hafter, Option.head?_toList] at hinner
  | call hkind => exact .other fun type hgroup => by cases hkind.symm.trans hgroup
  | literal hkind => exact .other fun type hgroup => by cases hkind.symm.trans hgroup
  | reference hkind hform =>
      refine .other fun type hgroup => ?_
      obtain ⟨-, rfl⟩ := Kind.term.inj (hkind.symm.trans hgroup)
      cases hform
  | assignment hkind => exact .other fun type hgroup => by cases hkind.symm.trans hgroup
  | other hkind =>
      refine .other fun type hgroup => ?_
      rw [hgroup] at hkind
      cases hkind

end Phrase

theorem Reader.Types.opened {rule : Reading} (h : Types rule) (r : Reader) : ∀ phrase ∈ (rule r).1, phrase.Opened :=
  fun phrase hphrase => (h r phrase hphrase).opened

namespace Tree

/-- The nodes of a phrase are in the tree, the first of them with the given number. -/
def Has (levels : Levels) (tree : Tree) (base : Nat) (phrase : Phrase) : Prop :=
  ∃ parent front back, front.length = base ∧ tree.nodes.toList = front ++ (phrase.nodes levels parent base ++ back)

variable {levels : Levels} {tree old : Tree} {base : Nat} {phrase part : Phrase}

theorem Stores.has (h : tree.Stores levels old phrase) : tree.Has levels old.size phrase :=
  ⟨none, old.nodes.toList, [], rfl, by rw [h.nodes, List.append_nil]⟩

/-- The nodes stay where they are when others are made behind them. -/
theorem Has.later {mid : Tree} (h : mid.Has levels base part) (htree : tree.Stores levels mid phrase) :
    tree.Has levels base part := by
  obtain ⟨parent, front, back, hbase, hnodes⟩ := h
  refine ⟨parent, front, back ++ phrase.nodes levels none mid.size, hbase, ?_⟩
  rw [htree.nodes, hnodes, List.append_assoc, List.append_assoc]

theorem Has.size (h : tree.Has levels base phrase) : phrase.count ≤ tree.size := by
  obtain ⟨parent, front, back, -, hnodes⟩ := h
  rw [Tree.size, ← Array.length_toList, hnodes, List.length_append, List.length_append, Phrase.length_nodes]
  omega

/-- The nodes around that of the phrase, with those of its parts. -/
theorem Has.split (h : tree.Has levels base phrase) : ∃ parent front back, front.length = base ∧ tree.nodes.toList =
    front ++ (TreeEntry.front levels ⟨base, parent, phrase⟩ ++ TreeEntry.node levels ⟨base, parent, phrase⟩ ::
      (TreeEntry.back levels ⟨base, parent, phrase⟩ ++ back)) := by
  obtain ⟨parent, front, back, hbase, hnodes⟩ := h
  refine ⟨parent, front, back, hbase, ?_⟩
  have hentry : phrase.nodes levels parent base = _ := TreeEntry.nodes_eq levels ⟨base, parent, phrase⟩
  rw [hnodes, hentry, List.append_assoc, List.cons_append]

theorem Has.node? (h : tree.Has levels base phrase) :
    ∃ parent, tree.node? (phrase.idFrom base) = some (TreeEntry.node levels ⟨base, parent, phrase⟩) := by
  obtain ⟨parent, front, back, hbase, hnodes⟩ := h.split
  have hlength : (front ++ TreeEntry.front levels ⟨base, parent, phrase⟩).length = phrase.idFrom base := by
    rw [List.length_append, TreeEntry.length_front, hbase, Phrase.idFrom]
  refine ⟨parent, ?_⟩
  rw [Tree.node?, ← Array.getElem?_toList, hnodes, ← List.append_assoc, ← hlength,
    List.getElem?_append_right (Nat.le_refl _), Nat.sub_self]
  rfl

/-- A part that was begun after the phrase. -/
theorem Has.after (h : tree.Has levels base phrase) {front more : List Phrase} (hafter : phrase.after = front ++ part :: more) :
    tree.Has levels (phrase.idFrom base + 1 + Phrase.countAll front) part := by
  obtain ⟨parent, nodes, back, hbase, hnodes⟩ := h.split
  let entry : TreeEntry := ⟨base, parent, phrase⟩
  have hfront : (entry.front levels).length = Phrase.countAll phrase.before := entry.length_front levels
  refine ⟨some entry.id, nodes ++ entry.front levels ++ entry.node levels ::
    Phrase.nodesOf levels (some entry.id) (entry.id + 1) front, Phrase.nodesOf levels (some entry.id)
      (phrase.idFrom base + 1 + Phrase.countAll front + part.count) more ++ back, ?_, ?_⟩
  · simp only [List.length_append, List.length_cons, Phrase.length_nodesOf, hfront, hbase, Phrase.idFrom]
    omega
  · have hback : entry.back levels = Phrase.nodesOf levels (some entry.id) (entry.id + 1) front ++
        (part.nodes levels (some entry.id) (phrase.idFrom base + 1 + Phrase.countAll front) ++
          Phrase.nodesOf levels (some entry.id) (phrase.idFrom base + 1 + Phrase.countAll front + part.count) more) := by
      rw [TreeEntry.back, hafter, Phrase.nodesOf_append, Phrase.nodesOf]
      rfl
    rw [hnodes, hback]
    simp only [List.append_assoc, List.cons_append]
    rfl

/-- The first of the parts that were begun before the phrase. -/
theorem Has.before (h : tree.Has levels base phrase) {more : List Phrase} (hbefore : phrase.before = part :: more) :
    tree.Has levels base part := by
  obtain ⟨parent, nodes, back, hbase, hnodes⟩ := h.split
  have hfront : TreeEntry.front levels ⟨base, parent, phrase⟩ = part.nodes levels (some (phrase.idFrom base)) base ++
      Phrase.nodesOf levels (some (phrase.idFrom base)) (base + part.count) more := by
    rw [TreeEntry.front, hbefore, Phrase.nodesOf]
    rfl
  rw [hfront, List.append_assoc] at hnodes
  exact ⟨_, nodes, _, hbase, hnodes⟩

end Tree

namespace Parser

variable {levels : Levels} {tree : Tree} {base : Nat} {phrase : Phrase}

/-- A node that is no group is classified by its own kind. -/
theorem operandWithin_of_other (h : tree.Has levels base phrase) (hkind : ∀ type, phrase.kind ≠ .term type .group)
    (budget : Nat) : operandWithin tree (budget + 1) (phrase.idFrom base) = phrase.operand := by
  obtain ⟨parent, hnode⟩ := h.node?
  have hfound : tree.kind? (phrase.idFrom base) = some phrase.kind := by
    rw [Tree.kind?, hnode]
    rfl
  rw [operandWithin, hfound]
  obtain ⟨kind, start, stop, issues, before, after⟩ := phrase
  cases kind with
  | term type form =>
      cases form with
      | group => exact absurd rfl (hkind type)
      | _ => simp only [Phrase.operand]
  | _ => simp only [Phrase.operand]

theorem operandWithin_eq (hopened : phrase.Opened) (h : tree.Has levels base phrase) {budget : Nat}
    (hbudget : phrase.count ≤ budget) : operandWithin tree budget (phrase.idFrom base) = phrase.operand := by
  have hpos : ∀ {phrase : Phrase} {budget : Nat}, phrase.count ≤ budget → ∃ fewer, budget = fewer + 1 := by
    intro phrase budget hbudget
    have hcount := phrase.count_eq
    exact ⟨budget - 1, by omega⟩
  induction hopened generalizing base budget with
  | @group phrase hbefore hinner ih =>
      obtain ⟨budget, rfl⟩ := hpos hbudget
      by_cases hkind : ∃ type, phrase.kind = .term type .group
      · obtain ⟨type, hkind⟩ := hkind
        obtain ⟨parent, hnode⟩ := h.node?
        have hfound : tree.kind? (phrase.idFrom base) = some (.term type .group) := by
          rw [Tree.kind?, hnode, ← hkind]
          rfl
        have hchildren : tree.children (phrase.idFrom base) = Phrase.idsFrom (phrase.idFrom base + 1) phrase.after := by
          rw [Tree.children, hnode, Option.map_some, Option.getD_some, TreeEntry.node, TreeEntry.parts,
            List.map_append, TreeEntry.map_id_located, TreeEntry.map_id_located, hbefore]
          rfl
        have hafter := @Tree.Has.after levels tree base phrase
        have hcount := phrase.count_eq
        rw [operandWithin, hfound, hchildren]
        obtain ⟨kind, start, stop, issues, before, after⟩ := phrase
        obtain rfl : kind = .term type .group := hkind
        cases after with
        | nil => simp only [Phrase.idsFrom, List.head?_nil, Phrase.operand]
        | cons inner more =>
            have hinside := hafter h (List.nil_append (inner :: more)).symm
            change _ = _ + 1 + Phrase.countAll (inner :: more) at hcount
            rw [Phrase.countAll] at hcount
            simp only [Phrase.idsFrom, List.head?_cons, Phrase.operand]
            exact ih inner rfl hinside (by omega)
      · exact operandWithin_of_other h (fun type hgroup => hkind ⟨type, hgroup⟩) budget
  | @other phrase hkind =>
      obtain ⟨budget, rfl⟩ := hpos hbudget
      exact operandWithin_of_other h hkind budget

/-! ### Parts of a phrase that has grown -/

variable {site : Site} {old : Tree} {p q s : Parser} {r behind after : Reader} {whole part grown : Phrase} {id child : Nat}

/-- The nodes of a part are still in the tree when the phrase around it has grown. -/
theorem Agrees.has_part (h : Agrees site old id p whole r) (hpart : Agrees site p.tree child q part behind)
    (hgrown : Agrees site old id s grown after) (hbefore : grown.before = whole.before)
    (hafter : grown.after = whole.after ++ [part]) :
    s.tree.Has site.levels p.tree.size (part.shift site.line.start) ∧
      child = (part.shift site.line.start).idFrom p.tree.size := by
  have hid : (p.tree.entry (part.shift site.line.start)).id = child := hpart.holds.entry_id
  have hsplit : (grown.shift site.line.start).after =
      whole.after.map (Phrase.shift site.line.start) ++ part.shift site.line.start :: [] := by
    rw [Phrase.shift_after, hafter, List.map_append, List.map_singleton]
  have hsize : p.tree.size = old.size + (whole.shift site.line.start).count := h.holds.stores.size
  have hbase : (grown.shift site.line.start).idFrom old.size + 1 +
      Phrase.countAll (whole.after.map (Phrase.shift site.line.start)) = p.tree.size := by
    rw [Phrase.idFrom, Phrase.shift_before, hbefore, Phrase.countAll_map_shift, Phrase.countAll_map_shift,
      hsize, Phrase.count_shift, Phrase.count_eq]
    omega
  have hhas := hgrown.holds.stores.has.after hsplit
  rw [hbase] at hhas
  exact ⟨hhas, hid.symm⟩

theorem Agrees.operand?_eq (h : Agrees site old id p whole r) {outcome : Option Nat × Parser}
    {found : Option Phrase × Reader} (hpart : MayAgree site p r outcome found) (hopened : ∀ part ∈ found.1, part.Opened)
    (hgrown : Agrees site old id s grown after) (hbefore : grown.before = whole.before)
    (hafter : grown.after = whole.after ++ found.1.toList) : s.operand? outcome.1 = Phrase.operand? found.1 := by
  cases hpart with
  | none => rfl
  | made hpart =>
      obtain ⟨hhas, hchild⟩ := h.has_part hpart hgrown hbefore hafter
      rw [operand?, hchild, operandWithin_eq ((hopened _ rfl).shift _) hhas hhas.size, Phrase.operand_shift]
      rfl

/-- What a phrase contributes around which another one has grown. -/
theorem Agrees.operand?_before (h : Agrees site old child p part r) (hopened : part.Opened)
    (hgrown : Agrees site old id s grown after) (hbefore : grown.before = [part]) :
    s.operand? (some child) = part.operand := by
  have hid : (old.entry (part.shift site.line.start)).id = child := h.holds.entry_id
  have hfirst : (grown.shift site.line.start).before = [part.shift site.line.start] := by
    rw [Phrase.shift_before, hbefore, List.map_singleton]
  have hhas := hgrown.holds.stores.has.before hfirst
  rw [operand?, ← hid, ← Phrase.operand_shift site.line.start]
  exact operandWithin_eq (hopened.shift _) hhas hhas.size

theorem Agrees.bind_kind? (h : Agrees site old id p whole r) {outcome : Option Nat × Parser}
    {found : Option Phrase × Reader} (hpart : MayAgree site p r outcome found)
    (hgrown : Agrees site old id s grown after) (hbefore : grown.before = whole.before)
    (hafter : grown.after = whole.after ++ found.1.toList) (type? : Kind → Option ValueType) :
    outcome.1.bind (fun child => (s.tree.kind? child).bind type?) = found.1.bind (type? ·.kind) := by
  cases hpart with
  | none => rfl
  | @made child _ part _ hpart =>
      obtain ⟨hhas, hchild⟩ := h.has_part hpart hgrown hbefore hafter
      obtain ⟨parent, hnode⟩ := hhas.node?
      rw [Option.bind_some, Option.bind_some, hchild, Tree.kind?, hnode, ← Phrase.shift_kind site.line.start]
      rfl

end Parser

end Gamebook
