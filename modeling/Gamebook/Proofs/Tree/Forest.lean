import Gamebook.Scene
import Gamebook.Proofs.Tree.Entry
import Mathlib.Logic.Relation

/-!
The tree of a scene is a tree. No node is left over and no number leads nowhere: every node but the
scene is a child of exactly one other node, where it stands once, and a walk from the scene comes to
each node once.
-/

namespace Gamebook

namespace Tree

variable {σ : Type u}

@[simp] theorem walkStack_nil (tree : Tree) (visit : σ → Nat → σ × Bool) (budget : Nat) (state : σ) :
    tree.walkStack visit budget [] state = state := by
  cases budget <;> rfl

/-- A walk that never turns back goes through the nodes in the order in which another one does. -/
theorem walkStack_eq_foldl (tree : Tree) (note : σ → Nat → σ) (budget : Nat) (stack found : List Nat) (state : σ) :
    tree.walkStack (fun state id => (note state id, true)) budget stack (found.reverse.foldl note state) =
      (tree.walkStack (fun found id => (id :: found, true)) budget stack found).reverse.foldl note state := by
  induction budget generalizing stack found with
  | zero => rfl
  | succ budget ih =>
      cases stack with
      | nil => rfl
      | cons id stack =>
          have hnext : note (found.reverse.foldl note state) id = (id :: found).reverse.foldl note state := by
            rw [List.reverse_cons, List.foldl_append]
            rfl
          simp only [walkStack, if_true]
          rw [hnext, ih]

theorem walk_eq_foldl (tree : Tree) (note : σ → Nat → σ) (start : Nat) (state : σ) :
    tree.walk (fun state id => (note state id, true)) start state = (tree.preorder start).foldl note state :=
  tree.walkStack_eq_foldl note (tree.visits tree.size start) [start] [] state

/-- What was found stays found. -/
theorem walkStack_found (tree : Tree) {visit : Bool → Nat → Bool × Bool} (hvisit : ∀ id, (visit true id).1 = true)
    (budget : Nat) (stack : List Nat) : tree.walkStack visit budget stack true = true := by
  induction budget generalizing stack with
  | zero => rfl
  | succ budget ih =>
      cases stack with
      | nil => rfl
      | cons id stack =>
          have hfound := hvisit id
          rw [walkStack]
          generalize visit true id = outcome at hfound ⊢
          obtain ⟨found, descend⟩ := outcome
          obtain rfl : found = true := hfound
          exact ih _

/-- A walk that goes no further once it has found something finds what a walk over all nodes finds. -/
theorem walk_eq_any (tree : Tree) (test : Nat → Bool) (start : Nat) :
    tree.walk (fun found id => (found || test id, !(found || test id))) start false = (tree.preorder start).any test := by
  have hall : ∀ budget stack,
      tree.walkStack (fun found id => (found || test id, !(found || test id))) budget stack false =
        tree.walkStack (fun found id => (found || test id, true)) budget stack false := by
    intro budget
    induction budget with
    | zero => exact fun _ => rfl
    | succ budget ih =>
        intro stack
        cases stack with
        | nil => rfl
        | cons id stack =>
            simp only [walkStack, Bool.false_or]
            cases test id with
            | true => rw [tree.walkStack_found fun _ => rfl, tree.walkStack_found fun _ => rfl]
            | false => exact ih _
  have hfold : ∀ (ids : List Nat) (found : Bool),
      ids.foldl (fun found id => found || test id) found = (found || ids.any test) := by
    intro ids
    induction ids with
    | nil => exact fun found => (Bool.or_false found).symm
    | cons id more ih => exact fun found => (ih _).trans (Bool.or_assoc _ _ _)
  rw [walk, hall, ← walk, walk_eq_foldl, hfold, Bool.false_or]

end Tree

namespace Phrase

variable {σ : Type u}

mutual

/-- A walk that never turns back visits a phrase and what is inside it, and goes on with the stack. -/
theorem walkStack_entries (tree : Tree) (note : σ → Nat → σ) (parent : Option Nat) (base : Nat) :
    (phrase : Phrase) →
    (∀ entry ∈ phrase.entries parent base, tree.children entry.id = entry.parts.map TreeEntry.id) →
    ∀ budget stack state,
      tree.walkStack (fun state id => (note state id, true)) (budget + phrase.count)
          (phrase.idFrom base :: stack) state =
        tree.walkStack (fun state id => (note state id, true)) budget stack
          (((phrase.entries parent base).map TreeEntry.id).foldl note state)
  | ⟨kind, start, stop, issues, before, after⟩ => by
      intro hchildren budget stack state
      rw [entries] at hchildren ⊢
      have hown : tree.children (base + countAll before) =
          idsFrom base before ++ idsFrom (base + countAll before + 1) after := by
        have h := hchildren _ List.mem_cons_self
        rwa [TreeEntry.parts, List.map_append, TreeEntry.map_id_located, TreeEntry.map_id_located] at h
      have hbudget : budget + count ⟨kind, start, stop, issues, before, after⟩ =
          budget + countAll after + countAll before + 1 := by
        rw [count]
        omega
      rw [hbudget, Tree.walkStack]
      show tree.walkStack _ _ (tree.children (base + countAll before) ++ stack) _ = _
      rw [hown, List.append_assoc, walkStack_entriesOf tree note _ base before fun entry hentry =>
          hchildren entry (List.mem_cons_of_mem _ (List.mem_append_left _ hentry)),
        walkStack_entriesOf tree note _ _ after fun entry hentry =>
          hchildren entry (List.mem_cons_of_mem _ (List.mem_append_right _ hentry)),
        List.map_cons, List.map_append, List.foldl_cons, List.foldl_append]
      rfl

theorem walkStack_entriesOf (tree : Tree) (note : σ → Nat → σ) (parent : Option Nat) (base : Nat) :
    (phrases : List Phrase) →
    (∀ entry ∈ entriesOf parent base phrases, tree.children entry.id = entry.parts.map TreeEntry.id) →
    ∀ budget stack state,
      tree.walkStack (fun state id => (note state id, true)) (budget + countAll phrases)
          (idsFrom base phrases ++ stack) state =
        tree.walkStack (fun state id => (note state id, true)) budget stack
          (((entriesOf parent base phrases).map TreeEntry.id).foldl note state)
  | [] => by
      intro _ budget stack state
      rw [countAll, idsFrom, entriesOf]
      rfl
  | phrase :: more => by
      intro hchildren budget stack state
      rw [entriesOf] at hchildren
      rw [countAll, idsFrom, entriesOf, Nat.add_comm (count phrase), ← Nat.add_assoc, List.cons_append,
        walkStack_entries tree note parent base phrase fun entry hentry =>
          hchildren entry (List.mem_append_left _ hentry),
        walkStack_entriesOf tree note parent (base + count phrase) more fun entry hentry =>
          hchildren entry (List.mem_append_right _ hentry),
        List.map_append, List.foldl_append]

end

mutual

/-- There is room for all of a phrase on the way down to a depth that its nodes cannot pass. -/
theorem count_le_visits (tree : Tree) (parent : Option Nat) (base : Nat) : (phrase : Phrase) →
    (∀ entry ∈ phrase.entries parent base, tree.children entry.id = entry.parts.map TreeEntry.id) →
    ∀ depth, phrase.count ≤ depth + 1 → phrase.count ≤ tree.visits depth (phrase.idFrom base)
  | ⟨kind, start, stop, issues, before, after⟩ => by
      intro hchildren depth hdepth
      cases depth with
      | zero => exact hdepth
      | succ depth =>
          rw [count] at hdepth ⊢
          rw [entries] at hchildren
          have hown : tree.children (base + countAll before) =
              idsFrom base before ++ idsFrom (base + countAll before + 1) after := by
            have h := hchildren _ List.mem_cons_self
            rwa [TreeEntry.parts, List.map_append, TreeEntry.map_id_located, TreeEntry.map_id_located] at h
          have hafter := countAll_le_visits tree _ _ after (fun entry hentry =>
            hchildren entry (List.mem_cons_of_mem _ (List.mem_append_right _ hentry))) depth (by omega) 1
          have hbefore := countAll_le_visits tree _ base before (fun entry hentry =>
            hchildren entry (List.mem_cons_of_mem _ (List.mem_append_left _ hentry))) depth (by omega)
          rw [idFrom, Tree.visits, hown, List.foldr_append]
          exact Nat.le_trans (by omega) (hbefore _)

theorem countAll_le_visits (tree : Tree) (parent : Option Nat) (base : Nat) : (phrases : List Phrase) →
    (∀ entry ∈ entriesOf parent base phrases, tree.children entry.id = entry.parts.map TreeEntry.id) →
    ∀ depth, countAll phrases ≤ depth + 1 → ∀ rest, countAll phrases + rest ≤
      (idsFrom base phrases).foldr (fun child count => tree.visits depth child + count) rest
  | [] => by
      intro _ depth _ rest
      rw [countAll, idsFrom, Nat.zero_add]
      exact Nat.le_refl rest
  | phrase :: more => by
      intro hchildren depth hdepth rest
      rw [entriesOf] at hchildren
      rw [countAll] at hdepth ⊢
      have hfirst := count_le_visits tree parent base phrase (fun entry hentry =>
        hchildren entry (List.mem_append_left _ hentry)) depth (by omega)
      have hmore := countAll_le_visits tree parent (base + count phrase) more (fun entry hentry =>
        hchildren entry (List.mem_append_right _ hentry)) depth (by omega) rest
      rw [idsFrom, List.foldr_cons]
      omega

end

theorem preorder_entries {tree : Tree} {parent : Option Nat} {base : Nat} {phrase : Phrase}
    (hcount : phrase.count ≤ tree.size)
    (hchildren : ∀ entry ∈ phrase.entries parent base, tree.children entry.id = entry.parts.map TreeEntry.id) :
    tree.preorder (phrase.idFrom base) = (phrase.entries parent base).map TreeEntry.id := by
  have hroom := count_le_visits tree parent base phrase hchildren tree.size (Nat.le_succ_of_le hcount)
  have hwalk := walkStack_entries tree (fun found id => id :: found) parent base phrase hchildren
    (tree.visits tree.size (phrase.idFrom base) - phrase.count) [] []
  rw [Nat.sub_add_cancel hroom] at hwalk
  rw [Tree.preorder, Tree.walk, hwalk, Tree.walkStack_nil, List.foldl_flip_cons_eq_append']
  simp

theorem preorder_toTree (levels : Levels) (source : Text) (phrase : Phrase) :
    (phrase.toTree levels source).preorder (phrase.idFrom 0) =
      (phrase.entries none 0).map TreeEntry.id :=
  preorder_entries (Nat.le_of_eq (size_toTree levels source phrase).symm) fun _ hentry => children_toTree levels source hentry

mutual

theorem any_entries (test : Kind → Bool) (parent : Option Nat) (base : Nat) : (phrase : Phrase) →
    (phrase.entries parent base).any (fun entry => test entry.phrase.kind) = phrase.any test
  | ⟨kind, start, stop, issues, before, after⟩ => by
      rw [entries, any, List.any_cons, List.any_append, any_entriesOf test _ _ before, any_entriesOf test _ _ after,
        Bool.or_assoc]

theorem any_entriesOf (test : Kind → Bool) (parent : Option Nat) (base : Nat) : (phrases : List Phrase) →
    (entriesOf parent base phrases).any (fun entry => test entry.phrase.kind) = anyOf test phrases
  | [] => by
      rw [entriesOf, anyOf]
      rfl
  | phrase :: more => by
      rw [entriesOf, anyOf, List.any_append, any_entries test _ _ phrase, any_entriesOf test _ _ more]

end

end Phrase

namespace Tree

/-- Every node but the root hangs at one place of one node, which is its parent; all of them hang below
the root, and a walk from there comes to each of them once. -/
structure Rooted (tree : Tree) : Prop where
  child_lt : ∀ id, ∀ child ∈ tree.children id, child < tree.size
  root_free : tree.parent? root = none ∧ ∀ id, root ∉ tree.children id
  parent : ∀ id < tree.size, id ≠ root → ∃ above < tree.size, tree.parent? id = some above ∧
    (tree.children above).count id = 1 ∧ ∀ other, id ∈ tree.children other → other = above
  reachable : ∀ id < tree.size, Relation.ReflTransGen (fun above child => child ∈ tree.children above) root id
  walk : (tree.preorder root).Nodup ∧ (tree.preorder root).Perm tree.ids

end Tree

namespace Phrase

variable {levels : Levels} {source : Text} {phrase : Phrase}

theorem exists_entry_of_mem_children {id child : Nat}
    (h : child ∈ (phrase.toTree levels source).children id) :
    ∃ above ∈ phrase.entries none 0, above.id = id ∧ ∃ part ∈ above.parts, part.id = child := by
  cases hnode : (phrase.toTree levels source).node? id with
  | none =>
      rw [Tree.children, hnode] at h
      cases h
  | some node =>
      obtain ⟨above, habove, rfl, _⟩ := exists_entry_of_node? hnode
      rw [children_toTree levels source habove] at h
      exact ⟨above, habove, rfl, List.mem_map.mp h⟩

theorem child_lt_size {id child : Nat} (h : child ∈ (phrase.toTree levels source).children id) :
    child < (phrase.toTree levels source).size := by
  obtain ⟨above, habove, rfl, part, hpart, rfl⟩ := exists_entry_of_mem_children h
  have hbounds := entries_id_bounds (parts_subset_entries none 0 phrase above habove hpart)
  rw [size_toTree]
  omega

/-- A part hangs at one place of the entry it is a part of, and nowhere else. -/
theorem hangs_once {above part : TreeEntry} (habove : above ∈ phrase.entries none 0)
    (hpart : part ∈ above.parts) :
    ((phrase.toTree levels source).children above.id).count part.id = 1 ∧
      ∀ other, part.id ∈ (phrase.toTree levels source).children other → other = above.id := by
  constructor
  · rw [children_toTree levels source habove]
    exact List.count_eq_one_of_mem (nodup_map_id_parts above) (List.mem_map_of_mem hpart)
  · intro other hother
    obtain ⟨holder, hholder, rfl, part', hpart', hid⟩ := exists_entry_of_mem_children hother
    have hsame := entry_eq_of_id_eq (parts_subset_entries none 0 phrase holder hholder hpart')
      (parts_subset_entries none 0 phrase above habove hpart) hid
    have hparent := TreeEntry.parent_of_mem_parts hpart'
    rw [hsame, TreeEntry.parent_of_mem_parts hpart, Option.some.injEq] at hparent
    exact hparent.symm

theorem reachable_of_mem_entries {entry : TreeEntry} (hentry : entry ∈ phrase.entries none 0) :
    Relation.ReflTransGen (fun above child => child ∈ (phrase.toTree levels source).children above)
      (phrase.idFrom 0) entry.id := by
  let motive (entry : TreeEntry) := Relation.ReflTransGen
    (fun above child => child ∈ (phrase.toTree levels source).children above) (phrase.idFrom 0) entry.id
  refine entries_induction_on (motive := motive) hentry .refl ?_
  intro above habove hreached part hpart
  refine hreached.tail ?_
  rw [children_toTree levels source habove]
  exact List.mem_map_of_mem hpart

/-- The tree of a phrase that is begun before its parts hangs together. -/
theorem rooted_toTree (hfirst : phrase.before = []) : (phrase.toTree levels source).Rooted := by
  have hroot : phrase.idFrom 0 = Tree.root := by
    rw [idFrom, hfirst]
    rfl
  have htop : (⟨0, none, phrase⟩ : TreeEntry) ∈ phrase.entries none 0 := mem_entries_self none 0 phrase
  have hparent := parent?_toTree levels source htop
  have hwalk := preorder_toTree levels source phrase
  have hperm := entries_ids_perm none 0 phrase
  rw [TreeEntry.id, hroot] at hparent
  rw [hroot] at hwalk
  refine ⟨fun id child => child_lt_size, ⟨hparent, ?_⟩, ?_, ?_, ?_, ?_⟩
  · intro id hmem
    obtain ⟨above, habove, rfl, part, hpart, hid⟩ := exists_entry_of_mem_children hmem
    have hsame := entry_eq_of_id_eq (parts_subset_entries none 0 phrase above habove hpart) htop
      (hid.trans hroot.symm)
    have hnone := TreeEntry.parent_of_mem_parts hpart
    rw [hsame] at hnone
    cases hnone
  · intro id hid hne
    rw [size_toTree] at hid ⊢
    obtain ⟨entry, hentry, rfl⟩ := exists_entry none (Nat.zero_le id) (by rwa [Nat.zero_add])
    rcases exists_parent hentry with rfl | ⟨above, habove, hpart⟩
    · exact absurd hroot hne
    · have hbounds := entries_id_bounds habove
      refine ⟨above.id, by omega, ?_, hangs_once habove hpart⟩
      rw [parent?_toTree levels source hentry, TreeEntry.parent_of_mem_parts hpart]
  · intro id hid
    rw [size_toTree] at hid
    obtain ⟨entry, hentry, rfl⟩ := exists_entry none (Nat.zero_le id) (by rwa [Nat.zero_add])
    rw [← hroot]
    exact reachable_of_mem_entries hentry
  · rw [hwalk]
    exact hperm.nodup_iff.mpr List.nodup_range'
  · rw [hwalk, Tree.ids, size_toTree, List.range_eq_range']
    exact hperm

end Phrase

/-- The tree of every scene hangs together: reading it leaves no node behind. -/
theorem Scene.rooted_parse (source : Text) (name uri : Option String) (levels : Levels) :
    (Scene.parse source name uri levels).Rooted :=
  Phrase.rooted_toTree rfl

end Gamebook
