import Gamebook.Tree.Walk
import Gamebook.Proofs.Tree.Acyclic

/-!
Trees unfolded. What hangs below a node, and below that, is one finite thing where no node stands below
itself; a node that hangs below several others then stands there several times. Over it a walk is a plain
recursion: it enters a node, goes through what is below it from left to right unless it is turned back, and
leaves the node.
-/

namespace Gamebook

universe u v

inductive Rose where
  | node (id : Nat) (below : List Rose)

namespace Rose

variable {σ : Type u} {α : Type v} {tree : Tree}

def id : Rose → Nat
  | node id _ => id

mutual

/-- Every node has its children in the tree below it, in their order. -/
def Mirrors (tree : Tree) : Rose → Prop
  | node id below => below.map Rose.id = tree.children id ∧ MirrorAll tree below

def MirrorAll (tree : Tree) : List Rose → Prop
  | [] => True
  | rose :: more => rose.Mirrors tree ∧ MirrorAll tree more

end

mutual

/-- What is noted at each node before and after all that is noted below it. -/
def trace (before after : Nat → List α) : Rose → List α
  | node id below => before id ++ traceOf before after below ++ after id

def traceOf (before after : Nat → List α) : List Rose → List α
  | [] => []
  | rose :: more => rose.trace before after ++ traceOf before after more

end

def ids (rose : Rose) : List Nat := rose.trace (fun id => [id]) fun _ => []

/-- The coming to every node and the leaving of it. -/
def steps (rose : Rose) : List Tree.Step := rose.trace (fun id => [.enter id]) fun id => [.leave id]

mutual

/-- The recursive tour: what it visits, and its state at the end. -/
def prune (enter : σ → Nat → σ × Bool) (leave : σ → Nat → σ) : Rose → σ → Rose × σ
  | node id below, state =>
    let (state, descend) := enter state id
    if descend then
      let (visited, state) := pruneAll enter leave below state
      (node id visited, leave state id)
    else (node id [], leave state id)

def pruneAll (enter : σ → Nat → σ × Bool) (leave : σ → Nat → σ) : List Rose → σ → List Rose × σ
  | [], state => ([], state)
  | rose :: more, state =>
    let (first, state) := prune enter leave rose state
    let (visited, state) := pruneAll enter leave more state
    (first :: visited, state)

end

def stay (state : σ) (_ : Nat) : σ := state

/-! ### The tree below a node -/

theorem mirrorAll_iff {roses : List Rose} : MirrorAll tree roses ↔ ∀ rose ∈ roses, rose.Mirrors tree := by
  induction roses with
  | nil => exact ⟨fun _ => nofun, fun _ => trivial⟩
  | cons rose more ih => rw [MirrorAll, ih, List.forall_mem_cons]

theorem traceOf_eq (before after : Nat → List α) (roses : List Rose) :
    traceOf before after roses = roses.flatMap (trace before after) := by
  induction roses with
  | nil => rfl
  | cons rose more ih => rw [traceOf, ih, List.flatMap_cons]

theorem ids_node (id : Nat) (below : List Rose) : (node id below).ids = id :: below.flatMap ids := by
  rw [ids, trace, traceOf_eq, List.append_nil]
  rfl

theorem steps_node (id : Nat) (below : List Rose) :
    (node id below).steps = .enter id :: (below.flatMap steps ++ [.leave id]) := by
  rw [steps, trace, traceOf_eq]
  rfl

mutual

theorem length_steps : (rose : Rose) → rose.steps.length = 2 * rose.ids.length
  | .node id below => by
      rw [steps_node, ids_node, List.length_cons, List.length_append, length_flatMap_steps below, List.length_singleton,
        List.length_cons]
      omega

theorem length_flatMap_steps : (roses : List Rose) →
    (roses.flatMap steps).length = 2 * (roses.flatMap ids).length
  | [] => rfl
  | rose :: more => by
      rw [List.flatMap_cons, List.flatMap_cons, List.length_append, List.length_append, length_steps rose,
        length_flatMap_steps more, Nat.mul_add]

end

end Rose

namespace Tree

variable {tree : Tree}

/-- What hangs below a node, down to a depth. -/
def unfold (tree : Tree) : Nat → Nat → Rose
  | 0, id => .node id []
  | depth + 1, id => .node id ((tree.children id).map (unfold tree depth))

@[simp] theorem id_unfold (tree : Tree) (depth id : Nat) : (tree.unfold depth id).id = id := by
  cases depth <;> rfl

theorem visits_eq_length_ids (tree : Tree) (depth id : Nat) :
    tree.visits depth id = (tree.unfold depth id).ids.length := by
  induction depth generalizing id with
  | zero => rfl
  | succ depth ih =>
      rw [visits, unfold, Rose.ids_node, List.length_cons]
      induction tree.children id with
      | nil => rfl
      | cons child more hmore =>
          rw [List.foldr_cons, hmore, ih, List.map_cons, List.flatMap_cons, List.length_append, Nat.add_assoc]

/-- Ranks that fall on the way down bound how deep the tree goes. -/
theorem mirrors_unfold {rank : Nat → Nat} (hrank : ∀ above id, tree.Descends above id → rank id < rank above)
    {depth id : Nat} (hdepth : rank id ≤ depth) : (tree.unfold depth id).Mirrors tree := by
  induction depth generalizing id with
  | zero =>
      have hnone : tree.children id = [] := by
        refine List.eq_nil_iff_forall_not_mem.mpr fun child hchild => ?_
        have hlower := hrank id child hchild
        omega
      exact ⟨hnone.symm, trivial⟩
  | succ depth ih =>
      refine ⟨?_, Rose.mirrorAll_iff.mpr fun rose hrose => ?_⟩
      · rw [List.map_map]
        exact (List.map_congr_left fun child _ => tree.id_unfold depth child).trans (List.map_id _)
      · obtain ⟨child, hchild, rfl⟩ := List.mem_map.mp hrose
        have hlower := hrank id child hchild
        exact ih (by omega)

theorem Acyclic.mirrors_unfold (h : tree.Acyclic) (id : Nat) : (tree.unfold tree.size id).Mirrors tree := by
  obtain ⟨rank, hle, hrank⟩ := exists_rank (fun _ _ => Descends.lt_size) h
  exact Tree.mirrors_unfold hrank (hle id)

end Tree

end Gamebook
