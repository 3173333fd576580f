import Gamebook.Proofs.Tree.Forest
import Gamebook.Proofs.Tree.Rose

/-!
Walks and tours as recursions. The stack of a walk holds the roots of what is still to be walked, in order;
the stack of a tour holds these and the nodes that are still to be left. So what a stack does is what the
recursion does to one after the other, in the same order and with the same states, and the budget suffices
as long as it is no smaller than the number of steps that are still to be made.
-/

namespace Gamebook

universe u v

namespace Rose

variable {σ : Type u} {α : Type v} {tree : Tree}

/-! ### The recursion -/

theorem prune_node (enter : σ → Nat → σ × Bool) (leave : σ → Nat → σ) (id : Nat) (below : List Rose) (state : σ) :
    (node id below).prune enter leave state = if (enter state id).2 then
      (node id (pruneAll enter leave below (enter state id).1).1,
        leave (pruneAll enter leave below (enter state id).1).2 id)
    else (node id [], leave (enter state id).1 id) := rfl

theorem pruneAll_cons (enter : σ → Nat → σ × Bool) (leave : σ → Nat → σ) (rose : Rose) (more : List Rose) (state : σ) :
    pruneAll enter leave (rose :: more) state =
      ((rose.prune enter leave state).1 :: (pruneAll enter leave more (rose.prune enter leave state).2).1,
        (pruneAll enter leave more (rose.prune enter leave state).2).2) := rfl

theorem pruneAll_state (enter : σ → Nat → σ × Bool) (leave : σ → Nat → σ) (roses : List Rose) (state : σ) :
    (pruneAll enter leave roses state).2 = roses.foldl (fun state rose => (rose.prune enter leave state).2) state := by
  induction roses generalizing state with
  | nil => rfl
  | cons rose more ih => rw [pruneAll_cons, List.foldl_cons, ih]

/-- A visitor that also notes something down about every node to which it comes. -/
def noting (note : Nat → List α) (enter : σ → Nat → σ × Bool) (state : σ × List α) (id : Nat) : (σ × List α) × Bool :=
  (((enter state.1 id).1, state.2 ++ note id), (enter state.1 id).2)

/-- A visitor that also notes something down about every node that it leaves. -/
def notingLeave (note : Nat → List α) (leave : σ → Nat → σ) (state : σ × List α) (id : Nat) : σ × List α :=
  (leave state.1 id, state.2 ++ note id)

mutual

/-- A tour that takes notes goes where it would go without them, and its notes are the trace of what it
visits. -/
theorem prune_noting (enter : σ → Nat → σ × Bool) (leave : σ → Nat → σ) (before after : Nat → List α) :
    (rose : Rose) → ∀ state notes, rose.prune (noting before enter) (notingLeave after leave) (state, notes) =
      ((rose.prune enter leave state).1, (rose.prune enter leave state).2,
        notes ++ (rose.prune enter leave state).1.trace before after)
  | node id below => by
      intro state notes
      rw [prune_node, prune_node]
      cases hdescend : (enter state id).2 with
      | true =>
          have hbelow := pruneAll_noting enter leave before after below (enter state id).1 (notes ++ before id)
          simp only [noting, hdescend, if_true, hbelow, notingLeave, trace, List.append_assoc]
      | false =>
          simp only [noting, hdescend, notingLeave, trace, traceOf, List.append_assoc, List.nil_append,
            Bool.false_eq_true, if_false]

theorem pruneAll_noting (enter : σ → Nat → σ × Bool) (leave : σ → Nat → σ) (before after : Nat → List α) :
    (roses : List Rose) → ∀ state notes,
      pruneAll (noting before enter) (notingLeave after leave) roses (state, notes) =
        ((pruneAll enter leave roses state).1, (pruneAll enter leave roses state).2,
          notes ++ traceOf before after (pruneAll enter leave roses state).1)
  | [] => by
      intro state notes
      simp only [pruneAll, traceOf, List.append_nil]
  | rose :: more => by
      intro state notes
      rw [pruneAll_cons, pruneAll_cons, prune_noting enter leave before after rose,
        pruneAll_noting enter leave before after more]
      simp only [traceOf, List.append_assoc]

end

mutual

/-- A tour that is never turned back goes through the whole. -/
theorem prune_all (note : σ → Nat → σ) : (rose : Rose) → ∀ state,
    rose.prune (fun state id => (note state id, true)) stay state = (rose, rose.ids.foldl note state)
  | node id below => by
      intro state
      rw [prune_node, if_pos rfl, pruneAll_all note below, ids_node, List.foldl_cons]
      rfl

theorem pruneAll_all (note : σ → Nat → σ) : (roses : List Rose) → ∀ state,
    pruneAll (fun state id => (note state id, true)) stay roses state =
      (roses, (roses.flatMap ids).foldl note state)
  | [] => fun _ => rfl
  | rose :: more => by
      intro state
      rw [pruneAll_cons, prune_all note rose, pruneAll_all note more, List.flatMap_cons, List.foldl_append]

end

/-! ### Stacks -/

theorem walkStack_roses (visit : σ → Nat → σ × Bool) (budget : Nat) (roses : List Rose)
    (hmirrors : MirrorAll tree roses) (hbudget : (roses.flatMap ids).length ≤ budget) (state : σ) :
    tree.walkStack visit budget (roses.map Rose.id) state =
      roses.foldl (fun state rose => (rose.prune visit stay state).2) state := by
  induction budget generalizing roses state with
  | zero =>
      cases roses with
      | nil => rfl
      | cons rose more =>
          obtain ⟨id, below⟩ := rose
          simp [ids_node] at hbudget
  | succ budget ih =>
      cases roses with
      | nil => rfl
      | cons rose more =>
          obtain ⟨id, below⟩ := rose
          rw [List.flatMap_cons, ids_node, List.length_append, List.length_cons] at hbudget
          rw [List.map_cons, Rose.id, Tree.walkStack, List.foldl_cons, prune_node, ← hmirrors.1.1]
          cases hdescend : (visit state id).2 with
          | true =>
              have hboth : MirrorAll tree (below ++ more) := mirrorAll_iff.mpr fun rose hrose =>
                (List.mem_append.mp hrose).elim (mirrorAll_iff.mp hmirrors.1.2 rose) (mirrorAll_iff.mp hmirrors.2 rose)
              have hrest := ih (below ++ more) hboth
                (by rw [List.flatMap_append, List.length_append]; omega) (visit state id).1
              rw [List.map_append, List.foldl_append, ← pruneAll_state visit stay below] at hrest
              simpa only [hdescend, if_true, stay] using hrest
          | false =>
              have hrest := ih more hmirrors.2 (by omega) (visit state id).1
              simpa only [hdescend, Bool.false_eq_true, if_false, stay] using hrest

/-- What is still to be done in a tour: go through what hangs below a node, or leave a node. -/
inductive Task where
  | visit (rose : Rose)
  | leave (id : Nat)

namespace Task

def step : Task → Tree.Step
  | visit rose => .enter rose.id
  | leave id => .leave id

def run (enter : σ → Nat → σ × Bool) (leave : σ → Nat → σ) (state : σ) : Task → σ
  | visit rose => (rose.prune enter leave state).2
  | .leave id => leave state id

/-- The steps of the task if it is turned back nowhere. -/
def steps : Task → List Tree.Step
  | visit rose => rose.steps
  | leave id => [.leave id]

def Mirrors (tree : Tree) : Task → Prop
  | visit rose => rose.Mirrors tree
  | leave _ => True

/-- What remains of a visit when the node is entered: to go through what hangs below it, unless the tour is
turned back, and to leave the node. -/
def entered (enter : σ → Nat → σ × Bool) (state : σ) : Rose → List Task
  | .node id below => (if (enter state id).2 then below.map visit else []) ++ [.leave id]

variable (enter : σ → Nat → σ × Bool) (leave : σ → Nat → σ) (state : σ)

theorem step_entered {rose : Rose} (h : rose.Mirrors tree) :
    (entered enter state rose).map step =
      (if (enter state rose.id).2 then (tree.children rose.id).map .enter else []) ++ [.leave rose.id] := by
  obtain ⟨id, below⟩ := rose
  rw [entered, List.map_append, Rose.id, ← h.1, List.map_map]
  split
  · rw [List.map_map]
    rfl
  · rfl

theorem mirrors_entered {rose : Rose} (h : rose.Mirrors tree) :
    ∀ task ∈ entered enter state rose, task.Mirrors tree := by
  obtain ⟨id, below⟩ := rose
  refine List.forall_mem_append.mpr ⟨fun task htask => ?_, List.forall_mem_singleton.mpr trivial⟩
  split at htask
  · obtain ⟨inner, hinner, rfl⟩ := List.mem_map.mp htask
    exact mirrorAll_iff.mp h.2 inner hinner
  · cases htask

/-- To enter a node is one of the steps. -/
theorem length_steps_entered (rose : Rose) : ((entered enter state rose).flatMap steps).length < rose.steps.length := by
  obtain ⟨id, below⟩ := rose
  have hbelow : (below.map visit).flatMap steps = below.flatMap Rose.steps := List.flatMap_map ..
  rw [entered, List.flatMap_append, List.flatMap_singleton, steps_node, List.length_cons, List.length_append,
    List.length_append]
  refine Nat.lt_succ_of_le (Nat.add_le_add_right ?_ 1)
  split
  · exact Nat.le_of_eq (congrArg List.length hbelow)
  · exact Nat.zero_le _

theorem foldl_entered (rose : Rose) :
    (entered enter state rose).foldl (run enter leave) (enter state rose.id).1 = (rose.prune enter leave state).2 := by
  obtain ⟨id, below⟩ := rose
  rw [entered, List.foldl_append, prune_node, Rose.id]
  split
  · rw [List.foldl_map, pruneAll_state]
    rfl
  · rfl

end Task

theorem tourStack_tasks (enter : σ → Nat → σ × Bool) (leave : σ → Nat → σ) (budget : Nat) (tasks : List Task)
    (hmirrors : ∀ task ∈ tasks, task.Mirrors tree) (hbudget : (tasks.flatMap Task.steps).length ≤ budget) (state : σ) :
    tree.tourStack enter leave budget (tasks.map Task.step) state = tasks.foldl (Task.run enter leave) state := by
  induction budget generalizing tasks state with
  | zero =>
      cases tasks with
      | nil => rfl
      | cons task more =>
          cases task with
          | visit rose =>
              obtain ⟨id, below⟩ := rose
              simp [Task.steps, steps_node] at hbudget
          | leave id => simp [Task.steps] at hbudget
  | succ budget ih =>
      cases tasks with
      | nil => rfl
      | cons task more =>
          obtain ⟨hfirst, hmore⟩ := List.forall_mem_cons.mp hmirrors
          rw [List.flatMap_cons, List.length_append] at hbudget
          cases task with
          | leave id =>
              rw [Task.steps, List.length_singleton] at hbudget
              exact ih more hmore (by omega) (leave state id)
          | visit rose =>
              have hroom := Task.length_steps_entered enter state rose
              rw [Task.steps] at hbudget
              have hrest := ih (Task.entered enter state rose ++ more)
                (List.forall_mem_append.mpr ⟨Task.mirrors_entered enter state hfirst, hmore⟩)
                (by rw [List.flatMap_append, List.length_append]; omega) (enter state rose.id).1
              rw [List.map_append, Task.step_entered enter state hfirst, List.append_assoc, List.foldl_append,
                Task.foldl_entered] at hrest
              exact hrest

end Rose

namespace Tree

/-! ### Steps -/

variable {tree : Tree} {start : Nat}

/-- Steps that leave every node to which they come, and leave it when all to which they come in between is
left. -/
inductive Bracketed : List Step → Prop where
  | nil : Bracketed []
  | pair {inner more : List Step} (id : Nat) (hinner : Bracketed inner) (hmore : Bracketed more) :
      Bracketed (.enter id :: (inner ++ .leave id :: more))

def Step.entered? : Step → Option Nat
  | enter id => some id
  | leave _ => none

def Step.left? : Step → Option Nat
  | enter _ => none
  | leave id => some id

theorem Bracketed.append {front back : List Step} (hfront : Bracketed front) (hback : Bracketed back) :
    Bracketed (front ++ back) := by
  induction hfront with
  | nil => exact hback
  | pair id hinner _ _ ih =>
      rw [List.cons_append, List.append_assoc, List.cons_append]
      exact .pair id hinner ih

mutual

theorem bracketed_steps : (rose : Rose) → Bracketed rose.steps
  | .node id below => by
      rw [Rose.steps_node]
      exact .pair id (bracketed_flatMap_steps below) .nil

theorem bracketed_flatMap_steps : (roses : List Rose) → Bracketed (roses.flatMap Rose.steps)
  | [] => .nil
  | rose :: more => by
      rw [List.flatMap_cons]
      exact (bracketed_steps rose).append (bracketed_flatMap_steps more)

end

mutual

theorem entered_steps : (rose : Rose) → rose.steps.filterMap Step.entered? = rose.ids
  | .node id below => by
      have hbelow := entered_flatMap_steps below
      simp only [Rose.steps_node, Rose.ids_node, List.filterMap_cons, List.filterMap_append, Step.entered?, hbelow,
        List.filterMap_nil, List.append_nil]

theorem entered_flatMap_steps : (roses : List Rose) →
    (roses.flatMap Rose.steps).filterMap Step.entered? = roses.flatMap Rose.ids
  | [] => rfl
  | rose :: more => by
      rw [List.flatMap_cons, List.flatMap_cons, List.filterMap_append, entered_steps rose, entered_flatMap_steps more]

end

/-- In steps that are bracketed every node is left as often as they come to it. -/
theorem Bracketed.left_perm {steps : List Step} (h : Bracketed steps) :
    (steps.filterMap Step.left?).Perm (steps.filterMap Step.entered?) := by
  induction h with
  | nil => exact .nil
  | pair id _ _ hinner hmore =>
      simp only [List.filterMap_cons, List.filterMap_append, Step.entered?, Step.left?]
      exact List.perm_middle.trans ((hinner.append hmore).cons id)

/-- Walks and tours from the root of a rose go through it as the recursion does: with the same states, to the
same nodes and in the same order. -/
structure Follows (tree : Tree) (rose : Rose) : Prop where
  walk : ∀ {σ : Type u} (visit : σ → Nat → σ × Bool) (state : σ),
    tree.walk visit rose.id state = (rose.prune visit Rose.stay state).2
  visited : ∀ {σ : Type u} (visit : σ → Nat → σ × Bool) (state : σ),
    tree.walk (Rose.noting (fun id => [id]) visit) rose.id (state, []) =
      ((rose.prune visit Rose.stay state).2, (rose.prune visit Rose.stay state).1.ids)
  tour : ∀ {σ : Type u} (enter : σ → Nat → σ × Bool) (leave : σ → Nat → σ) (state : σ),
    tree.tour enter leave rose.id state = (rose.prune enter leave state).2
  steps : ∀ {σ : Type u} (enter : σ → Nat → σ × Bool) (leave : σ → Nat → σ) (state : σ),
    tree.tour (Rose.noting (fun id => [Step.enter id]) enter) (Rose.notingLeave (fun id => [Step.leave id]) leave)
      rose.id (state, []) = ((rose.prune enter leave state).2, (rose.prune enter leave state).1.steps)
  /-- The steps come to the nodes in the order of a walk, each node is left once for every coming, and what is
  come to in between is left before. -/
  paired : ∀ {σ : Type u} (enter : σ → Nat → σ × Bool) (leave : σ → Nat → σ) (state : σ),
    Bracketed (rose.prune enter leave state).1.steps ∧
      (rose.prune enter leave state).1.steps.filterMap Step.entered? = (rose.prune enter leave state).1.ids ∧
      ((rose.prune enter leave state).1.steps.filterMap Step.left?).Perm (rose.prune enter leave state).1.ids
  issues : tree.issuesBelow rose.id = rose.ids.flatMap tree.issues

theorem walk_unfold {σ : Type u} (hmirrors : (tree.unfold tree.size start).Mirrors tree)
    (visit : σ → Nat → σ × Bool) (state : σ) :
    tree.walk visit start state = ((tree.unfold tree.size start).prune visit Rose.stay state).2 := by
  have hwalk := Rose.walkStack_roses visit (tree.visits tree.size start) [tree.unfold tree.size start]
    ⟨hmirrors, trivial⟩ (by rw [List.flatMap_singleton, visits_eq_length_ids]) state
  rw [List.map_singleton, id_unfold] at hwalk
  exact hwalk

theorem tour_unfold {σ : Type u} (hmirrors : (tree.unfold tree.size start).Mirrors tree)
    (enter : σ → Nat → σ × Bool) (leave : σ → Nat → σ) (state : σ) :
    tree.tour enter leave start state = ((tree.unfold tree.size start).prune enter leave state).2 := by
  have htour := Rose.tourStack_tasks enter leave (2 * tree.visits tree.size start)
    [.visit (tree.unfold tree.size start)] (List.forall_mem_singleton.mpr hmirrors)
    (by rw [List.flatMap_singleton, Rose.Task.steps, Rose.length_steps, visits_eq_length_ids]) state
  rw [List.map_singleton, Rose.Task.step, id_unfold] at htour
  exact htour

theorem follows_unfold (hmirrors : (tree.unfold tree.size start).Mirrors tree) :
    tree.Follows (tree.unfold tree.size start) where
  walk := by
    intro σ visit state
    rw [id_unfold]
    exact walk_unfold hmirrors visit state
  visited := by
    intro σ visit state
    have hstay : (Rose.stay : σ × List Nat → Nat → σ × List Nat) = Rose.notingLeave (fun _ => []) Rose.stay := by
      funext state id
      rw [Rose.notingLeave, List.append_nil]
      rfl
    rw [id_unfold, walk_unfold hmirrors, hstay, Rose.prune_noting]
    rfl
  tour := by
    intro σ enter leave state
    rw [id_unfold]
    exact tour_unfold hmirrors enter leave state
  steps := by
    intro σ enter leave state
    rw [id_unfold, tour_unfold hmirrors, Rose.prune_noting]
    rfl
  paired := by
    intro σ enter leave state
    have hsteps := bracketed_steps ((tree.unfold tree.size start).prune enter leave state).1
    have hentered := entered_steps ((tree.unfold tree.size start).prune enter leave state).1
    exact ⟨hsteps, hentered, hentered ▸ hsteps.left_perm⟩
  issues := by
    rw [id_unfold, issuesBelow, walk_unfold hmirrors,
      Rose.prune_all fun (found : List Marker) id => found ++ tree.issues id, ← List.flatMap_eq_foldl]

end Tree

end Gamebook
