import Gamebook.Tree.Basic

/-!
Walks over a tree. A walk goes through a node before its children and through the children from
left to right; it keeps the nodes that are still to be visited on a stack, so that deep trees are
walked like shallow ones, and carries a state along. The visitor of a node decides whether the
walk goes below it. Where no node stands below itself, a walk comes to an end: no way down is longer
than the tree is large.
-/

namespace Gamebook.Tree

variable {σ : Type u}

/-- Visits the nodes on a stack and those below them, at most `budget` nodes. -/
def walkStack (tree : Tree) (visit : σ → Nat → σ × Bool) : Nat → List Nat → σ → σ
  | 0, _, state => state
  | _ + 1, [], state => state
  | budget + 1, id :: stack, state =>
    let (state, descend) := visit state id
    walkStack tree visit budget (if descend then tree.children id ++ stack else stack) state

/-- How many nodes a walk from a node visits if it goes no deeper than `depth`; a node counts as often
as the walk comes to it. -/
def visits (tree : Tree) : Nat → Nat → Nat
  | 0, _ => 1
  | depth + 1, id => (tree.children id).foldr (fun child count => visits tree depth child + count) 1

/-- Visits a node and the nodes below it, parents first. -/
def walk (tree : Tree) (visit : σ → Nat → σ × Bool) (start : Nat) (state : σ) : σ :=
  walkStack tree visit (tree.visits tree.size start) [start] state

/-- A step of a tour: come to a node, or leave it behind. -/
inductive Step where
  | enter (id : Nat)
  | leave (id : Nat)
  deriving DecidableEq, Repr

/-- Takes the steps on a stack and those they lead to, at most `budget` steps. -/
def tourStack (tree : Tree) (enter : σ → Nat → σ × Bool) (leave : σ → Nat → σ) :
    Nat → List Step → σ → σ
  | 0, _, state => state
  | _ + 1, [], state => state
  | budget + 1, .leave id :: stack, state =>
    tourStack tree enter leave budget stack (leave state id)
  | budget + 1, .enter id :: stack, state =>
    let (state, descend) := enter state id
    let below := if descend then (tree.children id).map Step.enter else []
    tourStack tree enter leave budget (below ++ .leave id :: stack) state

/-- Enters a node and the nodes below it, parents first, and leaves each of them when all below it
is done, whether or not the tour went there. -/
def tour (tree : Tree) (enter : σ → Nat → σ × Bool) (leave : σ → Nat → σ) (start : Nat)
    (state : σ) : σ :=
  tourStack tree enter leave (2 * tree.visits tree.size start) [.enter start] state

/-- A node and the nodes below it, parents first. -/
def preorder (tree : Tree) (start : Nat) : List Nat :=
  (tree.walk (fun found id => (id :: found, true)) start []).reverse

/-- The markers on a node and on the nodes below it. -/
def issuesBelow (tree : Tree) (start : Nat) : List Marker :=
  tree.walk (fun found id => (found ++ tree.issues id, true)) start []

/-- The problems of a node and of the nodes below it, by line and column. -/
def diagnostics (tree : Tree) (start : Nat) : List Diagnostic :=
  let index := tree.lineIndex
  (tree.issuesBelow start).map (·.diagnostic index)

end Gamebook.Tree
