import Gamebook.Proofs.Scene.Spans

/-!
Levels. The levels at which the rules are reported decide which markers a scene gets and how serious they
are, and nothing else: two readings of a scene at different levels have the same nodes at the same places,
and wherever both of them report a rule they report it of the same ranges.
-/

namespace Gamebook

/-- The rules whose level can be set. -/
def Rule.isSettable : Rule → Bool
  | .mixedIndentation | .deprecatedModulo => true
  | _ => false

theorem Levels.of_eq_error (levels : Levels) {rule : Rule} (h : rule.isSettable = false) :
    levels.of rule = .error := by
  cases rule <;> first | rfl | cases h

namespace Marker

def ofIssue (level : Level) (node : Nat) (issue : Issue) : Marker :=
  .ofRule issue.rule level node issue.offset issue.length

def atLevel (level : Level) (marker : Marker) : Marker := { marker with level }

end Marker

namespace Node

def markersOf (node : Node) (rule : Rule) : List Marker := node.issues.filter (·.rule == rule)

/-- The markers of the rules whose level cannot be set. -/
def fixedMarkers (node : Node) : List Marker := node.issues.filter (!·.rule.isSettable)

/-- The nodes are the same but for the levels at which their markers are reported, `levels` on the one
and `other` on the other. -/
structure Relevels (levels other : Levels) (node changed : Node) : Prop where
  kind : changed.kind = node.kind
  offset : changed.offset = node.offset
  length : changed.length = node.length
  parent : changed.parent = node.parent
  children : changed.children = node.children
  data : changed.data = node.data
  fixed : changed.fixedMarkers = node.fixedMarkers
  reported : ∀ rule, levels.of rule ≠ .ignore → other.of rule ≠ .ignore →
    changed.markersOf rule = (node.markersOf rule).map (Marker.atLevel (other.of rule))
  ignored : ∀ rule, levels.of rule = .ignore → node.markersOf rule = []
  ignoredChanged : ∀ rule, other.of rule = .ignore → changed.markersOf rule = []

end Node

/-- The trees are the same, node by node, but for the levels at which their markers are reported. -/
structure Tree.Relevels (levels other : Levels) (tree changed : Tree) : Prop where
  source : changed.source = tree.source
  size : changed.size = tree.size
  nodes : ∀ id node, tree.node? id = some node →
    ∃ changedNode, changed.node? id = some changedNode ∧ node.Relevels levels other changedNode

namespace Issue

variable {levels : Levels} (id : Nat)

/-- Where rules are reported, each of their issues has a marker. -/
theorem filter_markers_of_reported {shown : Rule → Bool}
    (hshown : ∀ rule, shown rule = true → levels.of rule ≠ .ignore) (issues : List Issue) :
    (issues.filterMap (·.marker? levels id)).filter (shown ·.rule) =
      (issues.filter (shown ·.rule)).map fun issue => .ofIssue (levels.of issue.rule) id issue := by
  rw [filter_markers, ← List.filterMap_eq_map]
  refine List.filterMap_congr fun issue hissue => ?_
  exact if_neg (hshown issue.rule (List.mem_filter.mp hissue).2)

/-- A rule that is not reported has no markers. -/
theorem filter_markers_of_ignore {rule : Rule} (hrule : levels.of rule = .ignore) (issues : List Issue) :
    (issues.filterMap (·.marker? levels id)).filter (·.rule == rule) = [] := by
  rw [filter_markers (· == rule), List.filterMap_eq_nil_iff]
  intro issue hissue
  rw [marker?, beq_iff_eq.mp (List.mem_filter.mp hissue).2, hrule]
  rfl

end Issue

namespace TreeEntry

variable {levels : Levels} (entry : TreeEntry)

theorem markersOf_node {rule : Rule} (hrule : levels.of rule ≠ .ignore) :
    (entry.node levels).markersOf rule =
      (entry.phrase.issues.filter (·.rule == rule)).map (.ofIssue (levels.of rule) entry.id) := by
  have hkeep : ∀ other, (other == rule) = true → levels.of other ≠ .ignore := by
    intro other hother
    rwa [beq_iff_eq.mp hother]
  refine (Issue.filter_markers_of_reported entry.id hkeep entry.phrase.issues).trans (List.map_congr_left ?_)
  intro issue hissue
  rw [beq_iff_eq.mp (List.mem_filter.mp hissue).2]

theorem fixedMarkers_node (levels : Levels) :
    (entry.node levels).fixedMarkers =
      (entry.phrase.issues.filter (!·.rule.isSettable)).map (.ofIssue .error entry.id) := by
  have hkeep : ∀ rule : Rule, (!rule.isSettable) = true → levels.of rule = .error :=
    fun rule hrule => levels.of_eq_error (by simpa using hrule)
  have hreported : ∀ rule : Rule, (!rule.isSettable) = true → levels.of rule ≠ .ignore := by
    intro rule hrule
    rw [hkeep rule hrule]
    decide
  refine (Issue.filter_markers_of_reported entry.id hreported entry.phrase.issues).trans (List.map_congr_left ?_)
  intro issue hissue
  rw [hkeep issue.rule (List.mem_filter.mp hissue).2]

theorem relevels_node (levels other : Levels) : (entry.node levels).Relevels levels other (entry.node other) where
  kind := rfl
  offset := rfl
  length := rfl
  parent := rfl
  children := rfl
  data := rfl
  fixed := by rw [fixedMarkers_node, fixedMarkers_node]
  reported rule hlevel hother := by
    rw [markersOf_node entry hother, markersOf_node entry hlevel, List.map_map]
    rfl
  ignored _ hrule := Issue.filter_markers_of_ignore entry.id hrule entry.phrase.issues
  ignoredChanged _ hrule := Issue.filter_markers_of_ignore entry.id hrule entry.phrase.issues

end TreeEntry

theorem Phrase.relevels_toTree (phrase : Phrase) (source : Text) (levels other : Levels) :
    (phrase.toTree levels source).Relevels levels other (phrase.toTree other source) where
  source := rfl
  size := by rw [size_toTree, size_toTree]
  nodes id node hnode := by
    obtain ⟨entry, hentry, rfl, rfl⟩ := exists_entry_of_node? hnode
    exact ⟨entry.node other, node?_toTree other source hentry, entry.relevels_node levels other⟩

/-- Levels never change how a scene is read. Here they only come in when phrases are made into nodes; that a parser
which looks them up with every marker that it adds makes the same tree is `Checked.parseScene_eq`. -/
theorem Scene.relevels_parse (source : Text) (name uri : Option String) (levels other : Levels) :
    (parse source name uri levels).Relevels levels other (parse source name uri other) :=
  (phrase source name uri).relevels_toTree source levels other

end Gamebook
