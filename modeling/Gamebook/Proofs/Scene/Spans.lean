import Gamebook.Tree.Query
import Gamebook.Proofs.Line.Phrase
import Gamebook.Proofs.Tree.Entry

/-!
The ranges in the tree of a scene. The scene covers its whole source, every node covers its children and
its markers, and all nodes begin and end between characters of the source, so that each has a text.
-/

namespace Gamebook

open Text (IsCut)

namespace Line

variable {source : Text} {unit : Option IndentUnit}

theorem Arranged.block_below {context : Context} {line : Line} {more : List Line} {phrases : List Phrase}
    (harranged : Arranged source (line :: more))
    (hstarts : ∀ part ∈ phrases, ∃ lower ∈ (line.below context more).1, part.start = lower.start) :
    ∀ part ∈ phrases, line.stop ≤ part.start := by
  intro part hpart
  obtain ⟨lower, hlower, hstart⟩ := hstarts part hpart
  have hmore : lower ∈ more := by
    rw [← below_append context line more]
    exact List.mem_append_left _ hlower
  rw [hstart]
  exact (List.pairwise_cons.mp harranged.sorted).1 lower hmore

theorem phrases_starts (context : Context) {lines : List Line} (harranged : Arranged source lines) :
    ∀ part ∈ phrases unit context lines, ∃ line ∈ lines, part.start = line.start := by
  induction context, lines using below_induction with
  | nil context =>
      intro part hpart
      rw [phrases] at hpart
      cases hpart
  | cons context line more ihblock ihrest =>
      have hbelow := harranged.block_below (ihblock (harranged.sublist (block_sublist context line more)))
      intro part hpart
      rw [phrases_cons] at hpart
      rcases List.mem_cons.mp hpart with rfl | hpart
      · exact ⟨line, List.mem_cons_self, phrase_start (harranged.within line List.mem_cons_self) hbelow⟩
      · obtain ⟨lower, hlower, hstart⟩ :=
          ihrest (harranged.sublist (rest_sublist context line more)) part hpart
        exact ⟨lower, (rest_sublist context line more).subset hlower, hstart⟩

theorem phrases_built (context : Context) {lines : List Line} (harranged : Arranged source lines) :
    ∀ part ∈ phrases unit context lines, part.Built (fun _ => True) (IsCut source) := by
  induction context, lines using below_induction with
  | nil context =>
      intro part hpart
      rw [phrases] at hpart
      cases hpart
  | cons context line more ihblock ihrest =>
      have hblock := harranged.sublist (block_sublist context line more)
      intro part hpart
      rw [phrases_cons] at hpart
      rcases List.mem_cons.mp hpart with rfl | hpart
      · exact phrase_built (harranged.within line List.mem_cons_self) (ihblock hblock)
          (harranged.block_below (phrases_starts _ hblock))
      · exact ihrest (harranged.sublist (rest_sublist context line more)) part hpart

end Line

namespace Scene

variable (source : Text) (name uri : Option String)

theorem phrase_built : (phrase source name uri).Built (fun _ => True) (IsCut source) :=
  .reach (.addAll (.empty trivial (Text.isCut_zero source))
    (Line.phrases_built .scene (Line.arranged_lines source))) (Text.isCut_bytes source)

theorem phrase_range :
    (phrase source name uri).start = 0 ∧ (phrase source name uri).stop = Text.bytes source := by
  constructor
  · rw [phrase, Phrase.reach_start, Phrase.addAll_start]
    · rfl
    · intro part _
      exact Nat.zero_le _
  · have hle := (phrase_built source name uri).sound.here.stop.le_bytes
    refine Nat.le_antisymm hle ?_
    rw [phrase, Phrase.reach_stop]
    exact Nat.le_max_right _ _

end Scene

/-- The marker of an issue, where there is one. -/
theorem Issue.eq_of_marker? {levels : Levels} {id : Nat} {issue : Issue} {marker : Marker}
    (h : issue.marker? levels id = some marker) :
    marker = .ofRule issue.rule (levels.of issue.rule) id issue.offset issue.length := by
  simp only [Issue.marker?] at h
  split at h
  · cases h
  · exact (Option.some.inj h).symm

/-- The markers of some rules are those of their issues. -/
theorem Issue.filter_markers (shown : Rule → Bool) (levels : Levels) (id : Nat) (issues : List Issue) :
    (issues.filterMap (·.marker? levels id)).filter (shown ·.rule) =
      (issues.filter (shown ·.rule)).filterMap (·.marker? levels id) := by
  rw [List.filter_filterMap, List.filterMap_filter]
  refine List.filterMap_congr fun issue _ => ?_
  cases hmarker : issue.marker? levels id with
  | none => simp
  | some marker =>
      have hrule : marker.rule = issue.rule := by rw [Issue.eq_of_marker? hmarker, Marker.ofRule]
      simp [Option.filter, hrule]

namespace TreeEntry

variable {source : Text} {levels : Levels} {entry : TreeEntry}

theorem node_stop (h : entry.phrase.start ≤ entry.phrase.stop) :
    (entry.node levels).stop = entry.phrase.stop := Nat.add_sub_cancel' h

theorem exists_issue {marker : Marker} (h : marker ∈ (entry.node levels).issues) :
    marker.node = entry.id ∧ ∃ issue ∈ entry.phrase.issues,
      marker.offset = issue.offset ∧ marker.stop = issue.stop := by
  obtain ⟨issue, hissue, hmarker⟩ := List.mem_filterMap.mp h
  rw [Issue.eq_of_marker? hmarker]
  exact ⟨rfl, issue, hissue, rfl, rfl⟩

end TreeEntry

namespace Tree

/-- The ranges of a tree fit its source and each other: the scene covers the source, nodes enclose their
children and their markers, and all of them lie between characters of the source. -/
structure Spans (source : Text) (tree : Tree) : Prop where
  root : ∃ name uri node, tree.node? root = some node ∧ node.kind = .scene name uri ∧ node.offset = 0 ∧
    node.stop = Text.bytes source
  child : ∀ id node, tree.node? id = some node → ∀ child ∈ node.children, ∃ inner,
    tree.node? child = some inner ∧ node.offset ≤ inner.offset ∧ inner.stop ≤ node.stop
  marker : ∀ id node, tree.node? id = some node → ∀ marker ∈ node.issues,
    marker.node = id ∧ node.offset ≤ marker.offset ∧ marker.stop ≤ node.stop
  bounds : ∀ id node, tree.node? id = some node →
    node.offset ≤ Text.bytes source ∧ node.stop ≤ Text.bytes source
  cuts : ∀ id node, tree.node? id = some node → IsCut source node.offset ∧ IsCut source node.stop
  text : ∀ id node, tree.node? id = some node →
    Text.slice? node.offset node.stop source = some (tree.text id)

end Tree

namespace Phrase

variable {levels : Levels} {source : Text} {phrase : Phrase} {kinds : Kind → Prop}

theorem Built.child_enclosed (hbuilt : phrase.Built kinds (IsCut source)) {id child : Nat} {node : Node}
    (hnode : (phrase.toTree levels source).node? id = some node) (hchild : child ∈ node.children) :
    ∃ inner, (phrase.toTree levels source).node? child = some inner ∧
      node.offset ≤ inner.offset ∧ inner.stop ≤ node.stop := by
  obtain ⟨entry, hentry, rfl, rfl⟩ := exists_entry_of_node? hnode
  obtain ⟨part, hpart, rfl⟩ := List.mem_map.mp hchild
  have hinner := parts_subset_entries none 0 phrase entry hentry hpart
  have hmem : part.phrase ∈ entry.phrase.parts := by
    rw [← TreeEntry.map_phrase_parts]
    exact List.mem_map_of_mem hpart
  have hsound := hbuilt.sound.entry hentry
  obtain ⟨hfrom, hto⟩ := hsound.parts part.phrase hmem
  refine ⟨part.node levels, node?_toTree levels source hinner, hfrom, ?_⟩
  rw [TreeEntry.node_stop (hbuilt.sound.entry hinner).ordered, TreeEntry.node_stop hsound.ordered]
  exact hto

theorem Built.marker_enclosed (hbuilt : phrase.Built kinds (IsCut source)) {id : Nat} {node : Node}
    {marker : Marker} (hnode : (phrase.toTree levels source).node? id = some node)
    (hmarker : marker ∈ node.issues) :
    marker.node = id ∧ node.offset ≤ marker.offset ∧ marker.stop ≤ node.stop := by
  obtain ⟨entry, hentry, rfl, rfl⟩ := exists_entry_of_node? hnode
  obtain ⟨howner, issue, hissue, hoffset, hstop⟩ := TreeEntry.exists_issue hmarker
  have hsound := hbuilt.sound.entry hentry
  obtain ⟨hfrom, hto, _⟩ := hsound.issues issue hissue
  rw [TreeEntry.node_stop hsound.ordered, hoffset, hstop]
  exact ⟨howner, hfrom, hto⟩

theorem Built.node_cuts (hbuilt : phrase.Built kinds (IsCut source)) {id : Nat} {node : Node}
    (hnode : (phrase.toTree levels source).node? id = some node) :
    IsCut source node.offset ∧ IsCut source node.stop := by
  obtain ⟨entry, hentry, rfl, rfl⟩ := exists_entry_of_node? hnode
  have hsound := hbuilt.sound.entry hentry
  rw [TreeEntry.node_stop hsound.ordered]
  exact ⟨hsound.start, hsound.stop⟩

end Phrase

theorem Tree.slice?_eq_text {tree : Tree} {id : Nat} {node : Node} (hnode : tree.node? id = some node)
    (hstart : IsCut tree.source node.offset) (hstop : IsCut tree.source node.stop) :
    Text.slice? node.offset node.stop tree.source = some (tree.text id) := by
  have hordered : node.offset ≤ node.stop := Nat.le_add_right _ _
  obtain ⟨text, htext⟩ := Option.isSome_iff_exists.mp (Text.slice?_isSome hstart hstop hordered)
  simp only [Tree.text, hnode]
  rw [Nat.min_eq_left hstop.le_bytes, Nat.min_eq_left hordered, htext, Option.getD_some]

/-- Whatever the scene, the ranges in its tree fit. -/
theorem Scene.spans_parse (source : Text) (name uri : Option String) (levels : Levels) :
    (Scene.parse source name uri levels).Spans source := by
  have hbuilt := Scene.phrase_built source name uri
  obtain ⟨hstart, hstop⟩ := Scene.phrase_range source name uri
  have htop := Phrase.mem_entries_self none 0 (Scene.phrase source name uri)
  refine ⟨⟨name, uri, _, Phrase.node?_toTree levels source htop, rfl, hstart, ?_⟩, ?_, ?_, ?_, ?_, ?_⟩
  · rw [TreeEntry.node_stop (hbuilt.sound.entry htop).ordered]
    exact hstop
  · exact fun id node hnode child hchild => hbuilt.child_enclosed hnode hchild
  · exact fun id node hnode marker hmarker => hbuilt.marker_enclosed hnode hmarker
  · intro id node hnode
    obtain ⟨hfrom, hto⟩ := hbuilt.node_cuts hnode
    exact ⟨hfrom.le_bytes, hto.le_bytes⟩
  · exact fun id node hnode => hbuilt.node_cuts hnode
  · intro id node hnode
    obtain ⟨hfrom, hto⟩ := hbuilt.node_cuts hnode
    exact Tree.slice?_eq_text hnode hfrom hto

end Gamebook
