import Gamebook.Proofs.Phrase.Alike
import Gamebook.Proofs.Scene.Spans

/-!
Trees that say the same. What corresponds in the phrases of two scenes corresponds in their trees, node by
node: kinds, ranges, children and markers.
-/

namespace Gamebook

structure Marker.Alike (c : Correspondence) (owner : Nat) (left right : Marker) : Prop where
  same : right = { left with node := owner, offset := right.offset }
  range : c.range left.offset left.stop right.offset right.stop

/-- The nodes correspond in all but their children, the second being the node with the given number. -/
structure Node.Alike (c : Correspondence) (owner : Nat) (left right : Node) : Prop where
  kind : right.kind = left.kind.renumber c.lines
  offset : c.range left.offset left.offset right.offset right.offset
  stop : c.ends left.stop right.stop
  whole : left.kind.holdsLines = false → c.range left.offset left.stop right.offset right.stop
  issues : List.Forall₂ (Marker.Alike c owner) (left.issues.filter (c.shown ·.rule))
    (right.issues.filter (c.shown ·.rule))

namespace Tree

/-- The nodes with the given numbers correspond. -/
def Agrees (c : Correspondence) (left right : Tree) (id other : Nat) : Prop :=
  ∃ node node', left.node? id = some node ∧ right.node? other = some node' ∧ node.Alike c other node'

/-- The nodes are the same, and so are their children, one by one, apart from gaps. -/
inductive Alike (left right : Tree) (same gap : Nat → Nat → Prop) : Nat → Nat → Prop
  | gap {id other : Nat} (h : gap id other) : Alike left right same gap id other
  | agree {id other : Nat} (h : same id other)
      (hchildren : List.Forall₂ (Alike left right same gap) (left.children id) (right.children other)) :
      Alike left right same gap id other

end Tree

/-! ### Markers -/

theorem Issue.Alike.marker? {c : Correspondence} {left right : Issue} (h : left.Alike c right)
    (levels : Levels) (id other : Nat) :
    (left.marker? levels id = none ∧ right.marker? levels other = none) ∨
      ∃ marker marker', left.marker? levels id = some marker ∧ right.marker? levels other = some marker' ∧
        marker.Alike c other marker' := by
  simp only [Issue.marker?, h.rule, h.length]
  split
  · exact .inl ⟨rfl, rfl⟩
  · refine .inr ⟨_, _, rfl, rfl, rfl, ?_⟩
    have hrange := h.range
    rw [Issue.stop, Issue.stop, h.length] at hrange
    exact hrange

theorem forall₂_markers {c : Correspondence} {issues issues' : List Issue}
    (h : List.Forall₂ (Issue.Alike c) issues issues') (levels : Levels) (id other : Nat) :
    List.Forall₂ (Marker.Alike c other) (issues.filterMap (·.marker? levels id))
      (issues'.filterMap (·.marker? levels other)) := by
  induction h with
  | nil => exact .nil
  | cons hissue _ ih =>
      rcases hissue.marker? levels id other with ⟨hnone, hnone'⟩ | ⟨marker, marker', hsome, hsome', hmarker⟩
      · rw [List.filterMap_cons_none hnone, List.filterMap_cons_none hnone']
        exact ih
      · rw [List.filterMap_cons_some hsome, List.filterMap_cons_some hsome']
        exact .cons hmarker ih

/-! ### Nodes -/

namespace Phrase

variable {c : Correspondence} {gap : Phrase → Phrase → Prop} {phrase phrase' : Phrase}
  {kinds kinds' : Kind → Prop} {places places' : Nat → Prop} {entry entry' : TreeEntry}
  {levels : Levels} {source source' : Text}

theorem Agrees.node (h : entry.phrase.Agrees c entry'.phrase) (hordered : entry.phrase.start ≤ entry.phrase.stop)
    (hordered' : entry'.phrase.start ≤ entry'.phrase.stop) :
    (entry.node levels).Alike c entry'.id (entry'.node levels) := by
  have hstop : (entry.node levels).stop = entry.phrase.stop := TreeEntry.node_stop hordered
  have hstop' : (entry'.node levels).stop = entry'.phrase.stop := TreeEntry.node_stop hordered'
  refine ⟨h.kind, h.start, ?_, ?_, ?_⟩
  · rw [hstop, hstop']
    exact h.stop
  · rw [hstop, hstop']
    exact h.whole
  · rw [TreeEntry.node, TreeEntry.node, Issue.filter_markers, Issue.filter_markers]
    exact forall₂_markers h.issues levels entry.id entry'.id

theorem zip_parts (entry entry' : TreeEntry) : entry.phrase.parts.zip entry'.phrase.parts =
    (entry.parts.zip entry'.parts).map (Prod.map TreeEntry.phrase TreeEntry.phrase) := by
  rw [← TreeEntry.map_phrase_parts, ← TreeEntry.map_phrase_parts, List.zip_map]

section Transfer

variable {same hole : Nat → Nat → Prop}
  (hsame : ∀ entry ∈ phrase.entries none 0, ∀ entry' ∈ phrase'.entries none 0,
    entry.phrase.Agrees c entry'.phrase →
    List.Forall₂ (Alike c gap) entry.phrase.parts entry'.phrase.parts → same entry.id entry'.id)
  (hhole : ∀ entry ∈ phrase.entries none 0, ∀ entry' ∈ phrase'.entries none 0,
    gap entry.phrase entry'.phrase → hole entry.id entry'.id)
include hsame hhole

/-- Phrases that are alike have trees that are. -/
theorem Alike.toTree (hentry : entry ∈ phrase.entries none 0) (hentry' : entry' ∈ phrase'.entries none 0)
    (h : entry.phrase.Alike c gap entry'.phrase) :
    (phrase.toTree levels source).Alike (phrase'.toTree levels source') same hole entry.id entry'.id := by
  generalize hleft : entry.phrase = left at h
  generalize hright : entry'.phrase = right at h
  induction h generalizing entry entry' with
  | gap h => exact .gap (hhole entry hentry entry' hentry' (hleft ▸ hright ▸ h))
  | agree h hlength hparts ih =>
      subst hleft hright
      refine .agree (hsame entry hentry entry' hentry' h (forall₂_of_zip hlength hparts)) ?_
      rw [children_toTree levels source hentry, children_toTree levels source' hentry',
        List.forall₂_map_left_iff, List.forall₂_map_right_iff, List.forall₂_iff_zip]
      constructor
      · rw [← List.length_map TreeEntry.phrase, TreeEntry.map_phrase_parts, hlength,
          ← TreeEntry.map_phrase_parts, List.length_map]
      · intro part part' hpair
        obtain ⟨hpart, hpart'⟩ := List.of_mem_zip hpair
        refine ih (part.phrase, part'.phrase) ?_ (parts_subset_entries none 0 phrase entry hentry hpart)
          (parts_subset_entries none 0 phrase' entry' hentry' hpart') rfl rfl
        rw [zip_parts]
        exact List.mem_map_of_mem hpair

theorem forall₂_toTree {entries entries' : List TreeEntry} (hentries : entries ⊆ phrase.entries none 0)
    (hentries' : entries' ⊆ phrase'.entries none 0)
    (h : List.Forall₂ (Alike c gap) (entries.map TreeEntry.phrase) (entries'.map TreeEntry.phrase)) :
    List.Forall₂ ((phrase.toTree levels source).Alike (phrase'.toTree levels source') same hole)
      (entries.map TreeEntry.id) (entries'.map TreeEntry.id) := by
  rw [List.forall₂_map_left_iff, List.forall₂_map_right_iff, List.forall₂_iff_zip] at h ⊢
  refine ⟨h.1, fun hpair => ?_⟩
  obtain ⟨hentry, hentry'⟩ := List.of_mem_zip hpair
  exact (h.2 hpair).toTree hsame hhole (hentries hentry) (hentries' hentry')

end Transfer

end Phrase

namespace Scene

variable (source source' : Text) (name uri : Option String)

theorem parts_phrase : (phrase source name uri).parts =
    Line.phrases (Line.establishedUnit? (Line.lines source)) .scene (Line.lines source) := rfl

theorem children_root (levels : Levels) : (parse source name uri levels).children Tree.root =
    (TreeEntry.parts ⟨0, none, phrase source name uri⟩).map TreeEntry.id :=
  Phrase.children_toTree levels source (Phrase.mem_entries_self none 0 _)

theorem agrees_toTree {c : Correspondence} {levels : Levels} {entry entry' : TreeEntry}
    (hentry : entry ∈ (phrase source name uri).entries none 0)
    (hentry' : entry' ∈ (phrase source' name uri).entries none 0) (h : entry.phrase.Agrees c entry'.phrase) :
    Tree.Agrees c (parse source name uri levels) (parse source' name uri levels) entry.id entry'.id := by
  refine ⟨_, _, Phrase.node?_toTree levels source hentry, Phrase.node?_toTree levels source' hentry', ?_⟩
  exact h.node ((phrase_built source name uri).sound.entry hentry).ordered
    ((phrase_built source' name uri).sound.entry hentry').ordered

end Scene

end Gamebook
