import Gamebook.Proofs.Phrase.Shape
import Gamebook.Proofs.Scene.Spans

/-!
Shapes in trees. What a phrase shows its nodes show, and a tree is without errors if its phrase is.
-/

namespace Gamebook

namespace Tree

/-- The node is what a shape says, apart from types and from the ranges of what is no leaf. -/
inductive Shows (tree : Tree) : Nat → Shape → Prop
  | leaf {id : Nat} {node : Node} (hnode : tree.node? id = some node) (hchildren : node.children = []) :
      Shows tree id (.leaf node.kind node.offset node.stop)
  | node {id : Nat} {kind : Kind} {shapes : List Shape} (hkind : (tree.kind? id).map Kind.untyped = some kind)
      (hchildren : List.Forall₂ (Shows tree) (tree.children id) shapes) : Shows tree id (.node kind shapes)

def Faultless (tree : Tree) : Prop := ∀ id, ∀ marker ∈ tree.issues id, marker.level ≠ .error

theorem faultless_iff {tree : Tree} :
    tree.Faultless ↔ ∀ id < tree.size, ∀ marker ∈ tree.issues id, marker.level ≠ .error := by
  refine ⟨fun h id _ => h id, fun h id marker hmarker => ?_⟩
  by_cases hid : id < tree.size
  · exact h id hid marker hmarker
  · have hnone : tree.node? id = none := Array.getElem?_eq_none (Nat.le_of_not_lt hid)
    rw [issues, hnone] at hmarker
    cases hmarker

instance (tree : Tree) : Decidable tree.Faultless := decidable_of_iff _ faultless_iff.symm

end Tree

namespace Phrase

variable {levels : Levels} {source : Text} {phrase part : Phrase} {entry : TreeEntry}

theorem Shows.toTree {shape : Shape}
    (hordered : ∀ entry ∈ phrase.entries none 0, entry.phrase.start ≤ entry.phrase.stop)
    (hentry : entry ∈ phrase.entries none 0) (h : entry.phrase.Shows shape) :
    (phrase.toTree levels source).Shows entry.id shape := by
  generalize hinner : entry.phrase = inner at h
  induction h generalizing entry with
  | leaf hkind hstart hstop hparts =>
      subst hinner hkind hstart hstop
      have hnone : entry.parts = [] := by
        rw [← TreeEntry.map_phrase_parts, List.map_eq_nil_iff] at hparts
        exact hparts
      rw [← TreeEntry.node_stop (hordered entry hentry)]
      exact .leaf (node?_toTree levels source hentry) (by rw [TreeEntry.node, hnone, List.map_nil])
  | node hkind _ hlength hparts ih =>
      subst hinner
      refine .node (by rw [kind?_toTree levels source hentry, Option.map_some, hkind]) ?_
      rw [children_toTree levels source hentry, List.forall₂_map_left_iff, List.forall₂_iff_zip]
      rw [← TreeEntry.map_phrase_parts, List.length_map] at hlength
      refine ⟨hlength, fun {child shape} hpair => ?_⟩
      have hchild := (List.of_mem_zip hpair).1
      refine ih (child.phrase, shape) ?_ (parts_subset_entries none 0 phrase entry hentry hchild) rfl
      rw [← TreeEntry.map_phrase_parts, List.zip_map_left]
      exact List.mem_map_of_mem hpair

/-- Where a phrase has a single part, its node has a single child. -/
theorem exists_child (hentry : entry ∈ phrase.entries none 0) (hparts : entry.phrase.parts = [part]) :
    ∃ child ∈ phrase.entries none 0, child.phrase = part ∧
      (phrase.toTree levels source).children entry.id = [child.id] := by
  rw [← TreeEntry.map_phrase_parts, List.map_eq_singleton_iff] at hparts
  obtain ⟨child, hchild, hphrase⟩ := hparts
  refine ⟨child, parts_subset_entries none 0 phrase entry hentry ?_, hphrase, ?_⟩
  · rw [hchild]
    exact List.mem_singleton_self child
  · rw [children_toTree levels source hentry, hchild, List.map_singleton]

/-- In a tree without errors no error was raised, at whatever levels the rules are reported. -/
theorem clean_of_faultless {property : Phrase → Prop} (hphrase : phrase.Everywhere property)
    (h : (phrase.toTree levels source).Faultless) : phrase.Clean := by
  refine everywhere_of_entries ?_ (mem_entries_self none 0 phrase) hphrase
  intro entry hentry issue hissue herror
  have hmarker : issue.marker? levels entry.id =
      some (.ofRule issue.rule .error entry.id issue.offset issue.length) := by
    rw [Issue.marker?]
    simp only [herror.of_eq_error levels]
    rfl
  refine h entry.id (.ofRule issue.rule .error entry.id issue.offset issue.length) ?_ rfl
  rw [Tree.issues, node?_toTree levels source hentry]
  exact List.mem_filterMap.mpr ⟨issue, hissue, hmarker⟩

theorem faultless_toTree {property : Phrase → Prop} (hphrase : phrase.Everywhere property) :
    (phrase.toTree {} source).Faultless ↔ phrase.Clean := by
  refine ⟨clean_of_faultless hphrase, ?_⟩
  intro h id marker hmarker herror
  unfold Tree.issues at hmarker
  cases hnode : (phrase.toTree {} source).node? id with
  | none =>
      rw [hnode] at hmarker
      cases hmarker
  | some node =>
      obtain ⟨entry, hentry, rfl, rfl⟩ := exists_entry_of_node? hnode
      rw [hnode] at hmarker
      obtain ⟨issue, hissue, hfound⟩ := List.mem_filterMap.mp hmarker
      rw [Issue.eq_of_marker? hfound] at herror
      exact h.entry hentry issue hissue herror

end Phrase

end Gamebook
