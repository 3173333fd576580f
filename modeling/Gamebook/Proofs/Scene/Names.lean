import Gamebook.Proofs.Scene.Cursor
import Gamebook.Proofs.Scene.Laid
import Gamebook.Proofs.Tree.Bare

/-!
The places of names. A name is a leaf that is not empty, so that the offset where it starts leads back to it.
-/

namespace Gamebook

theorem Kind.isLeaf_of_isName {kind : Kind} (h : kind.isName = true) : kind.isLeaf = true := by
  cases kind <;> first | rfl | cases h

theorem Scene.nodeAt?_name {source : Text} {name uri : Option String} {levels : Levels} {id : Nat} {node : Node}
    (hnode : (Scene.parse source name uri levels).node? id = some node) (hname : node.kind.isName = true) :
    (Scene.parse source name uri levels).nodeAt? node.offset = some id := by
  obtain ⟨entry, hentry, rfl, rfl⟩ := Phrase.exists_entry_of_node? hnode
  obtain ⟨way, hway⟩ := Phrase.exists_descent hentry
  have hfits : entry.phrase.Fits := (phrase_laid source name uri).entry hentry
  have htoken : entry.phrase.IsToken := ⟨hfits.parts_eq_nil hname, Kind.isLeaf_of_isName hname⟩
  have hpath : (Scene.parse source name uri levels).path entry.phrase.start = _ :=
    Phrase.path_descent (phrase_built source name uri) (phrase_inOrder source name uri) htoken (Nat.le_refl _)
      (hfits.filled (.inl hname)) hway rfl
  have hlast := congrArg (Option.map TreeEntry.id) hway.getLast?
  rw [← List.getLast?_map] at hlast
  rw [Tree.nodeAt?]
  exact (congrArg List.getLast? hpath).trans hlast

end Gamebook
