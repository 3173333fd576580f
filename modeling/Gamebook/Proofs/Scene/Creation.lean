import Gamebook.Proofs.Scene.Scopes
import Gamebook.Proofs.Scope.Creation
import Gamebook.Proofs.Scope.Declaration

/-!
Variables of the whole game in a scene. The declarations that create them follow each other in the order of a
walk, none inside another. So the last one of a name that a walk meets is the last one in the document, however
deep it stands.
-/

namespace Gamebook

namespace Tree

/-- The creation is the last one of its name in the document, wherever in the tree it is. -/
structure LastCreation (tree : Tree) (creation : Creation) : Prop where
  here : tree.creation? creation.node = some creation
  last : ∀ id other, tree.creation? id = some other → other.name = creation.name →
    other = creation ∨ other.offset < creation.offset

variable {tree : Tree} {id : Nat} {creation : Creation}

theorem exists_of_creation? (h : tree.creation? id = some creation) :
    ∃ node, tree.node? id = some node ∧ node.kind = .variableDeclaration .create ∧
      creation.node = id ∧ creation.offset = node.offset := by
  unfold creation? at h
  split at h
  · cases h
  · rename_i node hnode
    split at h
    · rename_i hkind
      obtain ⟨name, _, rfl⟩ := Option.map_eq_some_iff.mp h
      exact ⟨node, hnode, hkind, rfl, rfl⟩
    · cases h

/-- The variables of the whole game that nodes create are listed, and each is created behind those before it. -/
structure Successive (tree : Tree) : Prop where
  listed : ∀ id creation, tree.creation? id = some creation → creation ∈ tree.creations
  increasing : tree.creations.Pairwise fun left right => left.offset < right.offset

theorem successive_bare : tree.bare.Successive ↔ tree.Successive := by
  constructor <;> intro h
  · exact ⟨by simpa using h.listed, by simpa using h.increasing⟩
  · exact ⟨by simpa using h.listed, by simpa using h.increasing⟩

namespace Successive

theorem mem_creations_iff (h : tree.Successive) : creation ∈ tree.creations ↔ tree.creation? creation.node = some creation := by
  constructor
  · intro hmem
    obtain ⟨id, _, hid⟩ := List.mem_filterMap.mp hmem
    obtain ⟨_, _, _, rfl, _⟩ := exists_of_creation? hid
    exact hid
  · exact h.listed _ _

/-- The last one in the list is the last one in the document. -/
theorem find?_eq_some_iff (h : tree.Successive) {name : String} :
    tree.creations.reverse.find? (·.name == name) = some creation ↔
      creation.name = name ∧ tree.LastCreation creation := by
  rw [find?_reverse_eq_some_iff h.increasing, h.mem_creations_iff, beq_iff_eq]
  constructor
  · rintro ⟨⟨hhere, rfl⟩, hmost⟩
    refine ⟨rfl, hhere, fun id other hother hname => ?_⟩
    have hmem := h.listed id other hother
    refine (Nat.lt_or_eq_of_le (hmost other hmem (beq_iff_eq.mpr hname))).symm.imp_left fun hoffset => ?_
    have hnodup : (tree.creations.map Creation.offset).Nodup := List.pairwise_map.mpr (h.increasing.imp Nat.ne_of_lt)
    exact List.inj_on_of_nodup_map hnodup hmem (h.listed _ _ hhere) hoffset
  · rintro ⟨rfl, hlast⟩
    refine ⟨⟨hlast.here, rfl⟩, fun other hother hname => ?_⟩
    rcases hlast.last _ other (h.mem_creations_iff.mp hother) (beq_iff_eq.mp hname) with rfl | hbefore
    · exact Nat.le_refl _
    · exact Nat.le_of_lt hbefore

theorem exists_find? (h : tree.Successive) {id : Nat} (hid : tree.creation? id = some creation) :
    ∃ last, tree.creations.reverse.find? (·.name == creation.name) = some last :=
  Option.isSome_iff_exists.mp
    (List.find?_isSome.mpr ⟨creation, List.mem_reverse.mpr (h.listed id creation hid), beq_iff_eq.mpr rfl⟩)

end Successive

end Tree

namespace Scope

variable {phrase : Phrase} {levels : Levels} {source : Text}

theorem successive_toTree (hframed : phrase.Framed) (hfirst : phrase.before = []) :
    (phrase.toTree levels source).Successive where
  listed := by
    intro id creation hid
    obtain ⟨node, hnode, _⟩ := Tree.exists_of_creation? hid
    obtain ⟨entry, hentry, rfl, _⟩ := Phrase.exists_entry_of_node? hnode
    refine List.mem_filterMap.mpr ⟨entry.id, ?_, hid⟩
    rw [preorder_root hfirst]
    exact List.mem_map_of_mem hentry
  increasing := by
    rw [Tree.creations, preorder_root hfirst, List.pairwise_filterMap, List.pairwise_map]
    refine List.pairwise_iff_forall_sublist.mpr fun {left right} hpair first hfirst second hsecond => ?_
    obtain ⟨hleft, hright⟩ := mem_of_sublist_pair hpair
    obtain ⟨_, hnode, hkind, _, hoffset⟩ := Tree.exists_of_creation? hfirst
    obtain ⟨_, hnode', hkind', _, hoffset'⟩ := Tree.exists_of_creation? hsecond
    rw [node_eq hleft, Option.some.injEq] at hnode
    rw [node_eq hright, Option.some.injEq] at hnode'
    subst hnode hnode'
    have hdeclares : left.phrase.kind.declares = true := by rw [show left.phrase.kind = _ from hkind]; rfl
    have hdeclares' : right.phrase.kind.declares = true := by rw [show right.phrase.kind = _ from hkind']; rfl
    -- the first declaration covers something, and the second begins where it has ended
    rw [hoffset, hoffset']
    exact Nat.lt_of_lt_of_le (hframed.filled hleft (isScoped_of_declares hdeclares))
      (hframed.behind_declaration hpair hdeclares (isScoped_of_declares hdeclares'))

end Scope

namespace Scene

theorem successive_parse (source : Text) (name uri : Option String) (levels : Levels) :
    (Scene.parse source name uri levels).Successive :=
  Scope.successive_toTree (framed_phrase source name uri) rfl

end Scene

end Gamebook
