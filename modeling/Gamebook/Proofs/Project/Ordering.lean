import Gamebook.Proofs.Project.References
import Gamebook.Proofs.Scene.Declaration
import Gamebook.Proofs.Tree.Inside

/-!
The order of references. A parser numbers the nodes of a scene as it creates them, and it creates a node around
others before them or after them. But names have nothing inside them, so that two of them are always inside
different parts of some node, and there the numbers grow from part to part as the offsets of the tokens do. A
search through the nodes by number therefore tells names from the beginning of a scene to its end.
-/

namespace Gamebook

/-- The first node begins before the second one, and ends there at the latest. -/
def Tree.Before (tree : Tree) (left right : Nat) : Prop :=
  ∃ front back, tree.node? left = some front ∧ tree.node? right = some back ∧ front.offset < back.offset ∧
    front.stop ≤ back.offset

theorem Tree.before_bare {tree : Tree} {left right : Nat} : tree.bare.Before left right ↔ tree.Before left right := by
  rw [Before, Before, node?_bare, node?_bare]
  constructor
  · rintro ⟨_, _, hfront, hback, hbefore⟩
    obtain ⟨front, hleft, rfl⟩ := Option.map_eq_some_iff.mp hfront
    obtain ⟨back, hright, rfl⟩ := Option.map_eq_some_iff.mp hback
    exact ⟨front, back, hleft, hright, hbefore⟩
  · rintro ⟨front, back, hfront, hback, hbefore⟩
    exact ⟨front.bare, back.bare, congrArg _ hfront, congrArg _ hback, hbefore⟩

namespace TreeEntry

variable {all : List TreeEntry} {left right : TreeEntry} {kinds : Kind → Prop} {places : Nat → Prop}

/-- A token ends before all that is inside a later part begins. -/
theorem Beside.stop_le (h : Beside all left right) (horder : ∀ entry ∈ all, entry.phrase.InOrder)
    (hsound : ∀ entry ∈ all, entry.phrase.Everywhere (Phrase.Sound kinds places)) (htoken : left.phrase.IsToken) :
    left.phrase.stop ≤ right.phrase.start := by
  obtain ⟨above, habove, first, second, hsublist, hleft, hright⟩ := h
  have hparts := (Phrase.inOrder_iff.mp (horder above habove)).1
  rw [← map_phrase_parts, List.pairwise_map] at hparts
  have htokens : first.phrase.TokensBy second.phrase.start := List.pairwise_iff_forall_sublist.mp hparts hsublist
  have hsecond : second ∈ above.parts := hsublist.subset (List.mem_cons_of_mem _ List.mem_cons_self)
  obtain ⟨way, hway⟩ := Phrase.exists_descent hright
  calc left.phrase.stop ≤ second.phrase.start := (Phrase.Everywhere.inside htokens hleft).here htoken
    _ ≤ right.phrase.start := (hway.enclosed ((hsound above habove).part (phrase_mem_parts hsecond))).1

end TreeEntry

namespace Scene

variable {source : Text} {name uri : Option String} {levels : Levels} {tree : Tree}

/-- Of two names in a scene the one with the lower number stands before the other one. -/
theorem before_of_lt {left right : Nat}
    (hleft : ((Scene.parse source name uri levels).kind? left).any Kind.isName = true)
    (hright : ((Scene.parse source name uri levels).kind? right).any Kind.isName = true) (hlt : left < right) :
    (Scene.parse source name uri levels).Before left right := by
  have hbuilt := phrase_built source name uri
  have horder := phrase_inOrder source name uri
  have hentry : ∀ {id}, ((Scene.parse source name uri levels).kind? id).any Kind.isName = true →
      ∃ entry ∈ (phrase source name uri).entries none 0, entry.id = id ∧ entry.phrase.kind.isName = true ∧
        (Scene.parse source name uri levels).node? id = some (entry.node levels) := by
    intro id hid
    obtain ⟨kind, hkind, hname⟩ := (Option.any_eq_true _ _).mp hid
    obtain ⟨node, hnode, rfl⟩ := Option.map_eq_some_iff.mp hkind
    obtain ⟨entry, hentry, rfl, rfl⟩ := Phrase.exists_entry_of_node? hnode
    exact ⟨entry, hentry, rfl, hname, hnode⟩
  obtain ⟨first, hfirst, rfl, hname, hfront⟩ := hentry hleft
  obtain ⟨second, hsecond, rfl, hother, hback⟩ := hentry hright
  have hfits : first.phrase.Fits := (phrase_laid source name uri).entry hfirst
  have hfits' : second.phrase.Fits := (phrase_laid source name uri).entry hsecond
  have hleaf := hfits.parts_eq_nil hname
  have hbeside : TreeEntry.Beside ((phrase source name uri).entries none 0) first second :=
    @TreeEntry.beside_of_id_lt ⟨0, none, phrase source name uri⟩ _ _ hfirst hsecond hleaf
      (hfits'.parts_eq_nil hother) hlt
  have hstop : first.phrase.stop ≤ second.phrase.start :=
    hbeside.stop_le (fun _ => horder.inside) (fun _ => hbuilt.sound.inside) ⟨hleaf, Kind.isLeaf_of_isName hname⟩
  refine ⟨_, _, hfront, hback, Nat.lt_of_lt_of_le (hfits.filled (.inl hname)) hstop, ?_⟩
  rw [TreeEntry.node_stop (hbuilt.sound.entry hfirst).ordered]
  exact hstop

/-- Names that are picked out of a scene by number are told from its beginning to its end. -/
theorem pairwise_filter_ids (hbare : tree.bare = (Scene.parse source name uri levels).bare) {test : Nat → Bool}
    (htest : ∀ id, test id = true → (tree.kind? id).any Kind.isName = true) :
    (tree.ids.filter test).Pairwise tree.Before := by
  have hsorted : (tree.ids.filter test).Pairwise (· < ·) := List.pairwise_lt_range.filter test
  have hname : ∀ {id}, id ∈ tree.ids.filter test →
      ((Scene.parse source name uri levels).kind? id).any Kind.isName = true := by
    intro id hid
    rw [← Tree.kind?_bare, ← hbare, Tree.kind?_bare]
    exact htest id (List.mem_filter.mp hid).2
  refine hsorted.imp_of_mem fun {left right} hleft hright hlt => ?_
  rw [← Tree.before_bare, hbare, Tree.before_bare]
  exact before_of_lt (hname hleft) (hname hright) hlt

theorem references_pairwise (source : Text) (name uri : Option String) (levels : Levels) (binding : Binding) :
    ((Scene.lookup source name uri levels).references binding).Pairwise
      (Scene.lookup source name uri levels).tree.Before := by
  refine pairwise_filter_ids (bare_lookup source name uri levels) fun id hrefers => ?_
  obtain ⟨found, hfound, _⟩ := (Option.any_eq_true _ _).mp ((Bool.and_eq_true _ _).mp hrefers).2
  obtain ⟨node, hnode, _, htype, _⟩ := Lookup.ofNode?_eq_some_iff.mp hfound
  rw [Tree.kind?, hnode]
  show node.kind.isName = true
  cases hkind : node.kind <;> first | rfl | exact absurd (hkind ▸ rfl) htype

end Scene

namespace Project

variable {project : Project} {target : Target} {entry : Entry} {left right : Location}

/-- The first place is in a scene with a lower name, or before the second one in the same scene. -/
def Before (project : Project) (left right : Location) : Prop :=
  ∃ first second, project.sceneAt? left.uri = some first ∧ project.sceneAt? right.uri = some second ∧
    (first.name < second.name ∨
      first.name = second.name ∧ left.offset < right.offset ∧ left.offset + left.length ≤ right.offset)

theorem not_before_self (location : Location) : ¬ project.Before location location := by
  rintro ⟨first, second, hfirst, hsecond, hbefore⟩
  obtain rfl := Option.some.inj (hfirst.symm.trans hsecond)
  rcases hbefore with hlt | ⟨_, hlt, _⟩
  · exact lt_irrefl _ hlt
  · exact Nat.lt_irrefl _ hlt

/-- The places are places of scenes, no two of them are the same, and they are told scene by scene, in the order of
the names of the scenes, and in each scene from its beginning to its end. -/
structure Sequenced (project : Project) (locations : List Location) : Prop where
  placed : ∀ location ∈ locations, ∃ entry, project.sceneAt? location.uri = some entry
  distinct : locations.Nodup
  sorted : locations.Pairwise project.Before

section Scenes

variable [Addressing] (h : project.Coherent)
include h

theorem Coherent.sceneAt?_of_mem (hentry : entry ∈ project.scenes.values) {location : Location}
    (hlocation : location ∈ project.referencesIn target entry) : project.sceneAt? location.uri = some entry := by
  obtain ⟨id, _, rfl⟩ := mem_referencesIn.mp hlocation
  obtain ⟨name, hscene⟩ := h.mem_scenes_iff.mp hentry
  exact h.sceneAt?_uri hscene

theorem Coherent.pairwise_referencesIn (hentry : entry ∈ project.scenes.values) :
    (project.referencesIn target entry).Pairwise project.Before := by
  obtain ⟨name, hscene⟩ := h.mem_scenes_iff.mp hentry
  refine List.pairwise_map.mpr ((Scene.pairwise_filter_ids (h.bare_tree hscene) fun id hleads => ?_).imp ?_)
  · obtain ⟨found, hfound, _⟩ := (Option.any_eq_true _ _).mp hleads
    obtain ⟨_, node, hnode, hname⟩ := h.holds_targetOf? hfound
    rw [Tree.kind?, hnode]
    exact hname
  · rintro left right ⟨front, back, hfront, hback, hstart, hstop⟩
    rw [Location.ofNode_eq hfront, Location.ofNode_eq hback]
    exact ⟨entry, entry, h.sceneAt?_uri hscene, h.sceneAt?_uri hscene, .inr ⟨rfl, hstart, hstop⟩⟩

theorem Coherent.pairwise_scenes :
    project.scenes.values.Pairwise fun first second => first.name < second.name := by
  refine List.pairwise_map.mpr (List.Pairwise.imp_of_mem ?_ h.ordered)
  rintro ⟨leftName, first⟩ ⟨rightName, second⟩ hfirst hsecond hlt
  rw [h.entry_name (h.ordered.mem_entries_iff.mp hfirst), h.entry_name (h.ordered.mem_entries_iff.mp hsecond)]
  exact hlt

theorem Coherent.pairwise_flatMap_referencesIn :
    (project.scenes.values.flatMap (project.referencesIn target)).Pairwise project.Before := by
  refine List.pairwise_flatMap.mpr ⟨fun entry hentry => h.pairwise_referencesIn hentry, ?_⟩
  refine h.pairwise_scenes.imp_of_mem fun {first second} hfirst hsecond hlt left hleft right hright => ?_
  exact ⟨first, second, h.sceneAt?_of_mem hfirst hleft, h.sceneAt?_of_mem hsecond hright, .inl hlt⟩

theorem Coherent.sequenced_references (uri : Uri) (offset : Nat) :
    project.Sequenced (project.references uri offset) := by
  rw [references]
  cases project.targetAt? uri offset with
  | none => exact ⟨List.forall_mem_nil _, .nil, .nil⟩
  | some target =>
      have hsorted : (project.scenes.values.flatMap (project.referencesIn target)).Pairwise project.Before :=
        h.pairwise_flatMap_referencesIn
      refine ⟨fun location hlocation => ?_, hsorted.imp ?_, hsorted⟩
      · obtain ⟨entry, hentry, hin⟩ := List.mem_flatMap.mp hlocation
        exact ⟨entry, h.sceneAt?_of_mem hentry hin⟩
      · rintro left _ hbefore rfl
        exact not_before_self left hbefore

end Scenes

/-- The references to what a name leads to are in order and none is told twice, neither in a project nor in a single
scene, whatever was indexed and whatever the scene says. -/
theorem references_in_order [Addressing] (h : project.Reachable) (uri : Uri) (offset : Nat) :
    project.Sequenced (project.references uri offset) ∧
      ∀ source name address levels binding,
        ((Scene.lookup source name address levels).references binding).Nodup ∧
          ((Scene.lookup source name address levels).references binding).Pairwise
            (Scene.lookup source name address levels).tree.Before :=
  ⟨h.coherent.sequenced_references uri offset, fun source name address levels binding =>
    ⟨List.nodup_range.filter _, Scene.references_pairwise source name address levels binding⟩⟩

/-- The scene that is indexed first has the higher name and uses a variable three times that the other one creates
and sets. -/
def setTwice : Project :=
  ((({} : Project).update ⟨⟨"file:///game/two.txt"⟩, "*set x (x+x)\n".toList⟩).2.update
    ⟨⟨"file:///game/startup.txt"⟩, "*create x 1\n*set x 2\n".toList⟩).2

theorem reachable_setTwice : setTwice.Reachable := ((Reachable.initial {}).update _).update _

theorem references_in_order_setTwice :
    setTwice.Reachable ∧ setTwice.Sequenced (setTwice.references ⟨"file:///game/two.txt"⟩ 8) ∧
      setTwice.references ⟨"file:///game/two.txt"⟩ 8 =
        [⟨⟨"file:///game/startup.txt"⟩, 8, 1⟩, ⟨⟨"file:///game/startup.txt"⟩, 17, 1⟩,
          ⟨⟨"file:///game/two.txt"⟩, 5, 1⟩, ⟨⟨"file:///game/two.txt"⟩, 8, 1⟩, ⟨⟨"file:///game/two.txt"⟩, 10, 1⟩] :=
  ⟨reachable_setTwice, (references_in_order reachable_setTwice _ _).1, by decide +kernel⟩

end Project

end Gamebook
