import Gamebook.Proofs.Project.Declaration
import Gamebook.Proofs.Scene.Naming

/-!
Names in a project. What is looked up to find one's way is the text of a name, and what is found has a single name;
so have the scenes that a project lists, apart from entries on which something is marked.
-/

namespace Gamebook

namespace Tree

/-- Something is marked on the node that is an entry in a list of scenes: a name is missing, or something follows
the name. -/
def Misnamed (tree : Tree) (id : Nat) : Prop := tree.Carries .sceneNameExpected id ∨ tree.Carries .unexpectedToken id

theorem Named.isRun_of_isName {tree : Tree} {id : Nat} {kind : Kind} (h : tree.Named) (hkind : tree.kind? id = some kind)
    (hname : kind.isName = true) : Text.IsRun (tree.text id) ∨ kind = .sceneRef ∧ tree.Misnamed id := by
  cases kind with
  | var =>
      obtain ⟨line, -, hnamed⟩ := h.var id hkind
      exact .inl hnamed.isRun
  | label =>
      obtain ⟨line, -, hrun⟩ := h.label id hkind
      exact .inl hrun.toIsRun
  | sceneRef =>
      by_cases hinside : ∀ above, tree.parent? id = some above → ¬tree.OnLine above
      · obtain ⟨line, -, hrun⟩ := h.scene id hkind hinside
        exact .inl hrun.toIsRun
      · obtain ⟨above, hparent, hline⟩ : ∃ above, tree.parent? id = some above ∧ tree.OnLine above := by
          simpa using hinside
        obtain ⟨line, -, -, hlists⟩ := h.entry id above hkind hparent hline
        by_cases hnone : line.listed = []
        · exact .inr ⟨rfl, .inl (hlists.nameless.mpr hnone)⟩
        · obtain ⟨hrun, -, hwhole⟩ := hlists.named hnone
          by_cases hmore : tree.Carries .unexpectedToken id
          · exact .inr ⟨rfl, .inr hmore⟩
          · rw [hwhole.mpr hmore]
            exact .inl hrun.toIsRun
  | _ => cases hname

end Tree

variable {project : Project} {entry : Entry} {id : Nat}

namespace Project

/-- Names are names in all scenes of a project. The texts that are looked up to find what a name leads to are runs,
and a symbol that is found has a single name; the scenes that are listed are runs. Only an entry in a list of scenes
can be more or less than a name, and it is marked then. -/
structure Named (project : Project) : Prop where
  scenes : ∀ name entry, project.scene? name = some entry → entry.lookup.Named
  sought : ∀ name entry id target, project.scene? name = some entry → project.targetOf? entry id = some target →
    (Text.IsRun (entry.tree.text id) ∧ ∀ scene ∈ Lookup.qualifier? entry.tree id, Text.IsRun (entry.tree.text scene)) ∨
      entry.tree.kind? id = some .sceneRef ∧ entry.tree.Misnamed id
  found : ∀ name entry id owner binding, project.scene? name = some entry →
    project.targetOf? entry id = some (.symbol owner binding) → binding.symbol.Named
  listed : ∀ name ∈ project.declaredScenes, Text.IsRun name.toList ∨ ∃ startup id, project.startup? = some startup ∧
    startup.tree.kind? id = some .sceneRef ∧ startup.tree.name id = name ∧ startup.tree.Misnamed id

theorem exists_of_mem_declaredScenes {name : String} (h : name ∈ project.declaredScenes) :
    ∃ startup id, project.startup? = some startup ∧ startup.tree.kind? id = some .sceneRef ∧
      startup.tree.name id = name := by
  unfold declaredScenes at h
  split at h
  · cases h
  · rename_i startup hstartup
    dsimp only at h
    split at h
    · cases h
    · obtain ⟨id, hid, hname⟩ := List.mem_map.mp h
      exact ⟨startup, id, hstartup, beq_iff_eq.mp (List.mem_filter.mp hid).2, hname⟩

theorem named_of_coherent [Addressing] (h : project.Coherent) : project.Named := by
  have hscenes : ∀ name entry, project.scene? name = some entry → entry.lookup.Named := by
    intro name entry hentry
    rw [h.lookup_eq hentry]
    exact Scene.named_lookup _ _ _ _
  refine ⟨hscenes, fun name entry id target hentry htarget => ?_, fun name entry id owner binding hentry htarget => ?_,
    fun name hname => ?_⟩
  · have htree : entry.tree.Named := (hscenes name entry hentry).tree
    obtain ⟨-, node, hnode, hname⟩ := h.holds_targetOf? htarget
    have hkind : entry.tree.kind? id = some node.kind := by rw [Tree.kind?, hnode]; rfl
    rcases htree.isRun_of_isName hkind hname with hrun | ⟨hscene, hmarked⟩
    · refine .inl ⟨hrun, fun scene hscene => ?_⟩
      obtain ⟨line, -, hbeside⟩ := htree.beside id scene hscene
      exact hbeside.toIsRun
    · exact .inr ⟨hscene ▸ hkind, hmarked⟩
  · obtain ⟨⟨howner, hfinds⟩, -⟩ := h.holds_targetOf? htarget
    exact (hscenes _ owner howner).symbols binding hfinds.mem
  · obtain ⟨startup, id, hstartup, hkind, rfl⟩ := exists_of_mem_declaredScenes hname
    have htree : startup.tree.Named := (hscenes _ startup hstartup).tree
    rcases htree.isRun_of_isName hkind rfl with hrun | ⟨-, hmarked⟩
    · left
      rwa [Tree.name, String.toList_ofList]
    · exact .inr ⟨startup, id, hstartup, hkind, rfl, hmarked⟩

/-- Names are names: in the tree and the scopes of every source, and in every project. -/
theorem named_of_reachable [Addressing] (h : project.Reachable) (source : Text) (name uri : Option String) (levels : Levels) :
    (Scene.parse source name uri levels).Named ∧ (Scene.lookup source name uri levels).Named ∧ project.Named :=
  ⟨Scene.named_parse source name uri levels, Scene.named_lookup source name uri levels, named_of_coherent h.coherent⟩

/-- A startup scene that lists two scenes, the first with a second word behind its name. -/
def listing : Project :=
  (({} : Project).update ⟨⟨"file:///game/startup.txt"⟩, "*scene_list\n  foo bar\n  $baz\n".toList⟩).2

theorem reachable_listing : listing.Reachable := (Reachable.initial {}).update _

theorem named_of_reachable_listing : listing.Reachable ∧ listing.declaredScenes = ["foo bar", "baz"] ∧
    (∃ startup id, listing.startup? = some startup ∧ startup.tree.kind? id = some .sceneRef ∧
      startup.tree.name id = "foo bar" ∧ startup.tree.Misnamed id) ∧
    (Scene.parse "*label a b
*set c 
".toList none none {}).Named := by
  have hnamed := named_of_reachable reachable_listing "*label a b
*set c 
".toList none none {}
  have hlisted : listing.declaredScenes = ["foo bar", "baz"] := by decide +kernel
  refine ⟨reachable_listing, hlisted, ?_, hnamed.1⟩
  refine (hnamed.2.2.listed "foo bar" (by simp [hlisted])).resolve_left fun hrun => ?_
  exact absurd (hrun.unbroken ' ' (by decide)).1 (by decide)

/-- What follows the name of an entry in a list of scenes becomes part of the entry, and of the scene that the
project lists. -/
theorem listed_beyond_name :
    (¬∀ id, (Scene.parse "*scene_list\n  foo bar\n".toList none none {}).kind? id = some .sceneRef →
      ¬(Scene.parse "*scene_list\n  foo bar\n".toList none none {}).Carries .sceneNameExpected id →
        Text.IsRun ((Scene.parse "*scene_list\n  foo bar\n".toList none none {}).text id)) ∧
      ¬∀ name ∈ listing.declaredScenes, Text.IsRun name.toList := by
  constructor
  · intro h
    have hkind : (Scene.parse "*scene_list\n  foo bar\n".toList none none {}).kind? 5 = some .sceneRef := by
      decide +kernel
    have hrules : ((Scene.parse "*scene_list\n  foo bar\n".toList none none {}).issues 5).map (·.rule) =
        [.unexpectedToken] := by decide +kernel
    have htext : (Scene.parse "*scene_list\n  foo bar\n".toList none none {}).text 5 = "foo bar".toList := by
      decide +kernel
    have hrun := h 5 hkind ?_
    · rw [htext] at hrun
      exact absurd (hrun.unbroken ' ' (by decide)).1 (by decide)
    · rintro ⟨marker, hmarker, hrule⟩
      have hmem := List.mem_map_of_mem (f := (·.rule)) hmarker
      rw [hrules, hrule] at hmem
      exact absurd hmem (by decide)
  · intro h
    have hlisted : "foo bar" ∈ listing.declaredScenes := by decide +kernel
    exact absurd ((h _ hlisted).unbroken ' ' (by decide)).1 (by decide)

end Project

end Gamebook
