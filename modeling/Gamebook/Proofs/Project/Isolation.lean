import Gamebook.Proofs.Project.References
import Gamebook.Proofs.Scene.Creation

/-!
Scenes apart from each other. A name that its own scene does not declare can only be a variable of the whole
game, and stands for the last one of its name that the startup scene creates. So what a name stands for is told
by the document of its scene and by what the startup scene creates; whatever else the scenes hold stays theirs.
-/

namespace Gamebook.Project

variable {project other : Project} {entry owner : Entry} {binding : Binding} {scene name : String}
  {type : ReferenceType} {offset : Nat}

/-- The variables of the whole game that the startup scene creates. -/
def created (project : Project) : List Creation := (project.startup?.map (·.tree.creations)).getD []

/-- What can be told of what a name stands for: the scene that declares it, its name and the text of its value. -/
def meaning (project : Project) (scene name : String) (type : ReferenceType) (offset : Nat) :
    Option (String × String × Option String) :=
  (project.resolve scene name type offset).map fun found =>
    (found.1.name, found.2.symbol.name, found.2.symbol.value)

/-- From a scene the projects look alike: the document of the scene is the same, if there is one, and the startup
scenes create the same variables with the same values. -/
structure AlikeFrom (scene : String) (project other : Project) : Prop where
  settings : other.settings = project.settings
  document : (other.scene? scene).map (·.document) = (project.scene? scene).map (·.document)
  created : other.created.map Creation.said = project.created.map Creation.said

/-- Scenes are apart from each other. What a name stands for in another scene is the last variable of its name
that the startup scene creates; it is that if its own scene declares nothing else; and what else the scenes hold
does not matter. -/
structure Isolated [Addressing] (project : Project) : Prop where
  foreign : ∀ scene name type offset owner binding,
    project.resolve scene name type offset = some (owner, binding) → owner.name ≠ scene →
      project.startup? = some owner ∧ type = .var ∧
        (∃ entry, project.scene? scene = some entry ∧ entry.lookup.find? name type offset = none) ∧
        binding.symbol.name = name ∧ owner.tree.LastCreation binding.symbol.creation
  shared : ∀ scene name offset entry startup id creation,
    project.scene? scene = some entry → scene ≠ project.settings.startupScene →
      entry.lookup.find? name .var offset = none → project.startup? = some startup →
        startup.tree.creation? id = some creation → creation.name = name →
          ∃ binding, project.resolve scene name .var offset = some (startup, binding) ∧
            binding.symbol.name = name ∧ startup.tree.LastCreation binding.symbol.creation
  apart : ∀ other scene, other.Reachable → AlikeFrom scene project other →
    ∀ name type offset, other.meaning scene name type offset = project.meaning scene name type offset

/-! ### The variables of the startup scene -/

/-- Looking for a variable of the whole game goes through the symbols from the last one on. -/
theorem global?_symbol (entry : Entry) (name : String) :
    (global? entry name).map (·.symbol) = entry.scopes.globals.reverse.find? (·.name == name) := by
  have hsymbols : (entry.scopes.bindings ScopeTree.root).map (·.symbol) =
      (entry.scopes.symbols ScopeTree.root).toList := by
    rw [ScopeTree.bindings, List.map_map]
    exact List.zipIdx_map_fst 0 _
  rw [ScopeTree.globals, ← List.filter_reverse, List.find?_filter, ← hsymbols, ← List.map_reverse, List.find?_map,
    global?]
  refine congrArg (Option.map _) (congrArg (List.find? · _) (funext fun binding => ?_))
  rw [Function.comp_apply, Bool.decide_and, Bool.decide_eq_true, Bool.decide_eq_true]

theorem Coherent.successive [Addressing] (h : project.Coherent) (hentry : project.scene? scene = some entry) :
    entry.tree.Successive := by
  rw [← Tree.successive_bare, h.bare_tree hentry, Tree.successive_bare]
  exact Scene.successive_parse _ _ _ _

/-- What is bound in the root are the variables that the nodes of the tree create. -/
theorem Coherent.creations_eq [Addressing] (h : project.Coherent) (hentry : project.scene? scene = some entry) :
    entry.scopes.globals.map Symbol.creation = entry.tree.creations := by
  rw [← Tree.creations_bare, h.bare_tree hentry, Tree.creations_bare, ← Scope.creations_build]
  conv_lhs => rw [h.read scene entry hentry]
  rfl

theorem Coherent.global?_creation [Addressing] (h : project.Coherent) (hentry : project.scene? scene = some entry)
    (name : String) :
    (global? entry name).map (·.symbol.creation) = entry.tree.creations.reverse.find? (·.name == name) := by
  rw [← h.creations_eq hentry, ← List.map_reverse, List.find?_map, Function.comp_def]
  show _ = (entry.scopes.globals.reverse.find? (·.name == name)).map Symbol.creation
  rw [← global?_symbol, Option.map_map]
  rfl

/-- A variable of the whole game is the last one of its name that its scene creates. -/
theorem Coherent.last_of_global? [Addressing] (h : project.Coherent) (hentry : project.scene? scene = some entry)
    (hglobal : global? entry name = some binding) :
    binding.symbol.name = name ∧ entry.tree.LastCreation binding.symbol.creation := by
  have hlast := h.global?_creation hentry name
  rw [hglobal] at hlast
  exact (h.successive hentry).find?_eq_some_iff.mp hlast.symm

/-! ### What is seen of them -/

theorem Coherent.startup_name_ne [Addressing] (h : project.Coherent) (hentry : project.scene? scene = some entry)
    (hscene : scene ≠ project.settings.startupScene) (hstartup : project.startup? = some owner) :
    owner.name ≠ entry.name := by
  rw [h.entry_name hstartup, h.entry_name hentry]
  exact hscene.symm

/-- A name that its scene does not declare stands for what the startup scene creates under it. -/
theorem Coherent.meaning_eq [Addressing] (h : project.Coherent) (hentry : project.scene? scene = some entry)
    (hscene : scene ≠ project.settings.startupScene) (hnone : entry.lookup.find? name .var offset = none) :
    project.meaning scene name .var offset =
      ((project.created.map Creation.said).reverse.find? (·.1 == name)).map fun said =>
        (project.settings.startupScene, said) := by
  rw [created, ← List.map_reverse, List.find?_map]
  cases hstartup : project.startup? with
  | none =>
      have hresolve : project.resolve scene name .var offset = none := by
        simp only [resolve, hentry, hnone, if_true, hstartup]
      rw [meaning, hresolve]
      rfl
  | some startup =>
      have hother := h.startup_name_ne hentry hscene hstartup
      have hresolve : project.resolve scene name .var offset =
          (global? startup name).map fun binding => (startup, binding) := by
        simp only [resolve, hentry, hnone, if_true, hstartup, if_neg hother]
      have hlast := h.global?_creation hstartup name
      rw [meaning, hresolve, Option.map_map, Option.map_some, Option.getD_some]
      show _ = ((startup.tree.creations.reverse.find? (·.name == name)).map Creation.said).map _
      rw [← hlast, Option.map_map, Option.map_map, ← h.entry_name hstartup]
      rfl

/-- The startup scene sees no variables but its own. -/
theorem resolve_startup (hentry : project.startup? = some entry)
    (hnone : entry.lookup.find? name type offset = none) :
    project.resolve project.settings.startupScene name type offset = none := by
  refine Option.eq_none_iff_forall_ne_some.mpr fun found hfound => ?_
  obtain ⟨entry', hentry', ⟨rfl, hlookup⟩ | ⟨_, _, hstartup, hother, _⟩⟩ := resolve_eq_some_iff.mp hfound
  · have hown : found.1 = entry := Option.some.inj (hentry'.symm.trans hentry)
    rw [hown, hnone] at hlookup
    cases hlookup
  · exact hother (congrArg Entry.name (Option.some.inj (hstartup.symm.trans hentry')))

/-- What a name stands for is told by the document of its scene and by what the startup scene creates. -/
theorem Coherent.meaning_congr [Addressing] (h : project.Coherent) (hother : other.Coherent)
    (halike : AlikeFrom scene project other) (name : String) (type : ReferenceType) (offset : Nat) :
    other.meaning scene name type offset = project.meaning scene name type offset := by
  cases hentry : project.scene? scene with
  | none =>
      have hnone : other.scene? scene = none := by
        have hdocument := halike.document
        rwa [hentry, Option.map_none, Option.map_eq_none_iff] at hdocument
      simp only [meaning, resolve, hentry, hnone]
  | some entry =>
      obtain ⟨entry', hentry', hdocument⟩ : ∃ entry', other.scene? scene = some entry' ∧
          entry'.document = entry.document := by
        have hdocument := halike.document
        rw [hentry] at hdocument
        exact Option.map_eq_some_iff.mp hdocument
      -- both scenes are read from one document, so they are one
      obtain rfl : entry' = entry := by
        rw [hother.read scene entry' hentry', h.read scene entry hentry, hdocument, halike.settings]
      cases hfound : entry'.lookup.find? name type offset with
      | some binding => simp only [meaning, resolve, hentry, hentry', hfound]
      | none =>
          by_cases htype : type = .var
          · subst htype
            by_cases hscene : scene = project.settings.startupScene
            · subst hscene
              have hstartup : other.startup? = some entry' := by rwa [startup?, halike.settings]
              rw [meaning, meaning, resolve_startup hentry hfound, ← halike.settings,
                resolve_startup hstartup hfound]
            · rw [h.meaning_eq hentry hscene hfound,
                hother.meaning_eq hentry' (halike.settings ▸ hscene) hfound, halike.created, halike.settings]
          · simp only [meaning, resolve, hentry, hentry', hfound, if_neg htype]

theorem isolated_of_reachable [Addressing] (h : project.Reachable) : project.Isolated where
  foreign := by
    intro scene name type offset owner binding hresolve hother
    obtain ⟨entry, hentry, ⟨rfl, _⟩ | ⟨hnone, rfl, hstartup, _, hglobal⟩⟩ := resolve_eq_some_iff.mp hresolve
    · exact absurd (h.coherent.entry_name hentry) hother
    · exact ⟨hstartup, rfl, ⟨entry, hentry, hnone⟩, h.coherent.last_of_global? hstartup hglobal⟩
  shared := by
    intro scene name offset entry startup id creation hentry hscene hnone hstartup hcreation hname
    obtain ⟨last, hlast⟩ := (h.coherent.successive hstartup).exists_find? hcreation
    rw [hname, ← h.coherent.global?_creation hstartup] at hlast
    obtain ⟨binding, hglobal, _⟩ := Option.map_eq_some_iff.mp hlast
    have hother := h.coherent.startup_name_ne hentry hscene hstartup
    exact ⟨binding, resolve_eq_some_iff.mpr ⟨entry, hentry, .inr ⟨hnone, rfl, hstartup, hother, hglobal⟩⟩,
      h.coherent.last_of_global? hstartup hglobal⟩
  apart := fun other scene hother halike => h.coherent.meaning_congr hother.coherent halike

/-- A scene that uses a variable, beside a startup scene that creates it in a branch where another one of its name
is declared, and beside a scene that creates one of that name as well. -/
def threeScenes : Project :=
  (((({} : Project).update ⟨⟨"file:///game/three.txt"⟩, "*create x 7\n".toList⟩).2.update
    ⟨⟨"file:///game/startup.txt"⟩, "*if y\n  *create x 1\n  *temp x 2\n".toList⟩).2.update
    ⟨⟨"file:///game/two.txt"⟩, "*label l\n*set x 2\n".toList⟩).2

theorem reachable_threeScenes : threeScenes.Reachable := (((Reachable.initial {}).update _).update _).update _

theorem isolated_threeScenes :
    threeScenes.Reachable ∧ twoScenes.Reachable ∧ AlikeFrom "two" threeScenes twoScenes ∧
      (∃ owner binding, threeScenes.resolve "two" "x" .var 14 = some (owner, binding) ∧ owner.name ≠ "two" ∧
        threeScenes.startup? = some owner ∧ owner.tree.LastCreation binding.symbol.creation) ∧
      twoScenes.meaning "two" "x" .var 14 = threeScenes.meaning "two" "x" .var 14 := by
  have hisolated := isolated_of_reachable reachable_threeScenes
  have hsettings : twoScenes.settings = threeScenes.settings := by
    rw [twoScenes, threeScenes]
    simp only [settings_update]
  have halike : AlikeFrom "two" threeScenes twoScenes := ⟨hsettings, by decide +kernel, by decide +kernel⟩
  have hfound : (threeScenes.resolve "two" "x" .var 14).any (fun found => found.1.name != "two") = true := by
    decide +kernel
  obtain ⟨⟨owner, binding⟩, hresolve, hname⟩ := (Option.any_eq_true _ _).mp hfound
  have hother : owner.name ≠ "two" := bne_iff_ne.mp hname
  obtain ⟨hstartup, _, _, _, hlast⟩ := hisolated.foreign _ _ _ _ _ _ hresolve hother
  exact ⟨reachable_threeScenes, reachable_twoScenes, halike, ⟨owner, binding, hresolve, hother, hstartup, hlast⟩,
    hisolated.apart _ _ reachable_twoScenes halike _ _ _⟩

end Gamebook.Project
