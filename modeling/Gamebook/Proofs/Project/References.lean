import Gamebook.Project.Navigation
import Gamebook.Proofs.Project.Tables
import Gamebook.Proofs.Scene.Names
import Gamebook.Proofs.Scope.Lookup

/-!
References in a project. The place of a name leads back to the name, and through it to what the name leads
to. So the references to something are a class: each of them leads to the same thing and has the same
references, and the name that one starts from is among them.
-/

namespace Gamebook

variable {project : Project} {entry : Entry} {id offset : Nat} {uri : Uri} {target other : Target}

namespace Entry

/-- A binding that a name in a scene can lead to, by lookup or as a variable of the whole game. -/
inductive Finds (entry : Entry) (binding : Binding) : Prop
  | lookup {name : String} {type : ReferenceType} {offset : Nat}
      (h : entry.lookup.find? name type offset = some binding)
  | global {name : String} (h : Project.global? entry name = some binding)

theorem Finds.mem {binding : Binding} (h : entry.Finds binding) : binding ∈ entry.scopes.allBindings := by
  cases h with
  | lookup hfound => exact (Lookup.mem_of_find? hfound).1
  | global hfound =>
      have hmem := List.mem_reverse.mp (List.mem_of_find?_eq_some hfound)
      rw [ScopeTree.mem_allBindings_iff, (ScopeTree.mem_bindings_iff.mp hmem).1]
      exact hmem

theorem bare_ofDocument (name : String) (document : Document) (levels : Levels) :
    (Entry.ofDocument name document levels).tree.bare =
      (Scene.parse document.text (some name) (some document.uri.text) levels).bare :=
  Scope.bare_build _

end Entry

theorem Location.ofNode_eq {node : Node} (hnode : entry.tree.node? id = some node) :
    ofNode entry id = ⟨entry.uri, node.offset, node.length⟩ := by
  rw [ofNode, hnode]
  rfl

namespace Project

/-- The tree of a scene of a project is the one that is read from its document, notes apart. -/
theorem Coherent.bare_tree [Addressing] (h : project.Coherent) {name : String} (hentry : project.scene? name = some entry) :
    entry.tree.bare =
      (Scene.parse entry.document.text (some name) (some entry.document.uri.text) project.settings.levels).bare := by
  conv_lhs => rw [h.read name entry hentry]
  exact Entry.bare_ofDocument _ _ _

/-- In a scene of a project the offset where a name starts leads to the name. -/
theorem Coherent.nodeAt?_name [Addressing] (h : project.Coherent) {name : String} (hentry : project.scene? name = some entry)
    {node : Node} (hnode : entry.tree.node? id = some node) (hname : node.kind.isName = true) :
    entry.tree.nodeAt? node.offset = some id := by
  have hbare := h.bare_tree hentry
  obtain ⟨other, hother, heq⟩ := Tree.exists_node?_of_bare_eq id hbare.symm hnode
  have hkind : other.bare.kind = node.bare.kind := congrArg Node.kind heq
  have hoffset : other.bare.offset = node.bare.offset := congrArg Node.offset heq
  rw [← Tree.nodeAt?_bare, hbare, Tree.nodeAt?_bare, ← show other.offset = node.offset from hoffset]
  exact Scene.nodeAt?_name hother (hkind ▸ hname)

/-! ### Targets -/

def Holds (project : Project) : Target → Prop
  | .symbol owner binding => project.scene? owner.name = some owner ∧ owner.Finds binding
  | .scene entry => project.scene? entry.name = some entry

theorem eq_of_same (htarget : project.Holds target) (hother : project.Holds other) (hsame : target.same other = true) :
    target = other := by
  cases target with
  | symbol owner binding =>
      cases other with
      | symbol owner' binding' =>
          rw [Target.same, Bool.and_eq_true, beq_iff_eq] at hsame
          obtain ⟨howner, hfinds⟩ := htarget
          obtain ⟨howner', hfinds'⟩ := hother
          rw [hsame.1, howner', Option.some.injEq] at howner
          subst howner
          rw [(ScopeTree.same_iff hfinds.mem hfinds'.mem).mp hsame.2]
      | scene entry => cases hsame
  | scene entry =>
      cases other with
      | symbol owner binding => cases hsame
      | scene entry' =>
          simp only [Target.same, beq_iff_eq] at hsame
          have hentry : project.scene? entry.name = some entry := htarget
          have hentry' : project.scene? entry'.name = some entry' := hother
          rw [hsame, hentry', Option.some.injEq] at hentry
          rw [hentry]

theorem same_self (target : Target) : target.same target = true := by
  cases target <;> simp [Target.same, Binding.same]

/-- A name stands for what its scene declares, or else, as a variable, for one of the whole game. -/
theorem resolve_eq_some_iff {scene name : String} {type : ReferenceType} {owner : Entry} {binding : Binding} :
    project.resolve scene name type offset = some (owner, binding) ↔ ∃ entry, project.scene? scene = some entry ∧
      (owner = entry ∧ entry.lookup.find? name type offset = some binding ∨
        entry.lookup.find? name type offset = none ∧ type = .var ∧ project.startup? = some owner ∧
          owner.name ≠ entry.name ∧ global? owner name = some binding) := by
  constructor
  · intro hfound
    unfold resolve at hfound
    split at hfound
    · cases hfound
    · rename_i entry hentry
      refine ⟨entry, hentry, ?_⟩
      split at hfound
      · rename_i hlookup
        cases hfound
        exact .inl ⟨rfl, hlookup⟩
      · rename_i hnone
        split at hfound
        · rename_i htype
          split at hfound
          · cases hfound
          · rename_i startup hstartup
            split at hfound
            · cases hfound
            · rename_i hother
              obtain ⟨found, hglobal, heq⟩ := Option.map_eq_some_iff.mp hfound
              cases heq
              exact .inr ⟨hnone, htype, hstartup, hother, hglobal⟩
        · cases hfound
  · rintro ⟨entry, hentry, ⟨rfl, hlookup⟩ | ⟨hnone, rfl, hstartup, hother, hglobal⟩⟩
    · simp only [resolve, hentry, hlookup]
    · simp only [resolve, hentry, hnone, if_true, hstartup, if_neg hother, hglobal, Option.map_some]

theorem Coherent.holds_resolve [Addressing] (h : project.Coherent) {scene name : String} {type : ReferenceType} {owner : Entry}
    {binding : Binding} (hfound : project.resolve scene name type offset = some (owner, binding)) :
    project.Holds (.symbol owner binding) := by
  obtain ⟨entry, hentry, ⟨rfl, hlookup⟩ | ⟨_, _, hstartup, _, hglobal⟩⟩ := resolve_eq_some_iff.mp hfound
  · exact ⟨(h.entry_name hentry).symm ▸ hentry, .lookup hlookup⟩
  · exact ⟨(h.entry_name hstartup).symm ▸ hstartup, .global hglobal⟩

theorem labelIn_eq_some_iff {scene label : String} {owner : Entry} {binding : Binding} :
    project.labelIn scene label = some (owner, binding) ↔
      project.scene? scene = some owner ∧ owner.lookup.find? label .label 0 = some binding := by
  rw [labelIn]
  cases project.scene? scene with
  | none => simp
  | some entry =>
      simp only [Option.map_eq_some_iff, Prod.mk.injEq, Option.some.injEq]
      constructor
      · rintro ⟨found, hfound, rfl, rfl⟩
        exact ⟨rfl, hfound⟩
      · rintro ⟨rfl, hfound⟩
        exact ⟨binding, hfound, rfl, rfl⟩

theorem Coherent.holds_labelIn [Addressing] (h : project.Coherent) {scene label : String} {owner : Entry} {binding : Binding}
    (hfound : project.labelIn scene label = some (owner, binding)) : project.Holds (.symbol owner binding) := by
  obtain ⟨hentry, hlookup⟩ := labelIn_eq_some_iff.mp hfound
  exact ⟨(h.entry_name hentry).symm ▸ hentry, .lookup hlookup⟩

/-- A name leads to a symbol by what it stands for in its scene, or as a label of the scene beside it. -/
theorem targetOf?_eq_symbol_iff {owner : Entry} {binding : Binding} :
    project.targetOf? entry id = some (.symbol owner binding) ↔
    ∃ node, entry.tree.node? id = some node ∧
      (Lookup.qualifier? entry.tree id = none ∧ node.kind.referenceType ≠ .unknown ∧
          project.resolve entry.name (entry.tree.name id) node.kind.referenceType node.offset = some (owner, binding) ∨
        ∃ beside, Lookup.qualifier? entry.tree id = some beside ∧
          project.labelIn (entry.tree.name beside) (entry.tree.name id) = some (owner, binding)) := by
  cases hnode : entry.tree.node? id with
  | none => simp [targetOf?, hnode]
  | some node =>
      have hkind? : entry.tree.kind? id = some node.kind := by rw [Tree.kind?, hnode]; rfl
      have hpair : ∀ {found : Option (Entry × Binding)},
          (found.map fun pair => Target.symbol pair.1 pair.2) = some (.symbol owner binding) ↔
            found = some (owner, binding) := by
        intro found
        rw [Option.map_eq_some_iff]
        constructor
        · rintro ⟨⟨_, _⟩, rfl, heq⟩
          cases heq
          rfl
        · rintro rfl
          exact ⟨_, rfl, rfl⟩
      simp only [targetOf?, hnode, Option.some.injEq, exists_eq_left']
      cases hkind : node.kind with
      | var =>
          have hplain : Lookup.qualifier? entry.tree id = none := by simp [Lookup.qualifier?, hkind?, hkind]
          simp [hplain, hpair, Kind.referenceType]
      | label =>
          cases hqualifier : Lookup.qualifier? entry.tree id with
          | none => simp [hpair, Kind.referenceType]
          | some beside => simp [hpair]
      | _ =>
          have hplain : Lookup.qualifier? entry.tree id = none := by simp [Lookup.qualifier?, hkind?, hkind]
          simp [hplain, Kind.referenceType]

/-- Only names lead to something, and what they lead to belongs to the project. -/
theorem Coherent.holds_targetOf? [Addressing] (h : project.Coherent) (hfound : project.targetOf? entry id = some target) :
    project.Holds target ∧ ∃ node, entry.tree.node? id = some node ∧ node.kind.isName = true := by
  unfold targetOf? at hfound
  dsimp only at hfound
  split at hfound
  · cases hfound
  · rename_i node hnode
    refine ⟨?_, node, hnode, ?_⟩
    · split at hfound
      · obtain ⟨scene, hscene, rfl⟩ := Option.map_eq_some_iff.mp hfound
        show project.scene? scene.name = some scene
        rwa [h.entry_name hscene]
      · obtain ⟨⟨owner, binding⟩, hsymbol, rfl⟩ := Option.map_eq_some_iff.mp hfound
        split at hsymbol
        · exact h.holds_resolve hsymbol
        · split at hsymbol
          · exact h.holds_labelIn hsymbol
          · exact h.holds_resolve hsymbol
        · cases hsymbol
    · cases hkind : node.kind <;> first | rfl | simp [hkind] at hfound

/-- The place of a name leads to what the name leads to. -/
theorem Coherent.targetAt?_ofNode [Addressing] (h : project.Coherent) {name : String} (hentry : project.scene? name = some entry)
    (hfound : project.targetOf? entry id = some target) :
    project.targetAt? (Location.ofNode entry id).uri (Location.ofNode entry id).offset = some target := by
  obtain ⟨_, node, hnode, hname⟩ := h.holds_targetOf? hfound
  have hcursor : cursor? entry node.offset = some id := by
    have hkind : entry.tree.kind? id = some node.kind := by rw [Tree.kind?, hnode]; rfl
    have hother : entry.tree.kind? id ≠ some .labelRef := by
      rw [hkind, Ne, Option.some.injEq]
      rintro heq
      rw [heq] at hname
      cases hname
    rw [cursor?, h.nodeAt?_name hentry hnode hname]
    exact if_neg hother
  rw [Location.ofNode_eq hnode, targetAt?, h.sceneAt?_uri hentry]
  dsimp only
  rw [hcursor, Option.bind_some, hfound]

theorem mem_referencesIn {location : Location} : location ∈ project.referencesIn target entry ↔
    ∃ id, (∃ found, project.targetOf? entry id = some found ∧ found.same target = true) ∧
      Location.ofNode entry id = location := by
  simp only [referencesIn, List.mem_map, List.mem_filter, Option.any_eq_true]
  constructor
  · rintro ⟨id, ⟨_, hfound⟩, heq⟩
    exact ⟨id, hfound, heq⟩
  · rintro ⟨id, ⟨found, hfound, hsame⟩, heq⟩
    refine ⟨id, ⟨?_, found, hfound, hsame⟩, heq⟩
    rw [Tree.ids, List.mem_range]
    by_contra hnot
    have hnone : entry.tree.node? id = none := Array.getElem?_eq_none (Nat.not_lt.mp hnot)
    simp [targetOf?, hnone] at hfound

/-- The name that a target is found from. -/
theorem exists_cursor (htarget : project.targetAt? uri offset = some target) :
    ∃ name entry id, project.scene? name = some entry ∧ project.sceneAt? uri = some entry ∧
      cursor? entry offset = some id ∧ project.targetOf? entry id = some target := by
  unfold targetAt? at htarget
  split at htarget
  · cases htarget
  · rename_i entry hentry
    obtain ⟨id, hid, hfound⟩ := Option.bind_eq_some_iff.mp htarget
    obtain ⟨name, _, hscene⟩ := Option.bind_eq_some_iff.mp hentry
    exact ⟨name, entry, id, hscene, hentry, hid, hfound⟩

/-- The references are the places of all names in the project that lead to the target. -/
theorem Coherent.mem_references_iff [Addressing] (h : project.Coherent) (htarget : project.targetAt? uri offset = some target)
    {location : Location} : location ∈ project.references uri offset ↔
      ∃ name entry id, project.scene? name = some entry ∧ project.targetOf? entry id = some target ∧
        Location.ofNode entry id = location := by
  obtain ⟨_, _, _, _, _, _, hcursor⟩ := exists_cursor htarget
  have hheld := (h.holds_targetOf? hcursor).1
  simp only [references, htarget, List.mem_flatMap, h.mem_scenes_iff, mem_referencesIn]
  constructor
  · rintro ⟨entry, ⟨name, hentry⟩, id, ⟨found, hfound, hsame⟩, heq⟩
    obtain rfl := eq_of_same (h.holds_targetOf? hfound).1 hheld hsame
    exact ⟨name, entry, id, hentry, hfound, heq⟩
  · rintro ⟨name, entry, id, hentry, hfound, heq⟩
    exact ⟨entry, ⟨name, hentry⟩, id, ⟨target, hfound, same_self target⟩, heq⟩

/-- The references to what a name leads to are a class. The name is one of them, each one is declared where
the name is and has the same references, and a name that leads nowhere has none. -/
theorem references_class [Addressing] (h : project.Reachable) (uri : Uri) (offset : Nat) :
    (project.definition? uri offset = none → project.references uri offset = []) ∧
      ∀ location, project.definition? uri offset = some location →
        (∃ entry id, project.sceneAt? uri = some entry ∧ cursor? entry offset = some id ∧
          (entry.tree.kind? id).any Kind.isName = true ∧
          Location.ofNode entry id ∈ project.references uri offset) ∧
        ∀ found ∈ project.references uri offset, project.definition? found.uri found.offset = some location ∧
          project.references found.uri found.offset = project.references uri offset := by
  have hcoherent := h.coherent
  cases htarget : project.targetAt? uri offset with
  | none => simp [definition?, references, htarget]
  | some target =>
      have hdefined : project.definition? uri offset = some target.location := by rw [definition?, htarget]; rfl
      rw [hdefined]
      refine ⟨nofun, ?_⟩
      rintro _ ⟨rfl⟩
      constructor
      · obtain ⟨name, entry, id, hscene, hentry, hcursor, hfound⟩ := exists_cursor htarget
        obtain ⟨_, node, hnode, hname⟩ := hcoherent.holds_targetOf? hfound
        refine ⟨entry, id, hentry, hcursor, ?_, ?_⟩
        · rw [Tree.kind?, hnode]
          exact hname
        · exact (hcoherent.mem_references_iff htarget).mpr ⟨name, entry, id, hscene, hfound, rfl⟩
      · intro location hlocation
        obtain ⟨name, entry, id, hentry, hfound, rfl⟩ := (hcoherent.mem_references_iff htarget).mp hlocation
        have hback := hcoherent.targetAt?_ofNode hentry hfound
        refine ⟨?_, ?_⟩
        · rw [definition?, hback]
          rfl
        · rw [references, hback, references, htarget]

/-- Two scenes, of which the second uses a variable that the first creates. -/
def twoScenes : Project :=
  ((({} : Project).update ⟨⟨"file:///game/startup.txt"⟩, "*create x 1\n*goto_scene two l\n".toList⟩).2.update
    ⟨⟨"file:///game/two.txt"⟩, "*label l\n*set x 2\n".toList⟩).2

theorem reachable_twoScenes : twoScenes.Reachable := ((Reachable.initial {}).update _).update _

theorem references_class_twoScenes :
    twoScenes.Reachable ∧
      twoScenes.definition? ⟨"file:///game/two.txt"⟩ 14 = some ⟨⟨"file:///game/startup.txt"⟩, 8, 1⟩ ∧
      ∀ found ∈ twoScenes.references ⟨"file:///game/two.txt"⟩ 14,
        twoScenes.definition? found.uri found.offset = some ⟨⟨"file:///game/startup.txt"⟩, 8, 1⟩ ∧
          twoScenes.references found.uri found.offset = twoScenes.references ⟨"file:///game/two.txt"⟩ 14 :=
  have hdefined : twoScenes.definition? ⟨"file:///game/two.txt"⟩ 14 =
      some ⟨⟨"file:///game/startup.txt"⟩, 8, 1⟩ := by decide +kernel
  ⟨reachable_twoScenes, hdefined, ((references_class reachable_twoScenes _ _).2 _ hdefined).2⟩

end Project

end Gamebook
