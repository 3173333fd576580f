import Gamebook.Proofs.Project.References
import Gamebook.Proofs.Scene.Declaration

/-!
Definitions among the references. Where a name leads to a symbol, the place where that is declared is one of
the references, unless the symbol is hidden from its own declaration.
-/

namespace Gamebook

variable {project : Project} {owner entry : Entry} {binding : Binding} {id offset : Nat} {uri : Uri}

/-- Of the names below a declaring node the first one is where the symbol is. -/
theorem Target.exists_declaration (h : ∃ id, binding.symbol.NamedBy owner.tree id) :
    ∃ id, binding.symbol.NamedBy owner.tree id ∧ declaration owner binding.symbol = .ofNode owner id := by
  obtain ⟨id, hid⟩ := h
  have hnames : ∀ id, ((owner.tree.kind? id == some .var || owner.tree.kind? id == some .label) &&
      owner.tree.name id == binding.symbol.name) = true ↔
        (owner.tree.kind? id = some .var ∨ owner.tree.kind? id = some .label) ∧
          owner.tree.name id = binding.symbol.name := by
    intro id
    rw [Bool.and_eq_true, Bool.or_eq_true, beq_iff_eq, beq_iff_eq, beq_iff_eq]
  rw [declaration]
  cases hfound : (owner.tree.children binding.symbol.node).find? fun id =>
      (owner.tree.kind? id == some .var || owner.tree.kind? id == some .label) &&
        owner.tree.name id == binding.symbol.name with
  | none => exact absurd ((hnames id).mpr ⟨hid.kind, hid.text⟩) (List.find?_eq_none.mp hfound id hid.child)
  | some first =>
      have htest := List.find?_some hfound
      obtain ⟨hkind, htext⟩ := (hnames first).mp htest
      exact ⟨first, ⟨List.mem_of_find?_eq_some hfound, hkind, htext⟩, rfl⟩

namespace Project

/-- The scene of a document in a project is read and its scopes are built as they are without a project. -/
theorem Coherent.lookup_eq [Addressing] (h : project.Coherent) {name : String} (hentry : project.scene? name = some entry) :
    entry.lookup = Scene.lookup entry.document.text (some name) (some entry.document.uri.text)
      project.settings.levels := by
  conv_lhs => rw [h.read name entry hentry]
  rfl

theorem Coherent.lastOfNode [Addressing] (h : project.Coherent) (howner : project.scene? owner.name = some owner)
    (hsize : Text.bytes owner.document.text ≤ maxOffset) (hfinds : owner.Finds binding) :
    owner.scopes.LastOfNode binding := by
  have hlookup := h.lookup_eq howner
  cases hfinds with
  | lookup hfound =>
      rw [hlookup] at hfound
      rw [Entry.scopes, hlookup]
      exact Scene.lastOfNode_of_find? hsize hfound
  | global hfound =>
      rw [global?, Entry.scopes, hlookup, Scene.scopes_lookup _ _ _ hsize] at hfound
      rw [Entry.scopes, hlookup, Scene.scopes_lookup _ _ _ hsize]
      exact Scope.lastOfNode_of_global rfl hfound

/-- A name that leads back in its scene does so in the project. -/
theorem targetOf?_of_returns {node : Node} (howner : project.scene? owner.name = some owner)
    (h : owner.lookup.Returns binding id node) (hid : binding.symbol.NamedBy owner.tree id) :
    ∃ found, project.targetOf? owner id = some (.symbol owner found) ∧
      (found = binding ↔ ¬owner.scopes.Hidden binding) := by
  obtain ⟨found, hfound, hsame⟩ := h.found
  rw [← hid.text, ← h.type] at hfound
  have hresolved := resolve_eq_some_iff.mpr ⟨owner, howner, .inl ⟨rfl, hfound⟩⟩
  exact ⟨found, targetOf?_eq_symbol_iff.mpr ⟨node, h.here, .inl ⟨h.unqualified, hid.known h.here, hresolved⟩⟩, hsame⟩

/-- The place where a symbol is declared is a reference to it just when the symbol is not hidden there. -/
theorem Coherent.location_mem_references_iff [Addressing] (h : project.Coherent)
    (htarget : project.targetAt? uri offset = some (.symbol owner binding))
    (hsize : Text.bytes owner.document.text ≤ maxOffset) :
    Target.location (.symbol owner binding) ∈ project.references uri offset ↔ ¬owner.scopes.Hidden binding := by
  obtain ⟨_, _, _, _, _, _, hcursor⟩ := exists_cursor htarget
  obtain ⟨⟨howner, hfinds⟩, _⟩ := h.holds_targetOf? hcursor
  have hlast := h.lastOfNode howner hsize hfinds
  have hlookup := h.lookup_eq howner
  have hbinding := hfinds.mem
  rw [Entry.scopes, hlookup] at hlast hbinding
  have hnamed := Scene.exists_namedBy hsize hbinding
  rw [← hlookup] at hnamed
  obtain ⟨id, hid, hlocation⟩ := Target.exists_declaration hnamed
  have hread := hid
  rw [Entry.tree, hlookup] at hread
  obtain ⟨node, hreturns⟩ := Scene.exists_returns hsize hbinding hlast hread
  rw [← hlookup] at hreturns
  obtain ⟨found, hown, hsame⟩ := targetOf?_of_returns howner hreturns hid
  rw [h.mem_references_iff htarget, ← hsame]
  constructor
  · rintro ⟨name, entry, other, hentry, hother, heq⟩
    have hback := h.targetAt?_ofNode hentry hother
    rw [heq, Target.location, hlocation, h.targetAt?_ofNode howner hown] at hback
    cases hback
    rfl
  · rintro rfl
    exact ⟨owner.name, owner, id, howner, hown, hlocation.symm⟩

/-- Whatever the project, the place where a symbol is declared is one of the references to it, unless the symbol
is hidden there; and whatever the scene, so are the names in its declarations. -/
theorem declaration_referenced [Addressing] (project : Project) (source : Text) (name address : Option String)
    (levels : Levels) :
    (project.Reachable → ∀ uri offset owner binding,
      project.targetAt? uri offset = some (.symbol owner binding) → Text.bytes owner.document.text ≤ maxOffset →
        ∃ location, project.definition? uri offset = some location ∧
          (location ∈ project.references uri offset ↔ ¬owner.scopes.Hidden binding)) ∧
      (Text.bytes source ≤ maxOffset → (Scene.lookup source name address levels).DeclarationsReferenced) := by
  constructor
  · intro hreachable uri offset owner binding htarget hsize
    refine ⟨Target.location (.symbol owner binding), ?_,
      hreachable.coherent.location_mem_references_iff htarget hsize⟩
    rw [definition?, htarget, Option.map_some]
  · exact Scene.declarationsReferenced_lookup name address levels

theorem declaration_referenced_twoScenes :
    (∃ owner binding, twoScenes.targetAt? ⟨"file:///game/two.txt"⟩ 14 = some (.symbol owner binding) ∧
      ∃ location, twoScenes.definition? ⟨"file:///game/two.txt"⟩ 14 = some location ∧
        (location ∈ twoScenes.references ⟨"file:///game/two.txt"⟩ 14 ↔ ¬owner.scopes.Hidden binding)) ∧
      Text.bytes "*create x 1\n*goto_scene two l\n".toList ≤ maxOffset ∧
        (Scene.lookup "*create x 1\n*goto_scene two l\n".toList none none {}).DeclarationsReferenced := by
  have hsize : Text.bytes "*create x 1\n*goto_scene two l\n".toList ≤ maxOffset := by decide
  have hreferenced := declaration_referenced twoScenes "*create x 1\n*goto_scene two l\n".toList none none {}
  let fits (target : Target) : Bool :=
    target.casesOn (fun owner _ => decide (Text.bytes owner.document.text ≤ maxOffset)) fun _ => false
  have hfits : (twoScenes.targetAt? ⟨"file:///game/two.txt"⟩ 14).any fits = true := by decide +kernel
  obtain ⟨target, htarget, hsymbol⟩ := (Option.any_eq_true _ _).mp hfits
  cases target with
  | scene entry => cases hsymbol
  | symbol owner binding =>
      exact ⟨⟨owner, binding, htarget, hreferenced.1 reachable_twoScenes _ _ owner binding htarget
        (of_decide_eq_true hsymbol)⟩, hsize, hreferenced.2 hsize⟩

/-- A variable of the whole game that is created where another one of its name is in scope. -/
theorem create_hidden :
    ∃ binding, (Scene.lookup "*if true\n  *temp x 1\n  *create x 2\n*set x 3\n".toList none none {}).find?
        "x" .var 42 = some binding ∧
      binding.symbol.NamedBy
        (Scene.lookup "*if true\n  *temp x 1\n  *create x 2\n*set x 3\n".toList none none {}).tree 14 ∧
      14 ∉ (Scene.lookup "*if true\n  *temp x 1\n  *create x 2\n*set x 3\n".toList none none {}).references
        binding := by
  refine ⟨⟨0, 0, ⟨"x", some "2", .var, 13, 23, .number, some .create⟩⟩, ?_, ⟨?_, .inl ?_, ?_⟩, ?_⟩ <;> decide +kernel

end Project

end Gamebook
