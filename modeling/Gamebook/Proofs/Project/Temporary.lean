import Gamebook.Proofs.Project.References
import Gamebook.Proofs.Scope.Creation

/-!
Variables of one scene. What is declared in a scene and is no variable of the whole game cannot be named from
another scene, and what it is in the project is what it is in the scene. So the references to a temporary variable
in the project are those in its scene, in the same order.
-/

namespace Gamebook

namespace Project

variable {project : Project} {entry other : Entry} {binding : Binding} {id : Nat} {scene name : String}

/-- What is declared as a variable of its scene is a variable, and no label. -/
theorem Coherent.referenceType_of_declaration [Addressing] (h : project.Coherent) (hentry : project.scene? scene = some entry)
    (hbinding : binding ∈ entry.scopes.allBindings) (hvariable : binding.symbol.declaration ≠ none) :
    binding.symbol.referenceType = .var := by
  rw [h.read scene entry hentry] at hbinding
  obtain ⟨_, hdeclared⟩ := Scope.exists_declared hbinding
  exact Scope.referenceType_of_mem_declared hdeclared hvariable

section Own

variable [Addressing] (h : project.Coherent) (hentry : project.scene? scene = some entry)
  (hlocal : binding.symbol.isGlobal = false) (hvariable : binding.symbol.referenceType = .var)
include h hentry hlocal hvariable

/-- A variable of a scene is what a name leads to just when the name stands in that scene and leads to it there. -/
theorem Coherent.targetOf?_eq_own_iff (hother : project.scene? name = some other) :
    project.targetOf? other id = some (.symbol entry binding) ↔
      other = entry ∧ entry.lookup.ofNode? id = some binding := by
  rw [targetOf?_eq_symbol_iff, Lookup.ofNode?_eq_some_iff]
  constructor
  · rintro ⟨node, hnode, ⟨hplain, hknown, hresolve⟩ | ⟨beside, _, hlabel⟩⟩
    · obtain ⟨found, hfound, ⟨rfl, hlookup⟩ | ⟨_, _, _, _, hglobal⟩⟩ := resolve_eq_some_iff.mp hresolve
      · obtain rfl : entry = other := by
          rw [h.entry_name hother, hother, Option.some.injEq] at hfound
          exact hfound.symm
        exact ⟨rfl, node, hnode, hplain, hknown, hlookup⟩
      · -- from another scene only variables of the whole game are seen
        have htest := List.find?_some hglobal
        rw [hlocal] at htest
        cases htest
    · obtain ⟨_, hlookup⟩ := labelIn_eq_some_iff.mp hlabel
      exact absurd (hvariable.symm.trans (Lookup.mem_of_find? hlookup).2.2) (by decide)
  · rintro ⟨rfl, node, hnode, hplain, hknown, hlookup⟩
    refine ⟨node, hnode, .inl ⟨hplain, hknown, resolve_eq_some_iff.mpr ⟨other, ?_, .inl ⟨rfl, hlookup⟩⟩⟩⟩
    rw [h.entry_name hother, hother]

variable (hheld : project.Holds (.symbol entry binding))
include hheld

/-- Other scenes contribute nothing to the references to it. -/
theorem Coherent.referencesIn_eq_nil (hother : project.scene? name = some other) (hdistinct : other ≠ entry) :
    project.referencesIn (.symbol entry binding) other = [] := by
  refine List.eq_nil_iff_forall_not_mem.mpr fun location hlocation => ?_
  obtain ⟨id, ⟨found, hfound, hsame⟩, _⟩ := mem_referencesIn.mp hlocation
  obtain rfl := eq_of_same (h.holds_targetOf? hfound).1 hheld hsame
  exact hdistinct ((h.targetOf?_eq_own_iff hentry hlocal hvariable hother).mp hfound).1

/-- Its scene contributes the references that the scene itself tells. -/
theorem Coherent.referencesIn_eq : project.referencesIn (.symbol entry binding) entry =
    (entry.lookup.references binding).map (Location.ofNode entry) := by
  rw [referencesIn, Lookup.references]
  refine congrArg _ (List.filter_congr fun id _ => ?_)
  rw [Bool.eq_iff_iff, Lookup.refersTo_iff hheld.2.mem, Option.any_eq_true]
  have hown : project.targetOf? entry id = some (.symbol entry binding) ↔ _ :=
    h.targetOf?_eq_own_iff hentry hlocal hvariable hentry
  constructor
  · rintro ⟨found, hfound, hsame⟩
    obtain rfl := eq_of_same (h.holds_targetOf? hfound).1 hheld hsame
    exact (hown.mp hfound).2
  · intro hfound
    exact ⟨_, hown.mpr ⟨rfl, hfound⟩, same_self _⟩

/-- So the references to it in the project are those in its scene. -/
theorem Coherent.flatMap_referencesIn : project.scenes.values.flatMap (project.referencesIn (.symbol entry binding)) =
    (entry.lookup.references binding).map (Location.ofNode entry) := by
  rw [← h.referencesIn_eq hentry hlocal hvariable hheld]
  refine h.ordered.flatMap_values hentry fun name other hname hother => ?_
  refine h.referencesIn_eq_nil hentry hlocal hvariable hheld hother ?_
  rintro rfl
  exact hname ((h.entry_name hother).symm.trans (h.entry_name hentry))

end Own

/-- Wherever a name leads to a temporary variable of its scene, the references to it in the project are those in the
scene, in the same order, and no other scene has one. -/
theorem references_temporary [Addressing] (h : project.Reachable) {node : Node} (hentry : project.scene? scene = some entry)
    (hnode : entry.tree.node? id = some node) (hfound : entry.lookup.ofNode? id = some binding)
    (htemporary : binding.symbol.declaration = some .temp) :
    project.references entry.uri node.offset = (entry.lookup.references binding).map (Location.ofNode entry) ∧
      ∀ location ∈ project.references entry.uri node.offset, ∀ name other, project.scene? name = some other →
        other.uri = location.uri → other = entry := by
  have hcoherent := h.coherent
  obtain ⟨_, _, _, _, hlookup⟩ := Lookup.ofNode?_eq_some_iff.mp hfound
  have hlocal : binding.symbol.isGlobal = false := by rw [Symbol.isGlobal, htemporary]; rfl
  have hvariable := hcoherent.referenceType_of_declaration hentry (Lookup.mem_of_find? hlookup).1
    (by rw [htemporary]; exact Option.some_ne_none _)
  have htarget := (hcoherent.targetOf?_eq_own_iff hentry hlocal hvariable hentry).mpr ⟨rfl, hfound⟩
  have hheld := (hcoherent.holds_targetOf? htarget).1
  have hback := hcoherent.targetAt?_ofNode hentry htarget
  rw [Location.ofNode_eq hnode] at hback
  have hreferences : project.references entry.uri node.offset =
      (entry.lookup.references binding).map (Location.ofNode entry) := by
    rw [references, show project.targetAt? entry.uri node.offset = some (.symbol entry binding) from hback]
    exact hcoherent.flatMap_referencesIn hentry hlocal hvariable hheld
  refine ⟨hreferences, fun location hlocation name other hother huri => ?_⟩
  rw [hreferences] at hlocation
  obtain ⟨_, _, rfl⟩ := List.mem_map.mp hlocation
  exact hcoherent.eq_of_uri hentry hother huri

/-- Two scenes that use a name, of which the first, the startup scene, creates a variable of that name for the whole
game and declares one of its own behind it. -/
def hiddenCreate : Project :=
  ((({} : Project).update ⟨⟨"file:///game/startup.txt"⟩, "*create x 1\n*temp x 2\n*set x 3\n".toList⟩).2.update
    ⟨⟨"file:///game/two.txt"⟩, "*set x 2\n".toList⟩).2

theorem reachable_hiddenCreate : hiddenCreate.Reachable := ((Reachable.initial {}).update _).update _

theorem references_temporary_hiddenCreate :
    hiddenCreate.Reachable ∧ ∃ entry node binding, hiddenCreate.scene? "startup" = some entry ∧
      entry.tree.node? 13 = some node ∧ entry.lookup.ofNode? 13 = some binding ∧
      binding.symbol.declaration = some .temp ∧
      hiddenCreate.references entry.uri node.offset =
        (entry.lookup.references binding).map (Location.ofNode entry) ∧
      ∀ location ∈ hiddenCreate.references entry.uri node.offset, ∀ name other,
        hiddenCreate.scene? name = some other → other.uri = location.uri → other = entry := by
  have hleads : (hiddenCreate.scene? "startup").any (fun entry =>
      (entry.tree.node? 13).isSome && (entry.lookup.ofNode? 13).any (·.symbol.declaration == some .temp)) = true := by
    decide +kernel
  obtain ⟨entry, hentry, hnode⟩ := (Option.any_eq_true _ _).mp hleads
  obtain ⟨hnode, hbinding⟩ := (Bool.and_eq_true _ _).mp hnode
  obtain ⟨node, hnode⟩ := Option.isSome_iff_exists.mp hnode
  obtain ⟨binding, hfound, htemporary⟩ := (Option.any_eq_true _ _).mp hbinding
  exact ⟨reachable_hiddenCreate, entry, node, binding, hentry, hnode, hfound, beq_iff_eq.mp htemporary,
    references_temporary reachable_hiddenCreate hentry hnode hfound (beq_iff_eq.mp htemporary)⟩

end Project

end Gamebook
