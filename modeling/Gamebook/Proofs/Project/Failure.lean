import Gamebook.Proofs.Project.History

/-!
What a failed operation leaves behind. When an identifier lies in no directory, nothing is indexed and the project
stays as it is, whatever documents come with it. A document that holds no scene leaves its scenes, names and
settings alone as well; but the directory of such a document becomes the root of a project that has none yet. Only
the root tells such a project from the one before: no operation asks for it, and the next one that indexes the
documents of a directory sets it anew.
-/

namespace Gamebook.Project

variable {project left right : Project} {document : Document} {error : ProjectError}

section Addressed

variable [Addressing]

def SameButRoot (left right : Project) : Prop := left = { right with root := left.root }

/-! ### Operations on a project with another root -/

theorem index_of_root (project : Project) (root : Option Uri) (document : Document) :
    ({ project with root } : Project).index document =
      ((project.index document).1, { (project.index document).2 with root }) := by
  delta index
  dsimp only
  split <;> rfl

theorem indexWithin_of_root (project : Project) (root : Option Uri) (directory : Uri) (documents : List Document) :
    ({ project with root } : Project).indexWithin directory documents =
      ((project.indexWithin directory documents).1, { (project.indexWithin directory documents).2 with root }) := by
  rw [indexWithin, indexWithin]
  generalize 0 = indexed
  induction documents generalizing indexed project with
  | nil => rfl
  | cons document more ih =>
      rw [List.foldl_cons, List.foldl_cons]
      dsimp only
      cases document.uri.isWithin directory with
      | false => exact ih project indexed
      | true =>
          rw [if_pos rfl, if_pos rfl, index_of_root]
          generalize project.index document = outcome
          obtain ⟨found, next⟩ := outcome
          cases found <;> exact ih next _

theorem indexAll_of_root (project : Project) (root : Option Uri) (uri : Uri) (documents : List Document) :
    ({ project with root } : Project).indexAll uri documents = ((project.indexAll uri documents).1,
      { (project.indexAll uri documents).2 with root := (Addressing.directory? uri).or root }) := by
  rw [indexAll, indexAll]
  cases Addressing.directory? uri with
  | none => rfl
  | some directory =>
      dsimp only
      rw [indexWithin_of_root]
      rfl

omit [Addressing] in
theorem remove_of_root (project : Project) (root : Option Uri) (uri : Uri) :
    (({ project with root } : Project).remove uri).2 = { (project.remove uri).2 with root } := by
  rw [Project.remove, Project.remove]
  dsimp only
  split <;> rfl

/-- An update indexes the document, and settles the root whether or not there is a scene in it. -/
theorem update_eq (project : Project) (document : Document) :
    project.update document = ((project.index document).1,
      { (project.index document).2 with root := project.root.or (Addressing.directory? document.uri) }) := by
  refine (index_of_root project _ document).trans ?_
  cases project.root <;> rfl

theorem index_error_iff : (project.index document).1 = .error error ↔
    document.sceneName? project.settings.sceneExtension = none ∧ error = .notScene document.uri := by
  delta index
  dsimp only
  split
  · rename_i hname
    simp [hname, eq_comm]
  · rename_i name hname
    simp [hname]

theorem index_of_error (h : (project.index document).1 = .error error) : (project.index document).2 = project := by
  obtain ⟨hnone, -⟩ := index_error_iff.mp h
  rcases project.index_cases document with ⟨-, heq⟩ | ⟨name, hname, -⟩
  · exact heq
  · rw [hnone] at hname
    cases hname

/-! ### Histories -/

theorem SameButRoot.perform (h : left.SameButRoot right) (operation : Operation) :
    (left.perform operation).SameButRoot (right.perform operation) := by
  rw [h]
  cases operation with
  | indexAll uri documents =>
      rw [Project.perform, indexAll_of_root]
      rfl
  | update document =>
      rw [Project.perform, update_eq, index_of_root, Project.perform, update_eq]
      rfl
  | remove uri =>
      rw [Project.perform, remove_of_root]
      rfl

/-- Whatever is done to two projects that are the same but for their roots, they stay so. -/
theorem SameButRoot.foldl_perform (h : left.SameButRoot right) (history : List Operation) :
    (history.foldl Project.perform left).SameButRoot (history.foldl Project.perform right) := by
  induction history generalizing left right with
  | nil => exact h
  | cons operation more ih => exact ih (h.perform operation)

/-- To index the documents of a directory makes them one and the same. -/
theorem SameButRoot.indexAll (h : left.SameButRoot right) {uri : Uri} (hroot : (Addressing.directory? uri).isSome)
    (documents : List Document) : left.indexAll uri documents = right.indexAll uri documents := by
  obtain ⟨directory, hdirectory⟩ := Option.isSome_iff_exists.mp hroot
  have hown : (right.indexAll uri documents).2.root = some directory := by
    rw [Project.indexAll, hdirectory]
  rw [h, indexAll_of_root, hdirectory, Option.some_or, ← hown]

/-! ### Failures -/

theorem indexAll_of_error {uri : Uri} {documents : List Document}
    (h : project.indexAll uri documents = (.error error, left)) :
    left = project ∧ ∀ others, project.indexAll uri others = (.error error, project) := by
  cases hroot : Addressing.directory? uri with
  | none =>
      have hnothing : ∀ others, project.indexAll uri others = (.error (.notScene uri), project) := by
        intro others
        rw [indexAll, hroot]
      rw [hnothing, Prod.mk.injEq, Except.error.injEq] at h
      obtain ⟨rfl, rfl⟩ := h
      exact ⟨rfl, hnothing⟩
  | some directory =>
      rw [indexAll, hroot] at h
      cases h

theorem update_of_error (h : project.update document = (.error error, left)) :
    left = { project with root := project.root.or (Addressing.directory? document.uri) } := by
  rw [update_eq, Prod.mk.injEq] at h
  obtain ⟨herror, rfl⟩ := h
  rw [index_of_error herror]

/-- A failed update of a project changes it just if it has no root and the document lies in a directory. -/
theorem update_unchanged_iff (h : project.update document = (.error error, left)) :
    left = project ↔ project.root.isSome ∨ Addressing.directory? document.uri = none := by
  rw [update_of_error h]
  obtain ⟨settings, root, scenes, names⟩ := project
  cases root <;> simp

/-- Operations that fail leave the scenes, the names and the settings as they are. So they leave the root, but for
an update of a project without one, which takes the directory of the document; no later operation depends on it. -/
theorem untouched_of_failed (project : Project) :
    (∀ uri documents error left, project.indexAll uri documents = (.error error, left) →
      left = project ∧ ∀ others, project.indexAll uri others = (.error error, project)) ∧
    ∀ document error left, project.update document = (.error error, left) →
      (left.scenes = project.scenes ∧ left.names = project.names ∧ left.settings = project.settings) ∧
      left.root = project.root.or (Addressing.directory? document.uri) ∧
      (left = project ↔ project.root.isSome ∨ Addressing.directory? document.uri = none) ∧
      ∀ history : List Operation,
        (history.foldl perform left).SameButRoot (history.foldl perform project) ∧
        ∀ uri documents, (Addressing.directory? uri).isSome →
          (history.foldl perform left).indexAll uri documents = (history.foldl perform project).indexAll uri documents := by
  refine ⟨fun _ _ _ _ hfailed => indexAll_of_error hfailed, fun document error left hfailed => ?_⟩
  have hleft := update_of_error hfailed
  have hsame : left.SameButRoot project := by
    rw [SameButRoot, hleft]
  refine ⟨⟨?_, ?_, ?_⟩, ?_, update_unchanged_iff hfailed, fun history => ?_⟩
  · rw [hleft]
  · rw [hleft]
  · rw [hleft]
  · rw [hleft]
  · have hlater := hsame.foldl_perform history
    exact ⟨hlater, fun uri documents hroot => hlater.indexAll hroot documents⟩

end Addressed

/-- A document without a scene, and an identifier without a directory, in a project that was just begun. -/
theorem untouched_of_failed_notes :
    ({} : Project).indexAll ⟨"mailto:jane"⟩ [] = (.error (.notScene ⟨"mailto:jane"⟩), {}) ∧
      (∀ others, ({} : Project).indexAll ⟨"mailto:jane"⟩ others = (.error (.notScene ⟨"mailto:jane"⟩), {})) ∧
      ({} : Project).update ⟨⟨"file:///notes/plan.md"⟩, []⟩ =
        (.error (.notScene ⟨"file:///notes/plan.md"⟩), { root := some ⟨"file:///notes/"⟩ }) ∧
      ∀ history : List Operation,
        (history.foldl perform { root := some ⟨"file:///notes/"⟩ }).SameButRoot (history.foldl perform {}) := by
  have hfailed : ({} : Project).update ⟨⟨"file:///notes/plan.md"⟩, []⟩ =
      (.error (.notScene ⟨"file:///notes/plan.md"⟩), { root := some ⟨"file:///notes/"⟩ }) := rfl
  obtain ⟨hall, hone⟩ := untouched_of_failed {}
  obtain ⟨-, -, -, hlater⟩ := hone _ _ _ hfailed
  exact ⟨rfl, (hall _ [] _ _ rfl).2, hfailed, fun history => (hlater history).1⟩

/-- The directory of a document without a scene becomes the root of a project that has none. -/
theorem root_of_failed :
    ({} : Project).update ⟨⟨"file:///notes/plan.md"⟩, []⟩ =
        (.error (.notScene ⟨"file:///notes/plan.md"⟩), { root := some ⟨"file:///notes/"⟩ }) ∧
      ({ root := some ⟨"file:///notes/"⟩ } : Project).root ≠ ({} : Project).root :=
  ⟨rfl, Option.some_ne_none _⟩

end Gamebook.Project
