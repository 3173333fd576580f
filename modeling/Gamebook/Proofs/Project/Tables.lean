import Gamebook.Project.Basic
import Gamebook.Proofs.Table

/-!
The tables of a project. A project that was built up by indexing and removing documents knows every scene
under the name that its document gives it, and the scene's name under the identifier of its document. No
two scenes have the same identifier, since the identifier tells the name.
-/

namespace Gamebook.Project

variable [Addressing] {project : Project} {name : String} {entry : Entry} {uri : Uri} {document : Document}

/-- The projects that come about from one without scenes. -/
inductive Reachable : Project → Prop
  | initial (settings : Settings) : Reachable { settings }
  | indexAll {project : Project} (h : Reachable project) (uri : Uri) (documents : List Document) :
      Reachable (project.indexAll uri documents).2
  | update {project : Project} (h : Reachable project) (document : Document) : Reachable (project.update document).2
  | remove {project : Project} (h : Reachable project) (uri : Uri) : Reachable (project.remove uri).2

/-- To index the documents in a directory is to index them one after the other. -/
theorem indexWithin_eq (project : Project) (root : Uri) (documents : List Document) :
    (project.indexWithin root documents).2 =
      (documents.filter (·.uri.isWithin root)).foldl (fun project document => (project.index document).2) project := by
  rw [indexWithin]
  generalize 0 = indexed
  induction documents generalizing indexed project with
  | nil => rfl
  | cons document more ih =>
      rw [List.foldl_cons, List.filter_cons]
      dsimp only
      cases document.uri.isWithin root with
      | false => exact ih project indexed
      | true =>
          rw [if_pos rfl, if_pos rfl, List.foldl_cons]
          generalize project.index document = outcome
          obtain ⟨found, next⟩ := outcome
          cases found <;> exact ih next _

/-- Indexing a document puts its scene into the project, if it holds one. -/
theorem index_cases (project : Project) (document : Document) :
    (document.sceneName? project.settings.sceneExtension = none ∧ (project.index document).2 = project) ∨
      ∃ name, document.sceneName? project.settings.sceneExtension = some name ∧
        (project.index document).2 = (project.put name document).2 := by
  -- the equation of this definition is slow to prove, and not needed
  delta index
  dsimp only
  split
  · exact .inl ⟨‹_›, rfl⟩
  · exact .inr ⟨_, ‹_›, rfl⟩

/-- Updating a project leaves its settings alone. -/
theorem settings_update (project : Project) (document : Document) :
    (project.update document).2.settings = project.settings := by
  rw [Project.update]
  rcases index_cases _ document with ⟨_, heq⟩ | ⟨name, _, heq⟩
  · rw [heq]
  · rw [heq]
    rfl

/-- What every project without scenes has, and what putting and removing a scene keeps, all projects have that
come about. -/
theorem Reachable.invariant {holds : Project → Prop} (initial : ∀ settings, holds { settings })
    (located : ∀ project root, holds project → holds { project with root })
    (put : ∀ project name document, document.sceneName? project.settings.sceneExtension = some name →
      holds project → holds (project.put name document).2)
    (remove : ∀ project uri, holds project → holds (project.remove uri).2) (h : project.Reachable) : holds project := by
  have index : ∀ project document, holds project → holds (project.index document).2 := by
    intro project document hproject
    rcases project.index_cases document with ⟨_, heq⟩ | ⟨name, hname, heq⟩ <;> rw [heq]
    · exact hproject
    · exact put project name document hname hproject
  induction h with
  | initial settings => exact initial settings
  | indexAll _ uri documents ih =>
      rw [Project.indexAll]
      split
      · exact ih
      · refine located _ _ ?_
        rw [indexWithin_eq]
        exact List.foldlRecOn _ _ ih fun project hproject document _ => index project document hproject
  | update _ document ih =>
      rw [Project.update]
      exact index _ document (located _ _ ih)
  | remove _ uri ih => exact remove _ uri ih

/-- The scenes are read from their documents, and are known by name and by identifier. -/
structure Coherent (project : Project) : Prop where
  ordered : project.scenes.Ordered
  named : ∀ name entry, project.scene? name = some entry →
    entry.document.sceneName? project.settings.sceneExtension = some name
  read : ∀ name entry, project.scene? name = some entry →
    entry = Entry.ofDocument name entry.document project.settings.levels
  known : ∀ name entry, project.scene? name = some entry → project.names.get? entry.uri.text = some name

theorem Coherent.entry_name (h : project.Coherent) (hentry : project.scene? name = some entry) : entry.name = name := by
  rw [h.read name entry hentry]
  rfl

theorem Coherent.sceneAt?_uri (h : project.Coherent) (hentry : project.scene? name = some entry) :
    project.sceneAt? entry.uri = some entry := by
  rw [sceneAt?, h.known name entry hentry, Option.bind_some, hentry]

/-- Scenes with one identifier are one. -/
theorem Coherent.eq_of_uri (h : project.Coherent) {other : Entry} {otherName : String}
    (hentry : project.scene? name = some entry) (hother : project.scene? otherName = some other)
    (huri : other.uri = entry.uri) : other = entry := by
  have hfound := h.sceneAt?_uri hother
  rw [huri, h.sceneAt?_uri hentry] at hfound
  exact (Option.some.inj hfound).symm

theorem Coherent.mem_scenes_iff (h : project.Coherent) :
    entry ∈ project.scenes.values ↔ ∃ name, project.scene? name = some entry := h.ordered.mem_values_iff

/-- What is forgotten for one scene is not the identifier of another. -/
theorem Coherent.get?_forget (h : project.Coherent) {other : String} (hother : other ≠ name)
    (hentry : project.scene? other = some entry) (uri : Uri) :
    (project.forget name uri).get? entry.uri.text = some other := by
  have hknown := h.known other entry hentry
  rw [forget]
  cases hprevious : project.scene? name with
  | none => exact hknown
  | some previous =>
      dsimp only
      split
      · exact hknown
      · rw [Table.get?_erase, if_neg fun htext => ?_]
        · exact hknown
        · rw [htext, h.known name previous hprevious, Option.some.injEq] at hknown
          exact hother hknown.symm

/-- A scene with another name than a document's was read from another document. -/
theorem Coherent.uri_ne (h : project.Coherent) {other : String} (hother : other ≠ name)
    (hname : document.sceneName? project.settings.sceneExtension = some name)
    (hentry : project.scene? other = some entry) : entry.uri.text ≠ document.uri.text := by
  intro htext
  have huri : entry.document.uri = document.uri := congrArg Uri.mk htext
  have hown := h.named other entry hentry
  rw [Document.sceneName?, huri, ← Document.sceneName?, hname] at hown
  exact hother (Option.some.inj hown).symm

theorem Coherent.put (h : project.Coherent) (hname : document.sceneName? project.settings.sceneExtension = some name) :
    (project.put name document).2.Coherent := by
  have hscene : ∀ other, (project.put name document).2.scene? other =
      if other = name then some (Entry.ofDocument name document project.settings.levels) else project.scene? other :=
    fun other => Table.get?_insert _ _ _ _
  refine ⟨h.ordered.insert _ _, ?_, ?_, ?_⟩ <;> intro other entry hentry <;> rw [hscene] at hentry
  · split at hentry
    · rename_i hsame
      cases hentry
      exact hsame ▸ hname
    · exact h.named other entry hentry
  · split at hentry
    · rename_i hsame
      cases hentry
      rw [hsame]
      rfl
    · exact h.read other entry hentry
  · have hnames : (project.put name document).2.names.get? entry.uri.text =
        if entry.uri.text = document.uri.text then some name
        else (project.forget name document.uri).get? entry.uri.text := Table.get?_insert _ _ _ _
    rw [hnames]
    split at hentry
    · rename_i hsame
      cases hentry
      rw [hsame]
      exact if_pos rfl
    · rename_i hother
      rw [if_neg (h.uri_ne hother hname hentry)]
      exact h.get?_forget hother hentry document.uri

theorem Coherent.remove (h : project.Coherent) (uri : Uri) : (project.remove uri).2.Coherent := by
  rw [Project.remove]
  split
  · exact h
  · rename_i name hname
    have hscene : ∀ other entry, (project.scenes.erase name).get? other = some entry →
        other ≠ name ∧ project.scene? other = some entry := by
      intro other entry hentry
      rw [Table.get?_erase] at hentry
      split at hentry
      · cases hentry
      · rename_i hother
        exact ⟨hother, hentry⟩
    refine ⟨h.ordered.erase _, ?_, ?_, ?_⟩ <;> intro other entry hentry <;>
      obtain ⟨hother, hentry⟩ := hscene other entry hentry
    · exact h.named other entry hentry
    · exact h.read other entry hentry
    · have hknown := h.known other entry hentry
      show (project.names.erase uri.text).get? entry.uri.text = some other
      rw [Table.get?_erase, if_neg fun htext => ?_]
      · exact hknown
      · rw [htext, hname, Option.some.injEq] at hknown
        exact hother hknown.symm

/-- Every project that comes about is coherent. -/
theorem Reachable.coherent (h : project.Reachable) : project.Coherent :=
  h.invariant (fun _ => ⟨Table.ordered_empty, nofun, nofun, nofun⟩)
    (fun _ _ hproject => ⟨hproject.ordered, hproject.named, hproject.read, hproject.known⟩)
    (fun _ _ _ hname hproject => hproject.put hname) fun _ uri hproject => hproject.remove uri

end Gamebook.Project
