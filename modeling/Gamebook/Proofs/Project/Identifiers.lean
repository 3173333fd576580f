import Gamebook.Proofs.Project.Tables

/-!
Names and identifiers. A project knows its scenes by name and their names by identifier. Whatever was indexed and
removed, the two tables are inverse to each other: an identifier is known just when a scene has it, so that scenes
are found and taken out by their identifiers.
-/

namespace Gamebook.Project

variable {project : Project} {name other : String} {entry : Entry} {uri : Uri} {document : Document}

/-- Every identifier that is known leads to a scene that has it. -/
structure Traced (project : Project) : Prop where
  ordered : project.names.Ordered
  leads : ∀ uri name, project.names.get? uri.text = some name →
    ∃ entry, project.scene? name = some entry ∧ entry.uri = uri

/-! ### Indexing and removing -/

/-- What an identifier leads to once a name is to have another one: as before, unless it led to that name. -/
theorem Traced.get?_forget (h : project.Traced) (hother : uri ≠ document.uri)
    (hfound : (project.forget name document.uri).get? uri.text = some other) :
    project.names.get? uri.text = some other ∧ other ≠ name := by
  rw [forget] at hfound
  cases hprevious : project.scene? name with
  | none =>
      rw [hprevious] at hfound
      obtain ⟨entry, hentry, _⟩ := h.leads uri other hfound
      refine ⟨hfound, ?_⟩
      rintro rfl
      rw [hprevious] at hentry
      cases hentry
  | some previous =>
      have hled : ∀ {other}, project.names.get? uri.text = some other → other = name → previous.uri = uri := by
        rintro _ hknown rfl
        obtain ⟨entry, hentry, huri⟩ := h.leads uri _ hknown
        rw [hprevious, Option.some.injEq] at hentry
        rwa [hentry]
      rw [hprevious] at hfound
      dsimp only at hfound
      split at hfound
      · rename_i hkept
        exact ⟨hfound, fun hsame => hother ((hled hfound hsame).symm.trans hkept)⟩
      · rw [Table.get?_erase] at hfound
        split at hfound
        · cases hfound
        · rename_i hstale
          exact ⟨hfound, fun hsame => hstale (congrArg Uri.text (hled hfound hsame).symm)⟩

theorem Traced.ordered_forget (h : project.Traced) (name : String) (uri : Uri) : (project.forget name uri).Ordered := by
  rw [forget]
  cases project.scene? name with
  | none => exact h.ordered
  | some previous =>
      dsimp only
      split
      · exact h.ordered
      · exact h.ordered.erase _

theorem Traced.put (h : project.Traced) (name : String) (document : Document) :
    (project.put name document).2.Traced := by
  have hscene : ∀ other, (project.put name document).2.scene? other =
      if other = name then some (Entry.ofDocument name document project.settings.levels) else project.scene? other :=
    fun other => Table.get?_insert _ _ _ _
  have hnames : ∀ text, (project.put name document).2.names.get? text =
      if text = document.uri.text then some name else (project.forget name document.uri).get? text :=
    fun text => Table.get?_insert _ _ _ _
  refine ⟨(h.ordered_forget name document.uri).insert _ _, fun uri other hknown => ?_⟩
  rw [hnames] at hknown
  split at hknown
  · rename_i htext
    cases hknown
    exact ⟨_, (hscene name).trans (if_pos rfl), congrArg Uri.mk htext.symm⟩
  · rename_i htext
    obtain ⟨hbefore, hkept⟩ := h.get?_forget (fun hsame => htext (congrArg Uri.text hsame)) hknown
    obtain ⟨entry, hentry, huri⟩ := h.leads uri other hbefore
    exact ⟨entry, (hscene other).trans ((if_neg hkept).trans hentry), huri⟩

theorem Traced.remove (h : project.Traced) (uri : Uri) : (project.remove uri).2.Traced := by
  rw [Project.remove]
  split
  · exact h
  · rename_i name hname
    refine ⟨h.ordered.erase _, fun other name' hknown => ?_⟩
    have hbefore : (project.names.erase uri.text).get? other.text = some name' := hknown
    rw [Table.get?_erase] at hbefore
    split at hbefore
    · cases hbefore
    · rename_i hapart
      obtain ⟨entry, hentry, huri⟩ := h.leads other name' hbefore
      refine ⟨entry, ?_, huri⟩
      show (project.scenes.erase name).get? name' = some entry
      rw [Table.get?_erase, if_neg]
      · exact hentry
      · -- a scene has one identifier only
        rintro rfl
        obtain ⟨removed, hremoved, hown⟩ := h.leads uri _ hname
        rw [hentry, Option.some.injEq] at hremoved
        rw [← hown, ← hremoved, huri] at hapart
        exact hapart rfl

theorem Reachable.traced [Addressing] (h : project.Reachable) : project.Traced :=
  h.invariant (fun _ => ⟨Table.ordered_empty, nofun⟩)
    (fun _ _ hproject => ⟨hproject.ordered, hproject.leads⟩) (fun _ name document _ hproject => hproject.put name document)
    fun _ uri hproject => hproject.remove uri

/-! ### Both tables -/

/-- The names lead to the identifiers and the identifiers to the names. -/
structure Keyed (project : Project) : Prop where
  /-- Every identifier leads to the name of a scene that has it. -/
  located : ∀ text name, (text, name) ∈ project.names.entries →
    ∃ entry, project.scene? name = some entry ∧ entry.uri.text = text
  /-- Every scene is known by its own name and its own identifier, and is what its document is read as. -/
  named : ∀ name entry, (name, entry) ∈ project.scenes.entries →
    entry.name = name ∧ project.names.get? entry.uri.text = some name ∧
      entry = Entry.ofDocument name entry.document project.settings.levels
  /-- A scene is found by its identifier. -/
  found : ∀ uri entry, project.sceneAt? uri = some entry ↔ entry ∈ project.scenes.values ∧ entry.uri = uri
  /-- It is taken out by its identifier. -/
  taken : ∀ uri entry, (project.remove uri).1 = some entry ↔ entry ∈ project.scenes.values ∧ entry.uri = uri
  /-- And then both tables are as they were without it. -/
  rest : ∀ uri, (project.remove uri).2.scenes.entries = project.scenes.entries.filter (·.2.uri ≠ uri) ∧
    (project.remove uri).2.names.entries = project.names.entries.filter (·.1 ≠ uri.text)

theorem remove_fst (project : Project) (uri : Uri) : (project.remove uri).1 = project.sceneAt? uri := by
  rw [Project.remove, sceneAt?]
  cases project.names.get? uri.text <;> rfl

section Keys

variable [Addressing] (h : project.Coherent) (htraced : project.Traced)
include h htraced

/-- An identifier leads to a name just when the scene of that name has it. -/
theorem Traced.get?_names_iff :
    project.names.get? uri.text = some name ↔ ∃ entry, project.scene? name = some entry ∧ entry.uri = uri := by
  constructor
  · exact htraced.leads uri name
  · rintro ⟨entry, hentry, rfl⟩
    exact h.known name entry hentry

theorem Traced.sceneAt?_eq_some_iff :
    project.sceneAt? uri = some entry ↔ entry ∈ project.scenes.values ∧ entry.uri = uri := by
  rw [sceneAt?, Option.bind_eq_some_iff, h.mem_scenes_iff]
  constructor
  · rintro ⟨name, hname, hentry⟩
    obtain ⟨found, hfound, huri⟩ := htraced.leads uri name hname
    rw [hentry, Option.some.injEq] at hfound
    exact ⟨⟨name, hentry⟩, hfound ▸ huri⟩
  · rintro ⟨⟨name, hentry⟩, rfl⟩
    exact ⟨name, h.known name entry hentry, hentry⟩

/-- To remove an identifier is to remove the scene that has it. -/
theorem Traced.entries_remove (uri : Uri) :
    (project.remove uri).2.scenes.entries = project.scenes.entries.filter (·.2.uri ≠ uri) ∧
      (project.remove uri).2.names.entries = project.names.entries.filter (·.1 ≠ uri.text) := by
  have hscene : ∀ {name entry}, (name, entry) ∈ project.scenes.entries → project.scene? name = some entry :=
    h.ordered.mem_entries_iff.mp
  rw [Project.remove]
  cases hname : project.names.get? uri.text with
  | none =>
      constructor
      · refine (List.filter_eq_self.mpr ?_).symm
        rintro ⟨name, entry⟩ hentry
        refine decide_eq_true fun huri : entry.uri = uri => ?_
        rw [← huri, h.known name entry (hscene hentry)] at hname
        cases hname
      · refine (List.filter_eq_self.mpr ?_).symm
        rintro ⟨text, name⟩ hentry
        refine decide_eq_true fun htext : text = uri.text => ?_
        rw [← htext, htraced.ordered.mem_entries_iff.mp hentry] at hname
        cases hname
  | some name =>
      obtain ⟨removed, hremoved, huri⟩ := htraced.leads uri name hname
      constructor
      · refine List.filter_congr ?_
        rintro ⟨other, entry⟩ hentry
        have hiff : other = name ↔ entry.uri = uri := by
          constructor
          · rintro rfl
            rw [hscene hentry, Option.some.injEq] at hremoved
            rwa [hremoved]
          · rintro rfl
            rw [h.known other entry (hscene hentry), Option.some.injEq] at hname
            exact hname
        rw [Bool.eq_iff_iff, bne_iff_ne, decide_eq_true_eq, Ne, Ne, hiff]
      · refine List.filter_congr fun _ _ => ?_
        rw [Bool.eq_iff_iff, bne_iff_ne, decide_eq_true_eq]

end Keys

/-- Whatever was indexed and removed, the names of the scenes and their identifiers lead to each other. -/
theorem keyed_of_reachable [Addressing] (h : project.Reachable) : project.Keyed := by
  have hcoherent := h.coherent
  have htraced := h.traced
  refine ⟨fun text name hknown => ?_, fun name entry hentry => ?_, fun uri entry => ?_, fun uri entry => ?_, ?_⟩
  · obtain ⟨entry, hentry, huri⟩ := htraced.leads ⟨text⟩ name (htraced.ordered.mem_entries_iff.mp hknown)
    exact ⟨entry, hentry, congrArg Uri.text huri⟩
  · have hfound := hcoherent.ordered.mem_entries_iff.mp hentry
    exact ⟨hcoherent.entry_name hfound, hcoherent.known name entry hfound, hcoherent.read name entry hfound⟩
  · exact htraced.sceneAt?_eq_some_iff hcoherent
  · rw [remove_fst]
    exact htraced.sceneAt?_eq_some_iff hcoherent
  · exact htraced.entries_remove hcoherent

/-- A scene that was moved to another document, and another scene that was taken out and came back. -/
def movedScene : Project :=
  let one := ({} : Project).update ⟨⟨"file:///old/one.txt"⟩, "*label a\n".toList⟩
  let two := one.2.indexAll ⟨"file:///game/"⟩ [⟨⟨"file:///game/one.txt"⟩, "*label b\n".toList⟩,
    ⟨⟨"file:///game/notes.md"⟩, []⟩, ⟨⟨"file:///game/two.txt"⟩, []⟩]
  ((two.2.remove ⟨"file:///game/two.txt"⟩).2.update ⟨⟨"file:///game/two.txt"⟩, "*label c\n".toList⟩).2

theorem reachable_movedScene : movedScene.Reachable :=
  ((((Reachable.initial {}).update _).indexAll _ _).remove _).update _

theorem keyed_movedScene : movedScene.Reachable ∧ movedScene.Keyed ∧
    movedScene.names.entries = [("file:///game/one.txt", "one"), ("file:///game/two.txt", "two")] :=
  ⟨reachable_movedScene, keyed_of_reachable reachable_movedScene, by decide +kernel⟩

end Gamebook.Project
