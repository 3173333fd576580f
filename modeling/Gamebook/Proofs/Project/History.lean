import Gamebook.Proofs.Project.Identifiers
import Mathlib.Data.List.Induction
import Mathlib.Data.List.Pairwise

/-!
Histories. The tables of a project do not depend on how it came about, but only on the documents that are left:
those that were indexed last under their names and whose identifiers were not removed since. So a project is what
indexing these documents makes of an empty one, in whatever order.
-/

namespace Gamebook.Project

variable [Addressing]

/-- What can be done to a project. -/
inductive Operation where
  | indexAll (uri : Uri) (documents : List Document)
  | update (document : Document)
  | remove (uri : Uri)

def perform (project : Project) : Operation → Project
  | .indexAll uri documents => (project.indexAll uri documents).2
  | .update document => (project.update document).2
  | .remove uri => (project.remove uri).2

def after (settings : Settings) (history : List Operation) : Project := history.foldl perform { settings }

inductive Event where
  | indexed (document : Document)
  | removed (uri : Uri)

def documentsIn (uri : Uri) (documents : List Document) : List Document :=
  match Addressing.directory? uri with
  | none => []
  | some root => documents.filter (·.uri.isWithin root)

/-- What an operation comes to: of several documents those in the directory are indexed, one after the other. -/
def Operation.events : Operation → List Event
  | .indexAll uri documents => (documentsIn uri documents).map .indexed
  | .update document => [.indexed document]
  | .remove uri => [.removed uri]

def eventsOf (history : List Operation) : List Event := history.flatMap Operation.events

/-- What puts an end to a document: that one is indexed under its name, or that its identifier is removed. -/
def Event.Ends (extension : String) (document : Document) : Event → Prop
  | .indexed other => other.sceneName? extension = document.sceneName? extension
  | .removed uri => uri = document.uri

/-- The document holds a scene, is indexed, and nothing puts an end to it later. -/
def Survives (extension : String) (events : List Event) (document : Document) : Prop :=
  (document.sceneName? extension).isSome ∧ ∃ front back, events = front ++ .indexed document :: back ∧
    ∀ event ∈ back, ¬event.Ends extension document

def SameTables (left right : Project) : Prop := left.scenes = right.scenes ∧ left.names = right.names

variable {project left right : Project} {extension : String} {events front back : List Event}
  {document other : Document} {uri : Uri} {documents : List Document}

/-! ### Survivors -/

/-- What survives is indexed in the end, or before, if the end spares it. -/
theorem survives_append : Survives extension (front ++ back) document ↔
    Survives extension back document ∨
      Survives extension front document ∧ ∀ event ∈ back, ¬event.Ends extension document := by
  constructor
  · rintro ⟨hname, before, behind, hsplit, hspared⟩
    rcases List.append_eq_append_iff.mp hsplit with ⟨between, rfl, hback⟩ | ⟨between, hfront, hbehind⟩
    · exact .inl ⟨hname, between, behind, hback, hspared⟩
    · rcases List.cons_eq_append_iff.mp hbehind with ⟨rfl, hback⟩ | ⟨more, rfl, rfl⟩
      · exact .inl ⟨hname, [], behind, hback, hspared⟩
      · exact .inr ⟨⟨hname, before, more, hfront, fun event hevent => hspared event (List.mem_append_left _ hevent)⟩,
          fun event hevent => hspared event (List.mem_append_right _ hevent)⟩
  · rintro (⟨hname, before, behind, rfl, hspared⟩ | ⟨⟨hname, before, behind, rfl, hspared⟩, hmore⟩)
    · exact ⟨hname, front ++ before, behind, (List.append_assoc _ _ _).symm, hspared⟩
    · refine ⟨hname, before, behind ++ back, by rw [List.append_assoc, List.cons_append], fun event hevent => ?_⟩
      exact (List.mem_append.mp hevent).elim (hspared event) (hmore event)

theorem survives_nil : ¬Survives extension [] document := by
  rintro ⟨_, before, behind, hsplit, _⟩
  exact absurd hsplit (by simp)

theorem survives_singleton_indexed :
    Survives extension [.indexed other] document ↔ (document.sceneName? extension).isSome ∧ other = document := by
  constructor
  · rintro ⟨hname, before, behind, hsplit, _⟩
    have hmem : Event.indexed document ∈ [Event.indexed other] := by simp [hsplit]
    cases List.mem_singleton.mp hmem
    exact ⟨hname, rfl⟩
  · rintro ⟨hname, rfl⟩
    exact ⟨hname, [], [], rfl, fun _ hevent => absurd hevent List.not_mem_nil⟩

theorem not_survives_singleton_removed : ¬Survives extension [.removed uri] document := by
  rintro ⟨_, before, behind, hsplit, _⟩
  have hmem : Event.indexed document ∈ [Event.removed uri] := by simp [hsplit]
  cases List.mem_singleton.mp hmem

/-- Behind documents that are indexed survives what was there before under none of their names, and of the
documents what survives among them. -/
theorem survives_append_indexed : Survives extension (front ++ documents.map .indexed) document ↔
    Survives extension (documents.map .indexed) document ∨ Survives extension front document ∧
      ∀ other ∈ documents, other.sceneName? extension ≠ document.sceneName? extension := by
  rw [survives_append, List.forall_mem_map]
  rfl

/-! ### The scenes of the survivors -/

/-- The scenes of a project are those of the documents that survive. -/
structure Reflects (project : Project) (settings : Settings) (events : List Event) : Prop where
  kept : project.settings = settings
  scenes : ∀ name entry, project.scene? name = some entry ↔
    ∃ document, Survives settings.sceneExtension events document ∧
      document.sceneName? settings.sceneExtension = some name ∧ entry = Entry.ofDocument name document settings.levels

variable {settings : Settings}

theorem Reflects.put {name : String} (h : project.Reflects settings events)
    (hname : document.sceneName? settings.sceneExtension = some name) :
    (project.put name document).2.Reflects settings (events ++ [.indexed document]) := by
  refine ⟨h.kept, fun other entry => ?_⟩
  have hscene : (project.put name document).2.scene? other =
      if other = name then some (Entry.ofDocument name document project.settings.levels) else project.scene? other :=
    Table.get?_insert _ _ _ _
  have hsurvives : ∀ survivor, Survives settings.sceneExtension (events ++ [.indexed document]) survivor ↔
      (survivor.sceneName? settings.sceneExtension).isSome ∧ document = survivor ∨
        Survives settings.sceneExtension events survivor ∧ some name ≠ survivor.sceneName? settings.sceneExtension := by
    intro survivor
    rw [survives_append, survives_singleton_indexed, List.forall_mem_singleton, Event.Ends, hname]
  rw [hscene, h.kept]
  split
  · rename_i hsame
    subst hsame
    constructor
    · intro hentry
      cases hentry
      exact ⟨document, (hsurvives document).mpr (.inl ⟨by rw [hname]; rfl, rfl⟩), hname, rfl⟩
    · rintro ⟨survivor, hsurvivor, hown, rfl⟩
      rcases (hsurvives survivor).mp hsurvivor with ⟨_, rfl⟩ | ⟨_, hapart⟩
      · rfl
      · exact absurd hown.symm hapart
  · rename_i hother
    rw [h.scenes]
    refine exists_congr fun survivor => and_congr_left fun hown => ?_
    have hapart : some name ≠ survivor.sceneName? settings.sceneExtension := by
      rw [hown.1]
      exact fun hsame => hother (Option.some.inj hsame).symm
    rw [hsurvives, and_iff_left hapart]
    refine (or_iff_right ?_).symm
    rintro ⟨_, rfl⟩
    exact hapart hname.symm

theorem Reflects.index (h : project.Reflects settings events) (document : Document) :
    (project.index document).2.Reflects settings (events ++ [.indexed document]) := by
  rcases project.index_cases document with ⟨hname, heq⟩ | ⟨name, hname, heq⟩ <;> rw [heq] <;> rw [h.kept] at hname
  · refine ⟨h.kept, fun name entry => ?_⟩
    rw [h.scenes]
    refine exists_congr fun survivor => and_congr_left fun hown => ?_
    have hapart : document.sceneName? settings.sceneExtension ≠ survivor.sceneName? settings.sceneExtension := by
      rw [hname, hown.1]
      exact (Option.some_ne_none name).symm
    rw [survives_append, survives_singleton_indexed, List.forall_mem_singleton, Event.Ends, and_iff_left hapart]
    refine (or_iff_right ?_).symm
    rintro ⟨_, rfl⟩
    exact hapart rfl
  · exact h.put hname

theorem Reflects.foldl_index (h : project.Reflects settings events) (documents : List Document) :
    (documents.foldl (fun project document => (project.index document).2) project).Reflects settings
      (events ++ documents.map .indexed) := by
  induction documents generalizing project events with
  | nil => rwa [List.map_nil, List.append_nil]
  | cons document more ih =>
      rw [List.foldl_cons, List.map_cons, ← List.singleton_append, ← List.append_assoc]
      exact ih (h.index document)

theorem Reflects.remove (h : project.Reflects settings events) (hreachable : project.Reachable) (uri : Uri) :
    (project.remove uri).2.Reflects settings (events ++ [.removed uri]) := by
  have hentries := (hreachable.traced.entries_remove hreachable.coherent uri).1
  have hscene : ∀ name entry, (project.remove uri).2.scene? name = some entry ↔
      project.scene? name = some entry ∧ entry.uri ≠ uri := by
    intro name entry
    have hordered := (hreachable.remove uri).coherent.ordered
    rw [scene?, ← hordered.mem_entries_iff, hentries, List.mem_filter, decide_eq_true_eq,
      hreachable.coherent.ordered.mem_entries_iff, scene?]
  constructor
  · rw [← h.kept, Project.remove]
    split <;> rfl
  · intro name entry
    rw [hscene, h.scenes]
    constructor
    · rintro ⟨⟨survivor, hsurvivor, hown, rfl⟩, hkept⟩
      refine ⟨survivor, ?_, hown, rfl⟩
      rw [survives_append, List.forall_mem_singleton]
      exact .inr ⟨hsurvivor, Ne.symm hkept⟩
    · rintro ⟨survivor, hsurvivor, hown, rfl⟩
      rw [survives_append, List.forall_mem_singleton] at hsurvivor
      obtain ⟨hbefore, hkept⟩ := hsurvivor.resolve_left not_survives_singleton_removed
      exact ⟨⟨survivor, hbefore, hown, rfl⟩, Ne.symm hkept⟩

theorem Reflects.of_root (h : project.Reflects settings events) (root : Option Uri) :
    { project with root }.Reflects settings events := ⟨h.kept, h.scenes⟩

theorem Reflects.perform (h : project.Reflects settings events) (hreachable : project.Reachable) (operation : Operation) :
    (project.perform operation).Reflects settings (events ++ operation.events) := by
  cases operation with
  | indexAll uri documents =>
      cases hroot : Addressing.directory? uri with
      | none =>
          simp only [Project.perform, indexAll, Operation.events, documentsIn, hroot, List.map_nil, List.append_nil]
          exact h
      | some root =>
          have hwithin := h.foldl_index (documents.filter (·.uri.isWithin root))
          rw [← indexWithin_eq] at hwithin
          simp only [Project.perform, indexAll, Operation.events, documentsIn, hroot]
          exact hwithin.of_root _
  | update document =>
      show (project.update document).2.Reflects settings (events ++ [.indexed document])
      rw [update]
      exact (h.of_root _).index document
  | remove uri => exact h.remove hreachable uri

theorem Reachable.perform (h : project.Reachable) (operation : Operation) : (project.perform operation).Reachable := by
  cases operation with
  | indexAll uri documents => exact h.indexAll uri documents
  | update document => exact h.update document
  | remove uri => exact h.remove uri

theorem after_append (settings : Settings) (history more : List Operation) :
    after settings (history ++ more) = more.foldl Project.perform (after settings history) := List.foldl_append

/-- Whatever the history, the scenes are those of the documents that survive it. -/
theorem reflects_after (settings : Settings) (history : List Operation) :
    (after settings history).Reachable ∧ (after settings history).Reflects settings (eventsOf history) := by
  induction history using List.reverseRecOn with
  | nil =>
      refine ⟨.initial settings, rfl, fun name entry => ⟨fun hentry => ?_, ?_⟩⟩
      · cases hentry
      · rintro ⟨survivor, hsurvivor, _⟩
        exact absurd hsurvivor survives_nil
  | append_singleton history operation ih =>
      rw [after_append, List.foldl_cons, List.foldl_nil, eventsOf, List.flatMap_append, List.flatMap_singleton]
      exact ⟨ih.1.perform operation, ih.2.perform ih.1 operation⟩

/-! ### Tables by their survivors -/

/-- Two projects with the same survivors have the same tables. -/
theorem sameTables_of_survives_iff {history others : List Operation}
    (h : ∀ document, Survives settings.sceneExtension (eventsOf history) document ↔
      Survives settings.sceneExtension (eventsOf others) document) :
    (after settings history).SameTables (after settings others) := by
  obtain ⟨hreachable, hreflects⟩ := reflects_after settings history
  obtain ⟨hreachable', hreflects'⟩ := reflects_after settings others
  have hscene : ∀ name entry, (after settings history).scene? name = some entry ↔
      (after settings others).scene? name = some entry := by
    intro name entry
    rw [hreflects.scenes, hreflects'.scenes]
    exact exists_congr fun document => and_congr_left fun _ => h document
  constructor
  · exact hreachable.coherent.ordered.ext hreachable'.coherent.ordered fun name => Option.ext (hscene name)
  · refine hreachable.traced.ordered.ext hreachable'.traced.ordered fun text => Option.ext fun name => ?_
    have hnames := @Traced.get?_names_iff _ name ⟨text⟩ _ hreachable.coherent hreachable.traced
    have hnames' := @Traced.get?_names_iff _ name ⟨text⟩ _ hreachable'.coherent hreachable'.traced
    exact hnames.trans (Iff.trans (exists_congr fun entry => and_congr_left fun _ => hscene name entry) hnames'.symm)

/-- Of the documents that survive no two have the same name. -/
theorem eq_of_survives {history : List Operation} (h : Survives settings.sceneExtension (eventsOf history) document)
    (hother : Survives settings.sceneExtension (eventsOf history) other)
    (hname : document.sceneName? settings.sceneExtension = other.sceneName? settings.sceneExtension) :
    document = other := by
  have hscenes := (reflects_after settings history).2.scenes
  obtain ⟨name, hown⟩ := Option.isSome_iff_exists.mp h.1
  have hentry := (hscenes name _).mpr ⟨document, h, hown, rfl⟩
  have hentry' := (hscenes name _).mpr ⟨other, hother, hname ▸ hown, rfl⟩
  rw [hentry, Option.some.injEq] at hentry'
  exact congrArg Entry.document hentry'

/-- Of the documents no two hold scenes of one name. -/
def ToldByName (extension : String) (documents : List Document) : Prop :=
  ∀ left ∈ documents, ∀ right ∈ documents, (left.sceneName? extension).isSome →
    left.sceneName? extension = right.sceneName? extension → left = right

/-- Such documents all survive when they are indexed. -/
theorem survives_map_indexed_iff (hdistinct : ToldByName extension documents) :
    Survives extension (documents.map .indexed) document ↔
      document ∈ documents ∧ (document.sceneName? extension).isSome := by
  constructor
  · rintro ⟨hname, before, behind, hsplit, _⟩
    have hmem : Event.indexed document ∈ documents.map Event.indexed := by simp [hsplit]
    obtain ⟨own, hown, heq⟩ := List.mem_map.mp hmem
    cases heq
    exact ⟨hown, hname⟩
  · rintro ⟨hmem, hname⟩
    -- the last time that it is indexed
    obtain ⟨before, behind, hsplit, hlast⟩ := List.eq_append_cons_of_mem (List.mem_reverse.mpr hmem)
    have hdocuments : documents = behind.reverse ++ document :: before.reverse := by
      rw [← List.reverse_reverse documents, hsplit]
      simp
    refine ⟨hname, behind.reverse.map .indexed, before.reverse.map .indexed, ?_, ?_⟩
    · rw [hdocuments, List.map_append, List.map_cons]
    · intro event hevent hends
      obtain ⟨other, hother, rfl⟩ := List.mem_map.mp hevent
      have hothermem : other ∈ documents := by
        rw [hdocuments]
        exact List.mem_append_right _ (List.mem_cons_of_mem _ hother)
      obtain rfl := hdistinct document hmem other hothermem hname (Eq.symm hends)
      exact hlast (List.mem_reverse.mp hother)

/-! ### Histories -/

theorem documentsIn_subset (uri : Uri) (documents : List Document) : documentsIn uri documents ⊆ documents := by
  rw [documentsIn]
  split
  · exact List.nil_subset _
  · exact List.filter_subset_self _

theorem documentsIn_perm {others : List Document} (uri : Uri) (h : documents.Perm others) :
    (documentsIn uri documents).Perm (documentsIn uri others) := by
  rw [documentsIn, documentsIn]
  split
  · exact .nil
  · exact h.filter _

theorem eventsOf_append (history more : List Operation) :
    eventsOf (history ++ more) = eventsOf history ++ eventsOf more := List.flatMap_append

theorem eventsOf_indexAll (history : List Operation) (uri : Uri) (documents : List Document) :
    eventsOf (history ++ [.indexAll uri documents]) = eventsOf history ++ (documentsIn uri documents).map .indexed := by
  rw [eventsOf_append, eventsOf, eventsOf, List.flatMap_singleton, Operation.events]

theorem eventsOf_update (documents : List Document) : eventsOf (documents.map .update) = documents.map .indexed := by
  rw [eventsOf, List.flatMap_map, List.map_eq_flatMap]
  rfl

/-- The scenes of the documents have names of their own. -/
def NamedApart (extension : String) (documents : List Document) : Prop :=
  documents.Pairwise fun left right => ∀ name, left.sceneName? extension = some name → right.sceneName? extension ≠ some name

theorem NamedApart.toldByName (h : NamedApart extension documents) : ToldByName extension documents := by
  intro left hleft right hright hsome hname
  by_contra hne
  obtain ⟨name, hown⟩ := Option.isSome_iff_exists.mp hsome
  have hsymmetric : Std.Symm fun left right : Document =>
      ∀ name, left.sceneName? extension = some name → right.sceneName? extension ≠ some name :=
    ⟨fun _ _ hapart name hright hleft => hapart name hleft hright⟩
  exact List.Pairwise.forall h hleft hright hne name hown (hname ▸ hown)

/-- What a project becomes depends on the documents that survive its history, and on nothing else. -/
structure Determined (settings : Settings) (history : List Operation) : Prop where
  /-- There are finitely many of these documents. -/
  finite : ∃ documents : List Document, documents.Nodup ∧
    ∀ document, document ∈ documents ↔ Survives settings.sceneExtension (eventsOf history) document
  /-- Indexing them one by one, in whatever order, leads to the same tables. -/
  fresh : ∀ documents : List Document,
    (∀ document, document ∈ documents ↔ Survives settings.sceneExtension (eventsOf history) document) →
      (after settings history).SameTables (after settings (documents.map .update))
  /-- To index the same documents again changes nothing. -/
  repeated : ∀ uri documents,
    (after settings (history ++ [.indexAll uri documents, .indexAll uri documents])).SameTables
      (after settings (history ++ [.indexAll uri documents]))
  /-- Nor does the order in which documents are indexed together, if they have names of their own. -/
  permuted : ∀ uri documents others, documents.Perm others → NamedApart settings.sceneExtension documents →
    (after settings (history ++ [.indexAll uri documents])).SameTables
      (after settings (history ++ [.indexAll uri others]))

theorem exists_survivors (settings : Settings) (history : List Operation) :
    ∃ documents : List Document, documents.Nodup ∧
      ∀ document, document ∈ documents ↔ Survives settings.sceneExtension (eventsOf history) document := by
  obtain ⟨hreachable, hreflects⟩ := reflects_after settings history
  have hordered := hreachable.coherent.ordered
  have hnamed := hreachable.coherent.named
  have hentry : ∀ {name entry}, (name, entry) ∈ (after settings history).scenes.entries ↔
      (after settings history).scene? name = some entry := hordered.mem_entries_iff
  refine ⟨(after settings history).scenes.entries.map fun entry => entry.2.document, ?_, fun document => ?_⟩
  · refine List.pairwise_map.mpr (hordered.imp_of_mem ?_)
    rintro ⟨name, entry⟩ ⟨other, entry'⟩ hmem hmem' hbefore hsame
    have hname := hnamed name entry (hentry.mp hmem)
    rw [show entry.document = entry'.document from hsame, hnamed other entry' (hentry.mp hmem'), Option.some.injEq] at hname
    exact lt_irrefl name (hname ▸ hbefore)
  · rw [List.mem_map]
    constructor
    · rintro ⟨⟨name, entry⟩, hmem, rfl⟩
      obtain ⟨survivor, hsurvivor, _, rfl⟩ := (hreflects.scenes name entry).mp (hentry.mp hmem)
      exact hsurvivor
    · intro hsurvivor
      obtain ⟨name, hname⟩ := Option.isSome_iff_exists.mp hsurvivor.1
      exact ⟨(name, _), hentry.mpr ((hreflects.scenes name _).mpr ⟨document, hsurvivor, hname, rfl⟩), rfl⟩

/-- Whatever the history of a project, its tables are those of the documents that survive. -/
theorem determined_after (settings : Settings) (history : List Operation) : Determined settings history := by
  refine ⟨exists_survivors settings history, fun documents hsurvivors => ?_, fun uri documents => ?_,
    fun uri documents others hperm hapart => ?_⟩
  · refine sameTables_of_survives_iff fun document => ?_
    have hdistinct : ToldByName settings.sceneExtension documents :=
      fun left hleft right hright _ => eq_of_survives ((hsurvivors left).mp hleft) ((hsurvivors right).mp hright)
    rw [eventsOf_update, survives_map_indexed_iff hdistinct, hsurvivors]
    exact (and_iff_left_of_imp And.left).symm
  · refine sameTables_of_survives_iff fun document => ?_
    rw [← List.singleton_append, ← List.append_assoc, eventsOf_indexAll, eventsOf_indexAll, survives_append_indexed,
      survives_append_indexed]
    tauto
  · refine sameTables_of_survives_iff fun document => ?_
    have hin := documentsIn_perm uri hperm
    have hdistinct : ToldByName settings.sceneExtension (documentsIn uri documents) :=
      fun left hleft right hright =>
        hapart.toldByName left (documentsIn_subset uri _ hleft) right (documentsIn_subset uri _ hright)
    have hdistinct' : ToldByName settings.sceneExtension (documentsIn uri others) :=
      fun left hleft right hright => hdistinct left (hin.mem_iff.mpr hleft) right (hin.mem_iff.mpr hright)
    rw [eventsOf_indexAll, eventsOf_indexAll, survives_append_indexed, survives_append_indexed,
      survives_map_indexed_iff hdistinct, survives_map_indexed_iff hdistinct', hin.mem_iff]
    exact or_congr_right (and_congr_right fun _ => ⟨fun hkept other hother => hkept other (hin.mem_iff.mpr hother),
      fun hkept other hother => hkept other (hin.mem_iff.mp hother)⟩)

end Gamebook.Project
