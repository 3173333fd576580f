import Gamebook.Proofs.Position
import Gamebook.Proofs.Scene.Lines
import Gamebook.Proofs.Tree.Inside

/-!
The markers of a scene. Whatever is marked is marked on a node inside a line, and on that line: a marker never
reaches into the break of the line or into another line, so that its diagnostic starts and ends there.
-/

namespace Gamebook

/-- The issues inside a phrase lie on the line that holds them: the line around the phrase, if there is one, or
the nearest line inside it. Lines have no issues of their own. -/
inductive Phrase.Marked (source : Text) : Option Line → Phrase → Prop
  | line {holder : Option Line} {line : Line} {phrase : Phrase} (hline : line ∈ Line.split source)
      (hkind : phrase.kind = .line line.number line.width line.type) (hissues : phrase.issues = [])
      (hparts : ∀ part ∈ phrase.parts, Marked source (some line) part) : Marked source holder phrase
  | other {holder : Option Line} {phrase : Phrase} (hkind : phrase.kind.isLine = false)
      (hissues : ∀ issue ∈ phrase.issues, ∃ line ∈ holder,
        line.start ≤ issue.offset ∧ issue.stop ≤ line.contentEnd)
      (hparts : ∀ part ∈ phrase.parts, Marked source holder part) : Marked source holder phrase

namespace Line

variable {source : Text} {line : Line} {context : Context} {unit : Option IndentUnit}

/-- An offset of the source on the line, its break apart. -/
def Inside (line : Line) (offset : Nat) : Prop := line.start ≤ offset ∧ offset ≤ line.contentEnd

theorem Place.inside {offset : Nat} (h : line.Place offset) : line.Inside (offset + line.start) :=
  ⟨Nat.le_add_left _ _, h.within_content.2⟩

/-- What stands on a line, with no line in it, is marked on the line. -/
theorem marked_of_sound {phrase : Phrase}
    (h : phrase.Everywhere (Phrase.Sound (fun kind => kind.isLine = false) line.Inside)) :
    phrase.Marked source (some line) := by
  induction h with
  | intro hsound _ ih =>
      refine .other hsound.kind (fun issue hissue => ?_) ih
      obtain ⟨-, -, hoffset, hstop⟩ := hsound.issues issue hissue
      exact ⟨line, rfl, hoffset.1, hstop.2⟩

theorem margin_marked (unit : Option IndentUnit) :
    ∀ part ∈ line.margin unit, part.Marked source (some line) := by
  intro part hpart
  obtain ⟨indentation, hfound, rfl⟩ := Option.map_eq_some_iff.mp (Option.mem_toList.mp hpart)
  have hstart : line.Inside (0 + line.start) := by
    rw [Inside, contentEnd, contentStart]
    omega
  have hbuilt : indentation.Built (fun kind => kind.isLine = false) fun offset => line.Inside (offset + line.start) :=
    indentation?_built hfound (fun _ _ => rfl) hstart line.place_indent.inside
  exact marked_of_sound (hbuilt.shift fun _ h => h).sound

/-- The issues of a statement lie on its line, one for options that its block lacks included; those of the block
lie on the lines of the block. -/
theorem stated_marked (hwithin : line.Within source) {block : List Phrase} {statement : Statement}
    (hfound : (line.reading context).1 = some statement)
    (hblock : ∀ part ∈ block, ∀ holder, part.Marked source holder)
    (hbelow : ∀ part ∈ block, line.stop ≤ part.start) : (line.stated block statement).Marked source (some line) := by
  have hcontent : statement.phrase.Built (fun kind => kind.isLine = false) line.Place :=
    (reading_content hwithin hfound).mono (fun _ => Kind.isLine_of_isContent) fun _ h => h
  have hsound := (hcontent.shift fun _ => Place.inside).sound
  have hissues : ∀ issue ∈ (line.stated block statement).issues, line.start ≤ issue.offset ∧
      issue.stop ≤ line.contentEnd := by
    have hown : ∀ issue ∈ (line.withBlock block statement).issues, line.start ≤ issue.offset ∧
        issue.stop ≤ line.contentEnd := by
      intro issue hissue
      obtain ⟨-, -, hoffset, hstop⟩ := hsound.here.issues issue hissue
      exact ⟨hoffset.1, hstop.2⟩
    rcases line.stated_eq block statement with heq | ⟨fake, hkind, heq⟩
    · rw [heq]
      exact hown
    · intro issue hissue
      rw [heq, Phrase.flag_issues] at hissue
      rcases List.mem_append.mp hissue with hissue | hissue
      · exact hown issue hissue
      · -- The options are missed where the statement begins, over the name of its command.
        have hheader := (place_of_site ((reading_states hwithin hfound).header fake hkind)).inside
        rw [List.mem_singleton.mp hissue, Issue.stop, withBlock_start hwithin hfound hbelow, Nat.add_right_comm]
        exact ⟨Nat.le_add_left _ _, hheader.2⟩
  refine .other ?_ (fun issue hissue => ⟨line, rfl, hissues issue hissue⟩) fun part hpart => ?_
  · rw [stated_kind]
    exact hcontent.sound.here.kind
  · rw [stated_parts] at hpart
    rcases List.mem_append.mp hpart with hpart | hpart
    · exact marked_of_sound (hsound.part hpart)
    · exact hblock part hpart _

theorem phrases_marked (context : Context) {lines : List Line} (harranged : Arranged source lines)
    (hlines : ∀ line ∈ lines, line ∈ split source) :
    ∀ part ∈ phrases unit context lines, ∀ holder, part.Marked source holder := by
  induction context, lines using below_induction with
  | nil context =>
      intro part hpart
      rw [phrases] at hpart
      cases hpart
  | cons context line more ihblock ihrest =>
      have hsublist := block_sublist context line more
      have hblock := ihblock (harranged.sublist hsublist) fun lower hlower => hlines lower (hsublist.subset hlower)
      have hbelow := harranged.block_below (@phrases_starts source unit (line.inner context) _ (harranged.sublist hsublist))
      have hwithin := harranged.within line List.mem_cons_self
      have hrest := rest_sublist context line more
      intro part hpart holder
      rw [phrases_cons] at hpart
      rcases List.mem_cons.mp hpart with rfl | hpart
      · refine .line (hlines line List.mem_cons_self) (kind_phrase hwithin _) (issues_phrase hwithin _) ?_
        intro inner hinner
        rw [parts_phrase hwithin] at hinner
        rcases List.mem_append.mp hinner with hinner | hinner
        · exact margin_marked unit inner hinner
        · obtain ⟨statement, hfound, rfl⟩ := Option.map_eq_some_iff.mp (Option.mem_toList.mp hinner)
          exact stated_marked hwithin hfound hblock hbelow
      · exact ihrest (harranged.sublist hrest) (fun lower hlower => hlines lower (hrest.subset hlower)) part hpart holder

end Line

namespace Scene

variable (source : Text) (name uri : Option String)

theorem phrase_marked : (phrase source name uri).Marked source none := by
  have hlines : ∀ line ∈ Line.lines source, line ∈ Line.split source := by
    intro line hline
    by_cases hsource : source = []
    · subst hsource
      cases hline
    · rwa [Line.split_eq_lines hsource]
  exact .other rfl (fun issue hissue => absurd hissue List.not_mem_nil)
    fun part hpart => Line.phrases_marked .scene (Line.arranged_lines source) hlines part hpart none

end Scene

/-! ### In the tree -/

/-- Every marker of a tree is owned by a node that has a line above it, and stays on the nearest one. -/
structure Tree.MarkersInLines (source : Text) (tree : Tree) : Prop where
  held : ∀ id, ∀ marker ∈ tree.issues id, marker.node = id ∧ ∃ above number width type,
    tree.ancestorWhere? id Kind.isLine = some above ∧ tree.kind? above = some (.line number width type)
  range : ∀ id, ∀ marker ∈ tree.issues id, ∀ above number width type,
    tree.ancestorWhere? id Kind.isLine = some above → tree.kind? above = some (.line number width type) →
    ∃ line, (Line.split source)[number]? = some line ∧ line.start ≤ marker.offset ∧ marker.stop ≤ line.contentEnd
  diagnostic : ∀ id, ∀ marker ∈ tree.issues id, ∀ above number width type,
    tree.ancestorWhere? id Kind.isLine = some above → tree.kind? above = some (.line number width type) →
    (marker.diagnostic tree.lineIndex).start.line = number ∧ (marker.diagnostic tree.lineIndex).stop.line = number

namespace Phrase

variable {source : Text} {phrase : Phrase} {entry : TreeEntry}

/-- Going down from the top of a marked phrase, the line that holds a node is its nearest line. -/
theorem Marked.exists_holder (levels : Levels) (h : phrase.Marked source none) (hentry : entry ∈ phrase.entries none 0) :
    ∃ holder, entry.phrase.Marked source holder ∧ ∀ line ∈ holder, line ∈ Line.split source ∧
      ∃ above, (phrase.toTree levels source).ancestorWhere? entry.id Kind.isLine = some above ∧
        (phrase.toTree levels source).kind? above = some (.line line.number line.width line.type) := by
  refine entries_induction_on (motive := fun entry => ∃ holder, entry.phrase.Marked source holder ∧
    ∀ line ∈ holder, line ∈ Line.split source ∧
      ∃ above, (phrase.toTree levels source).ancestorWhere? entry.id Kind.isLine = some above ∧
        (phrase.toTree levels source).kind? above = some (.line line.number line.width line.type)) hentry ?_ ?_
  · exact ⟨none, h, fun line hline => by cases hline⟩
  · intro above habove ih part hpart
    obtain ⟨holder, hmarked, hholder⟩ := ih
    rw [ancestorWhere?_part habove hpart]
    cases hmarked with
    | line hline hkind _ hparts =>
        refine ⟨some _, hparts _ (TreeEntry.phrase_mem_parts hpart), fun line hsame => ?_⟩
        obtain rfl := Option.some.inj hsame
        rw [if_pos (by rw [hkind]; rfl)]
        exact ⟨hline, above.id, rfl, (kind?_toTree levels source habove).trans (congrArg some hkind)⟩
    | other hkind _ hparts =>
        refine ⟨holder, hparts _ (TreeEntry.phrase_mem_parts hpart), ?_⟩
        rwa [if_neg (by rw [hkind]; exact Bool.false_ne_true)]

end Phrase

section Parsed

variable {source : Text} {name uri : Option String} {levels : Levels} {id : Nat} {marker : Marker}

/-- A marker is on the node that it names, and on the line which that node is on. -/
theorem Scene.exists_line_of_marker (hmarker : marker ∈ (Scene.parse source name uri levels).issues id) :
    marker.node = id ∧ ∃ line ∈ Line.split source, line.start ≤ marker.offset ∧ marker.stop ≤ line.contentEnd ∧
      ∃ above, (Scene.parse source name uri levels).ancestorWhere? id Kind.isLine = some above ∧
        (Scene.parse source name uri levels).kind? above = some (.line line.number line.width line.type) := by
  rw [Tree.issues] at hmarker
  cases hnode : (Scene.parse source name uri levels).node? id with
  | none =>
      rw [hnode] at hmarker
      cases hmarker
  | some node =>
      rw [hnode] at hmarker
      obtain ⟨entry, hentry, rfl, rfl⟩ := Phrase.exists_entry_of_node? hnode
      obtain ⟨howner, issue, hissue, hoffset, hstop⟩ := TreeEntry.exists_issue hmarker
      obtain ⟨holder, hmarked, hholder⟩ := (Scene.phrase_marked source name uri).exists_holder levels hentry
      rw [hoffset, hstop]
      cases hmarked with
      | line _ _ hissues _ =>
          rw [hissues] at hissue
          cases hissue
      | other _ hissues _ =>
          obtain ⟨line, hline, hfrom, hto⟩ := hissues issue hissue
          obtain ⟨hsplit, hnearest⟩ := hholder line hline
          exact ⟨howner, line, hsplit, hfrom, hto, hnearest⟩

/-- The line of a marker is the one that the nearest line above its node has the number of. -/
theorem Scene.line_of_marker (hmarker : marker ∈ (Scene.parse source name uri levels).issues id) {above number width : Nat}
    {type : LineType} (habove : (Scene.parse source name uri levels).ancestorWhere? id Kind.isLine = some above)
    (hkind : (Scene.parse source name uri levels).kind? above = some (.line number width type)) :
    ∃ line, (Line.split source)[number]? = some line ∧ line.start ≤ marker.offset ∧ marker.stop ≤ line.contentEnd := by
  obtain ⟨-, line, hsplit, hfrom, hto, nearest, hnearest, hsame⟩ := exists_line_of_marker hmarker
  obtain rfl : nearest = above := Option.some.inj (hnearest.symm.trans habove)
  obtain ⟨rfl, -, -⟩ := Kind.line.inj (Option.some.inj (hsame.symm.trans hkind))
  obtain ⟨index, hindex⟩ := List.mem_iff_getElem?.mp hsplit
  rw [Line.number_of_getElem?_split hindex]
  exact ⟨line, hindex, hfrom, hto⟩

end Parsed

/-- Whatever the scene, its markers stay on their lines. -/
theorem Scene.markers_parse (source : Text) (name uri : Option String) (levels : Levels) :
    (Scene.parse source name uri levels).MarkersInLines source := by
  refine ⟨fun id marker hmem => ?_, fun id marker hmem above number width type habove hkind => ?_,
    fun id marker hmem above number width type habove hkind => ?_⟩
  · obtain ⟨howner, line, -, -, -, above, habove, hkind⟩ := exists_line_of_marker hmem
    exact ⟨howner, above, _, _, _, habove, hkind⟩
  · exact line_of_marker hmem habove hkind
  · obtain ⟨line, hindex, hfrom, hto⟩ := line_of_marker hmem habove hkind
    have hordered : marker.offset ≤ marker.stop := Nat.le_add_right _ _
    have hend : line.contentEnd ≤ line.stop := Nat.le_add_right _ _
    have hsize := ((Line.arranged_split source).within line (List.mem_of_getElem? hindex)).stop_le
    have hlast := le_lastOffset (Text.bytes source)
    have hstop : marker.wrappedStop (Text.bytes source) = marker.stop := Marker.wrappedStop_eq (by omega)
    refine ⟨LineIndex.line_position_content hindex hfrom (.inr (Nat.le_trans hordered hto)), ?_⟩
    show (LineIndex.position (.ofText source) (marker.wrappedStop (Text.bytes source))).line = number
    rw [hstop]
    exact LineIndex.line_position_content hindex (Nat.le_trans hfrom hordered) (.inr hto)

end Gamebook
