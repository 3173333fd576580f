import Gamebook.Proofs.Scene.Spans
import Gamebook.Proofs.Tree.Forest
import Mathlib.Data.List.Forall2

/-!
The lines of a scene in its tree. A walk over the tree comes to one node for each line of the source, in
their order, whatever the blocks are in which the lines stand.
-/

namespace Gamebook

def Kind.isLine : Kind → Bool
  | .line _ _ _ => true
  | _ => false

theorem Kind.isLine_of_isContent {kind : Kind} (h : kind.isContent = true) : kind.isLine = false := by
  cases kind <;> first | rfl | cases h

namespace TreeEntry

def isLine (entry : TreeEntry) : Bool := entry.phrase.kind.isLine

/-- The statement of a line: its first part that is not indentation. -/
def statement? (entry : TreeEntry) : Option TreeEntry := entry.parts.find? (·.phrase.kind.isContent)

end TreeEntry

namespace Phrase

theorem exists_of_mem_entriesOf {parent : Option Nat} {base : Nat} {phrases : List Phrase} {entry : TreeEntry}
    (h : entry ∈ entriesOf parent base phrases) :
    ∃ phrase ∈ phrases, ∃ first, entry ∈ phrase.entries parent first := by
  induction phrases generalizing base with
  | nil =>
      rw [entriesOf] at h
      cases h
  | cons phrase more ih =>
      rw [entriesOf] at h
      rcases List.mem_append.mp h with h | h
      · exact ⟨phrase, List.mem_cons_self, base, h⟩
      · obtain ⟨other, hother, hentry⟩ := ih h
        exact ⟨other, List.mem_cons_of_mem _ hother, hentry⟩

theorem filter_isLine_eq_nil (parent : Option Nat) (base : Nat) {kinds : Kind → Prop} {places : Nat → Prop}
    {phrases : List Phrase} (hphrases : ∀ phrase ∈ phrases, Everywhere (Sound kinds places) phrase)
    (hkinds : ∀ kind, kinds kind → kind.isLine = false) :
    (entriesOf parent base phrases).filter TreeEntry.isLine = [] := by
  rw [List.filter_eq_nil_iff]
  intro entry hentry
  obtain ⟨phrase, hphrase, first, hmem⟩ := exists_of_mem_entriesOf hentry
  have hkind := hkinds _ ((hphrases phrase hphrase).entry hmem).kind
  rw [TreeEntry.isLine, hkind]
  exact Bool.false_ne_true

end Phrase

namespace Line

variable {source : Text} {line : Line} {context : Context} {unit : Option IndentUnit}

theorem before_phrase (hwithin : line.Within source) (block : List Phrase) :
    (line.phrase unit (line.reading context) block).before = [] := by
  rw [phrase_eq (reading_rest hwithin)]
  rfl

theorem after_phrase (hwithin : line.Within source) (block : List Phrase) :
    (line.phrase unit (line.reading context) block).after =
      line.margin unit ++ ((line.reading context).1.map (line.stated block)).toList := by
  rw [phrase_eq (reading_rest hwithin)]
  rfl

theorem parts_phrase (hwithin : line.Within source) (block : List Phrase) :
    (line.phrase unit (line.reading context) block).parts =
      line.margin unit ++ ((line.reading context).1.map (line.stated block)).toList := by
  rw [Phrase.parts, before_phrase hwithin, after_phrase hwithin, List.nil_append]

theorem kind_phrase (hwithin : line.Within source) (block : List Phrase) :
    (line.phrase unit (line.reading context) block).kind = .line line.number line.width line.type := by
  rw [phrase_eq (reading_rest hwithin)]
  rfl

theorem issues_phrase (hwithin : line.Within source) (block : List Phrase) :
    (line.phrase unit (line.reading context) block).issues = [] := by
  rw [phrase_eq (reading_rest hwithin)]
  rfl

/-- The entry of the statement on a line whose entry begins at `base`. -/
def statementEntry (unit : Option IndentUnit) (line : Line) (base : Nat) (block : List Phrase)
    (statement : Statement) : TreeEntry where
  base := base + 1 + Phrase.countAll (line.margin unit)
  parent := some base
  phrase := line.stated block statement

theorem id_phrase (hwithin : line.Within source) (parent : Option Nat) (base : Nat) (block : List Phrase) :
    TreeEntry.id ⟨base, parent, line.phrase unit (line.reading context) block⟩ = base := by
  rw [TreeEntry.id, Phrase.idFrom, before_phrase hwithin]
  rfl

theorem statement?_phrase (hwithin : line.Within source) (parent : Option Nat) (base : Nat)
    (block : List Phrase) :
    TreeEntry.statement? ⟨base, parent, line.phrase unit (line.reading context) block⟩ =
      (line.reading context).1.map (line.statementEntry unit base block) := by
  have hmargin : (TreeEntry.located (some base) (base + 1) (line.margin unit)).find?
      (·.phrase.kind.isContent) = none := by
    rw [List.find?_eq_none]
    intro entry hentry
    have hmem : entry.phrase ∈ line.margin unit := by
      rw [← TreeEntry.map_phrase_located (some base) (base + 1) (line.margin unit)]
      exact List.mem_map_of_mem hentry
    have hbuilt : entry.phrase.Built (fun kind => kind.isContent = false) (Text.IsCut source) :=
      margin_built hwithin (fun _ _ => rfl) _ hmem
    rw [hbuilt.sound.here.kind]
    exact Bool.false_ne_true
  rw [TreeEntry.statement?, TreeEntry.parts, id_phrase hwithin, before_phrase hwithin, after_phrase hwithin,
    TreeEntry.located, List.nil_append, TreeEntry.located_append, List.find?_append, hmargin, Option.none_or]
  cases hfound : (line.reading context).1 with
  | none => rfl
  | some statement =>
      have hkind : (line.stated block statement).kind.isContent = true := by
        rw [stated_kind]
        exact (reading_content hwithin hfound).sound.here.kind
      exact List.find?_cons_of_pos hkind

theorem filter_isLine_stated (hwithin : line.Within source) {statement : Statement}
    (hfound : (line.reading context).1 = some statement) (base : Nat) (block : List Phrase) :
    ∃ first, ((line.stated block statement).entries (some base)
        (base + 1 + Phrase.countAll (line.margin unit))).filter TreeEntry.isLine =
      (Phrase.entriesOf (some (line.statementEntry unit base block statement).id) first block).filter
        TreeEntry.isLine := by
  have hsound := ((reading_content hwithin hfound).shift fun _ => hwithin.isCut).sound
  have hkinds : ∀ kind : Kind, kind.isContent = true → kind.isLine = false :=
    fun _ => Kind.isLine_of_isContent
  have hbefore := fun parent base => Phrase.filter_isLine_eq_nil parent base
    (fun part hpart => hsound.part (List.mem_append_left _ hpart)) hkinds
  have hafter := fun parent base => Phrase.filter_isLine_eq_nil parent base
    (fun part hpart => hsound.part (List.mem_append_right _ hpart)) hkinds
  have hself (first : Nat) : ¬TreeEntry.isLine ⟨first, some base, line.stated block statement⟩ = true := by
    rw [TreeEntry.isLine, stated_kind, hkinds _ (reading_content hwithin hfound).sound.here.kind]
    exact Bool.false_ne_true
  rw [Phrase.entries_eq_cons, List.filter_cons_of_neg (hself _), List.filter_append, stated_before,
    stated_after, hbefore, List.nil_append, Phrase.entriesOf_append, List.filter_append, hafter, List.nil_append]
  exact ⟨_, rfl⟩

/-- The lines in the phrase of a line are the line itself and those of the block of its statement. -/
theorem filter_isLine_phrase (unit : Option IndentUnit) (hwithin : line.Within source)
    (parent : Option Nat) (base : Nat) {block : List Phrase}
    (hblank : (line.reading context).1 = none → block = []) :
    ∃ owner first,
      ((line.phrase unit (line.reading context) block).entries parent base).filter TreeEntry.isLine =
        ⟨base, parent, line.phrase unit (line.reading context) block⟩ ::
          (Phrase.entriesOf (some owner) first block).filter TreeEntry.isLine ∧
      ∀ statement, (line.reading context).1 = some statement →
        owner = (line.statementEntry unit base block statement).id := by
  have hbuilt : ∀ part ∈ line.margin unit, part.Built (fun kind => kind.isLine = false) (Text.IsCut source) :=
    margin_built hwithin fun _ _ => rfl
  have hmargin : (Phrase.entriesOf (some base) (base + 1) (line.margin unit)).filter TreeEntry.isLine = [] :=
    Phrase.filter_isLine_eq_nil _ _ (fun part hpart => (hbuilt part hpart).sound) fun _ h => h
  have hself : TreeEntry.isLine ⟨base, parent, line.phrase unit (line.reading context) block⟩ = true := by
    rw [TreeEntry.isLine, kind_phrase hwithin]
    rfl
  have hid : (line.phrase unit (line.reading context) block).idFrom base = base :=
    id_phrase hwithin parent base block
  rw [Phrase.entries_eq_cons, List.filter_cons_of_pos hself, hid, before_phrase hwithin, after_phrase hwithin,
    Phrase.entriesOf, List.nil_append, Phrase.entriesOf_append, List.filter_append, hmargin, List.nil_append]
  cases hfound : (line.reading context).1 with
  | none =>
      rw [hblank hfound]
      exact ⟨base, base, rfl, fun _ h => nomatch h⟩
  | some statement =>
      obtain ⟨first, hfirst⟩ := filter_isLine_stated hwithin hfound base block
      refine ⟨_, first, ?_, fun other hother => by rw [← Option.some.inj hother]⟩
      rw [Option.map_some, Option.toList_some, Phrase.entriesOf, Phrase.entriesOf, List.append_nil, hfirst]

/-- The entry of the first of some lines, and the statement on it. -/
def headEntry (unit : Option IndentUnit) (context : Context) (line : Line) (more : List Line)
    (parent : Option Nat) (base : Nat) : TreeEntry where
  base := base
  parent := parent
  phrase := line.phrase unit (line.reading context)
    (phrases unit (line.inner context) (line.below context more).1)

/-- The lines in the phrases of some lines are the first line, those in its block, whose parent is the
statement of the line, and those behind the block. -/
theorem filter_isLine_phrases_cons (unit : Option IndentUnit) (context : Context) (more : List Line)
    (hwithin : line.Within source) (parent : Option Nat) (base : Nat) :
    ∃ owner first behind,
      (Phrase.entriesOf parent base (phrases unit context (line :: more))).filter TreeEntry.isLine =
        line.headEntry unit context more parent base ::
          ((Phrase.entriesOf (some owner) first
              (phrases unit (line.inner context) (line.below context more).1)).filter TreeEntry.isLine ++
            (Phrase.entriesOf parent behind
              (phrases unit context (line.below context more).2)).filter TreeEntry.isLine) ∧
      ∀ part, (line.headEntry unit context more parent base).statement? = some part → part.id = owner := by
  have hblank : (line.reading context).1 = none →
      phrases unit (line.inner context) (line.below context more).1 = [] := by
    intro hnone
    have hopened : line.opened? context = none := by
      rw [opened?, hnone]
      rfl
    rw [below, hopened, if_neg (by simp), phrases]
  obtain ⟨owner, first, hfilter, howner⟩ := filter_isLine_phrase unit hwithin parent base hblank
  refine ⟨owner, first, base + (line.headEntry unit context more parent base).phrase.count, ?_, ?_⟩
  · rw [phrases_cons, Phrase.entriesOf, List.filter_append, hfilter]
    rfl
  · intro part hpart
    rw [headEntry, statement?_phrase hwithin, Option.map_eq_some_iff] at hpart
    obtain ⟨statement, hfound, rfl⟩ := hpart
    exact (howner statement hfound).symm

/-- The entry of a line tells the line's number, indentation, type and start; it has no marks, and no
statement if the line is blank. -/
structure Shows (line : Line) (entry : TreeEntry) : Prop where
  kind : entry.phrase.kind = .line line.number line.width line.type
  start : entry.phrase.start = line.start
  issues : entry.phrase.issues = []
  blank : line.isBlank = true → entry.statement? = none

/-- The lines in the phrases of some lines are these lines, in their order. -/
theorem forall₂_shows (unit : Option IndentUnit) (context : Context) {lines : List Line}
    (harranged : Arranged source lines) (parent : Option Nat) (base : Nat) :
    List.Forall₂ Shows lines
      ((Phrase.entriesOf parent base (phrases unit context lines)).filter TreeEntry.isLine) := by
  induction context, lines using below_induction generalizing parent base with
  | nil context =>
      rw [phrases, Phrase.entriesOf]
      exact .nil
  | cons context line more ihblock ihrest =>
      have hwithin := harranged.within line List.mem_cons_self
      have hblock := harranged.sublist (block_sublist context line more)
      have hrest := harranged.sublist (rest_sublist context line more)
      obtain ⟨owner, first, behind, hfilter, _⟩ :=
        filter_isLine_phrases_cons unit context more hwithin parent base
      have hall : List.Forall₂ Shows (_ ++ _) (_ ++ _) :=
        List.rel_append (ihblock hblock (some owner) first) (ihrest hrest parent behind)
      rw [below_append] at hall
      rw [hfilter]
      refine .cons ⟨kind_phrase hwithin _, ?_, issues_phrase hwithin _, ?_⟩ hall
      · exact phrase_start hwithin (harranged.block_below (phrases_starts _ hblock))
      · intro hblank
        rw [headEntry, statement?_phrase hwithin, reading_of_isBlank hblank]
        rfl

end Line

namespace Scene

variable (source : Text) (name uri : Option String)

def lineEntries : List TreeEntry := ((phrase source name uri).entries none 0).filter TreeEntry.isLine

theorem lineEntries_eq : lineEntries source name uri =
    (Phrase.entriesOf (some Tree.root) 1
      (Line.phrases (Line.establishedUnit? (Line.lines source)) .scene (Line.lines source))).filter
        TreeEntry.isLine := by
  rw [lineEntries, Phrase.entries_eq_cons]
  rfl

theorem forall₂_lineEntries : List.Forall₂ Line.Shows (Line.lines source) (lineEntries source name uri) := by
  rw [lineEntries_eq]
  exact Line.forall₂_shows _ .scene (Line.arranged_lines source) (some Tree.root) 1

variable {source name uri}

theorem shows_of_getElem? {index : Nat} {line : Line} {entry : TreeEntry}
    (hline : (Line.lines source)[index]? = some line)
    (hentry : (lineEntries source name uri)[index]? = some entry) : line.Shows entry := by
  obtain ⟨hlines, rfl⟩ := List.getElem?_eq_some_iff.mp hline
  obtain ⟨hentries, rfl⟩ := List.getElem?_eq_some_iff.mp hentry
  exact (forall₂_lineEntries source name uri).get hlines hentries

theorem exists_line {entry : TreeEntry} (hentry : entry ∈ lineEntries source name uri) :
    ∃ (index : Nat) (line : Line), (Line.lines source)[index]? = some line ∧
      (lineEntries source name uri)[index]? = some entry ∧ line.Shows entry := by
  obtain ⟨index, hindex⟩ := List.mem_iff_getElem?.mp hentry
  have hlength := (forall₂_lineEntries source name uri).length_eq
  have hlt : index < (Line.lines source).length := by
    rw [hlength]
    exact (List.getElem?_eq_some_iff.mp hindex).1
  have hline := List.getElem?_eq_getElem hlt
  exact ⟨index, _, hline, hindex, shows_of_getElem? hline hindex⟩

end Scene

namespace Tree

def lineNodes (tree : Tree) : List Nat :=
  (tree.preorder root).filter fun id => (tree.kind? id).any Kind.isLine

/-- There is one node for each line of the source: the nodes of lines, as a walk comes to them, have the
number, start, indentation and type of the line with their index, and no markers. -/
structure Lined (source : Text) (tree : Tree) : Prop where
  length : tree.lineNodes.length = (Line.split source).length
  shown : ∀ index line id, (Line.split source)[index]? = some line → tree.lineNodes[index]? = some id →
    ∃ node run, tree.node? id = some node ∧ Text.slice? line.start line.contentStart source = some run ∧
      node.kind = .line index run.length line.type ∧ node.offset = line.start
  unmarked : ∀ id node, tree.node? id = some node → node.kind.isLine = true → node.issues = []

end Tree

namespace Scene

variable {source : Text} {name uri : Option String} {levels : Levels}

theorem lineNodes_parse :
    (parse source name uri levels).lineNodes = (lineEntries source name uri).map TreeEntry.id := by
  have hwalk : (parse source name uri levels).preorder Tree.root =
      ((phrase source name uri).entries none 0).map TreeEntry.id :=
    Phrase.preorder_toTree levels source (phrase source name uri)
  rw [Tree.lineNodes, hwalk, List.filter_map, lineEntries]
  refine congrArg _ (List.filter_congr ?_)
  intro entry hentry
  show ((parse source name uri levels).kind? entry.id).any Kind.isLine = entry.isLine
  rw [parse, Phrase.kind?_toTree levels source hentry]
  rfl

/-- Every line of a scene has its own node in the tree, and reading a line never leaves anything over to
be marked there. -/
theorem lined_parse (hsource : source ≠ []) (name uri : Option String) (levels : Levels) :
    (parse source name uri levels).Lined source ∧ ∀ line ∈ Line.split source, ∀ context,
      ((Reader.ofLine line).statement context line.type).2.atEnd = true := by
  have hshows := forall₂_lineEntries source name uri
  rw [Line.split_eq_lines hsource]
  refine ⟨⟨?_, ?_, ?_⟩, ?_⟩
  · rw [lineNodes_parse, List.length_map, Line.split_eq_lines hsource, hshows.length_eq]
  · intro index line id hline hid
    rw [Line.split_eq_lines hsource] at hline
    rw [lineNodes_parse, List.getElem?_map, Option.map_eq_some_iff] at hid
    obtain ⟨entry, hentry, rfl⟩ := hid
    have hown := shows_of_getElem? hline hentry
    have hwithin := Line.within_of_mem_lines (List.mem_of_getElem? hline)
    have hmem := (List.mem_filter.mp (List.mem_of_getElem? hentry)).1
    refine ⟨entry.node levels, line.indent, Phrase.node?_toTree levels source hmem,
      hwithin.slice?_indent, ?_, ?_⟩
    · rw [← Line.number_of_getElem?_lines hline]
      exact hown.kind
    · exact hown.start
  · intro id node hnode hkind
    obtain ⟨entry, hentry, rfl, rfl⟩ := Phrase.exists_entry_of_node? hnode
    obtain ⟨_, _, _, _, hline⟩ := exists_line (List.mem_filter.mpr ⟨hentry, hkind⟩)
    rw [TreeEntry.node, hline.issues]
    rfl
  · intro line hline context
    exact Reader.atEnd_iff.mpr (Line.reading_rest (Line.within_of_mem_lines hline))

/-- For instance a choice with one option. -/
theorem lined_parse_choice : "*choice\n  #One\n".toList ≠ [] ∧
    ((parse "*choice\n  #One\n".toList none none {}).Lined "*choice\n  #One\n".toList ∧
      ∀ line ∈ Line.split "*choice\n  #One\n".toList, ∀ context,
        ((Reader.ofLine line).statement context line.type).2.atEnd = true) :=
  ⟨by decide, lined_parse (by decide) none none {}⟩

end Scene

end Gamebook
