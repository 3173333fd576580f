import Gamebook.Proofs.Checked.Content
import Gamebook.Proofs.Checked.Layout

/-!
Scenes are parsed to their end. Behind every line of a block, and before the block that a line opens, a checked
parser has got on by a line, so that it makes a tree of every source; it is the tree that is read from it.
-/

namespace Gamebook.Checked

open Course (again again_of_advances descend descend_eq)
open Gamebook.Parser (Arrives Begins Block Enters Indents MayState States Stated)

variable {source : Text} {levels : Levels} {number floor size width : Nat} {site : Site} {old : Tree} {p q : Parser}
  {whole part phrase : Phrase} {unit : Option IndentUnit} {line : Line} {more behind : List Line} {context : Context}
  {rule : (Opening → Parser → Option (Option IndentUnit × Parser)) →
    Opening → Parser → Option (Option IndentUnit × Parser)}
  {nested : Opening → Parser → Option (Option IndentUnit × Parser)}

/-- The lines of a block have been put into the node of their owner. -/
structure LaysOut (source : Text) (levels : Levels) (number : Nat) (old : Tree) (whole part : Phrase) (owner : Nat)
    (outcome : Option IndentUnit × Parser) : Prop where
  arrives : outcome.2.Arrives source levels number outcome.1
  hangs : outcome.2.tree.Hangs levels old whole part owner

/-- The rule puts the phrases of the lines of a block into the node of their owner, where the block begins at the
given line or below it and there are fewer lines than the given number. -/
def Lays (source : Text) (levels : Levels) (floor size : Nat)
    (block : Opening → Parser → Option (Option IndentUnit × Parser)) : Prop :=
  ∀ ⦃opening : Opening⦄ ⦃first : Nat⦄ ⦃lines behind : List Line⦄ ⦃p : Parser⦄ ⦃old : Tree⦄ ⦃whole part : Phrase⦄,
    floor ≤ first → lines.length < size → Block source opening.width lines behind first →
    p.Arrives source levels first opening.unit → p.tree.Hangs levels old whole part opening.owner →
    ∃ outcome, block opening p = some outcome ∧ LaysOut source levels (first + lines.length) old whole
      (part.addAll (Line.phrases (Line.establishedUnit? (Line.split source)) opening.context lines)) opening.owner outcome

/-- A line has been taken with the lines of its block. -/
structure Takes (source : Text) (levels : Levels) (number : Nat) (old : Tree) (phrase : Phrase)
    (outcome : Nat × Option IndentUnit × Parser) : Prop where
  id : outcome.1 = (old.entry phrase).id
  arrives : outcome.2.2.Arrives source levels number outcome.2.1
  stores : outcome.2.2.tree.Stores levels old phrase

section Takes

variable {id owner : Nat} (h : Takes source levels number p.tree phrase (id, unit, q))
include h

theorem Takes.adopt_arrives (owner : Nat) : (q.adopt owner id).Arrives source levels number unit :=
  h.arrives.retree ((Tree.source_adopt _ _ _ _).trans h.arrives.begins.onSource)

/-- A line is put into the node of the statement that has opened its block. -/
theorem Takes.adopt_hangs (hhangs : p.tree.Hangs levels old whole part owner) :
    (q.adopt owner id).tree.Hangs levels old whole (part.add phrase) owner := by
  have hid : id = (p.tree.entry phrase).id := h.id
  rw [Parser.tree_adopt, hid]
  exact hhangs.adopt h.stores

/-- A line is put into the node of the scene. -/
theorem Takes.adopt_stores (hstores : p.tree.Stores levels old whole) :
    (q.adopt (old.entry whole).id id).tree.Stores levels old (whole.add phrase) := by
  have hid : id = (p.tree.entry phrase).id := h.id
  rw [Parser.tree_adopt, hid]
  exact hstores.add h.stores

end Takes

/-! ### A line -/

/-- The phrase of a line with those of the lines that are below it, out of all that follow. -/
def lineOf (site : Site) (context : Context) (more : List Line) : Phrase :=
  site.line.phrase (Line.establishedUnit? (Line.split site.source)) (site.line.reading context)
    (Line.phrases (Line.establishedUnit? (Line.split site.source)) (site.line.inner context)
      (site.line.below context more).1)

theorem lineOf_blank (hreading : (site.line.reading context).1 = none) :
    lineOf site context more = Parser.header (Line.establishedUnit? (Line.split site.source)) site.line := by
  have hreach : (site.line.reading context).2.lastEnd + site.line.start = site.line.contentStart := by
    rw [(Line.reading_none hreading).2]
    exact Nat.add_comm _ _
  rw [lineOf, Line.phrase_eq (Line.reading_rest site.within), hreading, hreach, Option.map_none, Option.toList_none,
    Phrase.addAll_nil]
  exact Phrase.reach_of_le (Parser.contentStart_le_header _ _)

theorem lineOf_stated {statement : Statement} {behind : Reader}
    (hreading : site.line.reading context = (some statement, behind)) :
    lineOf site context more = ((Parser.header (Line.establishedUnit? (Line.split site.source)) site.line).reach
      (site.line.start + behind.lastEnd)).add (site.line.stated (Line.phrases
        (Line.establishedUnit? (Line.split site.source)) (site.line.inner context) (site.line.below context more).1)
          statement) := by
  rw [lineOf, Line.phrase_eq (Line.reading_rest site.within), hreading, Option.map_some, Option.toList_some,
    Phrase.addAll_singleton, Nat.add_comm behind.lastEnd]
  rfl

/-- Behind the asterisk of a choice there is room for its name. -/
theorem bears_header (hsource : old.source = site.source) {statement : Statement} {behind : Reader}
    (hreading : site.line.reading context = (some statement, behind)) (lines : List Phrase) (fake : Bool)
    (hkind : ((statement.phrase.shift site.line.start).addAll lines).kind = .choiceCommand fake) :
    ((statement.phrase.shift site.line.start).addAll lines).Bears (Text.bytes old.source)
      ((statement.phrase.shift site.line.start).addAll lines).start
      ((((statement.phrase.shift site.line.start).addAll lines).kind.commandName?.map (·.utf8ByteSize)).getD 0 + 1) := by
  have hsame : ((statement.phrase.shift site.line.start).addAll lines).kind = statement.phrase.kind :=
    Phrase.shift_kind _ _
  have hfound : (site.line.reading context).1 = some statement := congrArg (·.1) hreading
  rw [hsame] at hkind ⊢
  have hheader := (Line.place_of_site ((Line.reading_states site.within hfound).header fake hkind)).le_stop
  dsimp only at hheader
  have hstart := (statement.phrase.shift site.line.start).addAll_start_le lines
  have hstop := site.within.stop_le
  have hlast := le_lastOffset (Text.bytes site.source)
  rw [Phrase.shift_start] at hstart
  rw [hsource]
  exact .inl (by omega)

/-- A line without a statement ends behind its indentation. -/
theorem restOfLine_blank (h : Indents site old (width, unit, p)) (hreading : (site.line.reading context).1 = none)
    (hstatement : Grammar.statement Option context site.line.type p = some (none, p)) :
    ∃ outcome, restOfLine nested context site.line.type old.size width unit p = some outcome ∧
      Takes site.source site.levels (site.line.number + 1 + (site.line.below context more).1.length) old
        (lineOf site context more) outcome := by
  obtain ⟨hcontent, -⟩ := Line.reading_none hreading
  have hopened : site.line.opened? context = none := by rw [Line.opened?, hreading]; rfl
  have hblank : site.line.isBlank = true := List.isEmpty_iff.mpr hcontent
  obtain ⟨hstands, hrest⟩ := Enters.stands_of_isBlank h.enters hblank
  have hend : p.atEnd = true := (Enters.atEnd h.enters).trans hblank
  have hfinish : Grammar.finishLine Option old.size p = some (Grammar.finishLine Id old.size p) := by
    unfold Grammar.finishLine
    rw [if_pos hend, if_pos hend]
    rfl
  have hstored := Enters.finishBlank h.enters h.stores (Parser.contentStart_le_header _ _)
  rw [Parser.id_header] at hstored
  obtain ⟨hbegins, hstores⟩ := hstands.finishLine hrest hstored
  refine ⟨_, Option.bind_eq_some_iff.mpr ⟨_, hstatement, Option.bind_eq_some_iff.mpr ⟨_, hfinish, rfl⟩⟩, ?_⟩
  rw [lineOf_blank hreading, Line.below, hopened]
  exact ⟨(Parser.id_header _ _ old).symm, ⟨hbegins, h.unit⟩, hstores⟩

/-- The statement of a line is put into it, and the lines of its block into the statement. -/
theorem restOfLine_stated (hnested : Lays site.source site.levels (site.line.number + 1) size nested)
    (hsize : more.length < size)
    (hsegment : Line.Segment (Line.split site.source) (site.line :: more) behind site.line.number)
    (hover : (site.line.opened? context).isSome = true → Line.continues site.line.width behind = false)
    (h : Indents site old (width, unit, p)) {made : Stated × Parser} {read : Statement × Reader}
    (hstates : States site p.tree made read) (hreading : site.line.reading context = (some read.1, read.2))
    (hstatement : Grammar.statement Option context site.line.type p = some (some made.1, made.2)) :
    ∃ outcome, restOfLine nested context site.line.type old.size width unit p = some outcome ∧
      Takes site.source site.levels (site.line.number + 1 + (site.line.below context more).1.length) old
        (lineOf site context more) outcome := by
  have hrest := @Line.reading_rest _ _ context site.within
  have hopens : site.line.opened? context = made.1.opens := by
    rw [Line.opened?, hreading, hstates.opens]
    rfl
  rw [hreading] at hrest
  obtain ⟨hbegins, hhangs⟩ := hstates.closes hrest h.stores
  have hfinish := finishLine_fills old.size (hstates.agrees.reads.adopt old.size made.1.node)
  have hsame := hstates.opens
  have hid : ∀ part, old.size = (old.entry (((Parser.header (Line.establishedUnit? (Line.split site.source))
      site.line).reach (site.line.start + read.2.lastEnd)).add part)).id :=
    fun _ => (Parser.id_header (Line.establishedUnit? (Line.split site.source)) site.line old).symm
  have hsource : old.source = site.source := h.stores.split.source.symm.trans h.enters.looks.source
  have hbears := bears_header hsource hreading
  rw [Parser.id_header] at hbegins hhangs
  rw [lineOf_stated hreading]
  clear hstates hreading
  -- What follows the line is read off the statement, which has to say openly whether it opens a block.
  obtain ⟨⟨node, opens⟩, q⟩ := made
  dsimp only at hfinish hbegins hhangs hopens hsame
  rw [Line.stated, ← hsame]
  cases opens with
  | none =>
      refine ⟨_, Option.bind_eq_some_iff.mpr ⟨_, hstatement, Option.bind_eq_some_iff.mpr ⟨_, hfinish, rfl⟩⟩, ?_⟩
      rw [Line.below, hopens, if_neg (by decide), if_neg (by decide), Line.phrases, Line.withBlock, Phrase.addAll_nil]
      exact ⟨hid _, ⟨hbegins, h.unit⟩, hhangs.stores⟩
  | some inner =>
      have hopened : (site.line.opened? context).isSome = true := by rw [hopens]; rfl
      have hinner : site.line.inner context = inner := by rw [Line.inner, hopens]; rfl
      have hbelow := site.line.length_below context more
      have hwithin := Parser.block_inner hsegment hopened (hover hopened)
      obtain ⟨⟨known, behind⟩, hlaid, hlays⟩ := @hnested ⟨node, site.line.width, inner, unit⟩ _ _ _ _ _ _ _
        (Nat.le_refl _) (by omega) hwithin ⟨hbegins, h.unit⟩ hhangs
      obtain ⟨cursor, -, -, hlooks⟩ := hlays.arrives.begins.looks
      obtain ⟨tree, hrequired, hmarked⟩ := Parser.hangs_requireOptions hlays.hangs hlooks.levels
        (hbears _)
      have hwidth : width = site.line.width := h.width
      rw [← hwidth] at hlaid
      refine ⟨_, Option.bind_eq_some_iff.mpr ⟨_, hstatement, Option.bind_eq_some_iff.mpr ⟨_, hfinish,
        Option.bind_eq_some_iff.mpr ⟨_, hlaid, rfl⟩⟩⟩, ?_⟩
      dsimp only
      rw [hrequired, hinner, Option.isSome_some, if_pos rfl]
      have hmade := hmarked.split.source.trans hsource
      exact ⟨hid _, hlays.arrives.retree hmade, hmarked.stores⟩

/-- A line is taken, with the lines of its block. -/
theorem lineOver_takes (site : Site) (context : Context) (hsource : site.source ≠ [])
    (hnested : Lays site.source site.levels (site.line.number + 1) size nested) (hsize : more.length < size)
    (hsegment : Line.Segment (Line.split site.source) (site.line :: more) behind site.line.number)
    (hover : (site.line.opened? context).isSome = true → Line.continues site.line.width behind = false)
    (h : p.Arrives site.source site.levels site.line.number unit) :
    ∃ outcome, lineOver nested context unit p = some outcome ∧
      Takes site.source site.levels (site.line.number + 1 + (site.line.below context more).1.length) p.tree
        (lineOf site context more) outcome := by
  obtain ⟨cursor, -, -, hlooks⟩ := h.begins.looks
  have hposition := h.begins.position hsource
  have hline : p.scanner.lines[site.line.number]? = some site.line := (hlooks.onSource.getElem? _).trans site.found
  have hcreated := Tree.stores_create site.levels p.tree (.line site.line.number 0 site.line.type) site.line.start
  let created := (p.createAt (.line site.line.number 0 site.line.type) site.line.start).2
  let margin := Parser.margin p.tree.size site.line.number site.line.type unit created
  have hbegun : created.Arrives site.source site.levels site.line.number unit := h.retree h.begins.onSource
  have hindents : Indents site p.tree margin := hbegun.margin hcreated
  have htaken : lineOver nested context unit p =
      restOfLine nested context site.line.type p.tree.size margin.1 margin.2.1 margin.2.2 := by
    rw [lineOver, hposition]
    dsimp only
    rw [hline]
    rfl
  rw [htaken]
  clear_value margin
  obtain ⟨width, known, q⟩ := margin
  have hstatement := statement_eq hindents.enters context
  have hstates := Enters.statement hindents.enters context
  generalize hmade : Grammar.statement Id context site.line.type q = outcome at hstatement hstates
  generalize hread : site.line.reading context = read at hstates
  cases hstates with
  | none => exact restOfLine_blank hindents (congrArg (·.1) hread) hstatement
  | stated hstates => exact restOfLine_stated hnested hsize hsegment hover hindents hstates hread hstatement

/-! ### Blocks -/

/-- What a block goes on with has got on when it comes to a line further below. -/
theorem lays_again (site : Site) (hsource : site.source ≠ [])
    (hlays : Lays site.source site.levels 0 size (descend rule)) (h : p.Begins site.source site.levels site.line.number) :
    Lays site.source site.levels (site.line.number + 1) size (again rule p) := by
  intro opening first lines behind q old whole part hfloor hsize hblock harrives hhangs
  obtain ⟨outcome, hlaid, houtcome⟩ := hlays (Nat.zero_le first) hsize hblock harrives hhangs
  exact ⟨outcome, (again_of_advances (h.advances harrives.begins hfloor hsource) opening).trans hlaid, houtcome⟩

/-- A block ends where the next line with content is not deeper, or where there is none. -/
theorem block_ends (h : p.Begins source levels number) (hsource : source ≠ []) {opening : Opening}
    (hover : Line.continues opening.width ((Line.split source).drop number) = false) :
    block opening p = some (opening.unit, p) := by
  have hnext := nextIndent_eq h hsource
  rw [h.nextIndent] at hnext
  rw [block, descend_eq]
  refine Option.bind_eq_some_iff.mpr ⟨_, hnext, ?_⟩
  cases hwidth : Line.nextWidth? ((Line.split source).drop number) with
  | none => rfl
  | some next =>
      rw [Line.continues, hwidth] at hover
      exact if_pos (Nat.le_of_not_lt (of_decide_eq_false hover))

/-- By the number of lines in the block: each of them is taken with its own block, and the block goes on behind that. -/
theorem block_lays (hsource : source ≠ []) (levels : Levels) (size : Nat) : Lays source levels 0 size block := by
  induction size with
  | zero => exact fun _ _ _ _ _ _ _ _ _ hsize => absurd hsize (Nat.not_lt_zero _)
  | succ size ih =>
      intro opening first lines behind p old whole part _ hsize hblock harrives hhangs
      cases lines with
      | nil =>
          have hends := hblock.ended
          rw [← List.nil_append behind, ← hblock.drop] at hends
          rw [Line.phrases, Phrase.addAll_nil]
          exact ⟨(opening.unit, p), block_ends harrives.begins hsource hends, harrives, hhangs⟩
      | cons line more =>
          obtain rfl := Line.number_of_getElem?_split hblock.head
          let site : Site := ⟨source, levels, line, hblock.head⟩
          have hgoes := hblock.within _ List.suffix_rfl (List.cons_ne_nil line more)
          obtain ⟨next, hwidth, hdeeper⟩ := Line.continues_iff.mp hgoes
          have hnext := nextIndent_eq harrives.begins hsource
          rw [harrives.begins.nextIndent, hblock.drop, Line.nextWidth?_append hwidth] at hnext
          have hbelow := line.length_below opening.context more
          rw [List.length_cons] at hsize
          have hagain := lays_again site hsource ih harrives.begins
          obtain ⟨⟨id, known, q⟩, hline, htakes⟩ := lineOver_takes site opening.context hsource hagain (by omega)
            hblock.toSegment hblock.over_inner harrives
          obtain ⟨outcome, hlaid, houtcome⟩ := @hagain { opening with unit := known } _ _ _ (q.adopt opening.owner id)
            _ _ _ (Nat.le_add_right _ _) (by omega) (hblock.rest opening.context) (htakes.adopt_arrives opening.owner)
            (htakes.adopt_hangs hhangs)
          have hlines : line.number + (more.length + 1) = line.number + 1 + (line.below opening.context more).1.length +
              (line.below opening.context more).2.length := by omega
          rw [block, descend_eq, Line.phrases_cons, Phrase.addAll_cons, List.length_cons, hlines]
          refine ⟨outcome, Option.bind_eq_some_iff.mpr ⟨_, hnext, ?_⟩, houtcome⟩
          refine (if_neg (Nat.not_le_of_lt hdeeper)).trans ?_
          exact Option.bind_eq_some_iff.mpr ⟨_, hline, hlaid⟩

/-! ### Scenes -/

/-- The lines of a scene are taken one after the other, each with its block. -/
theorem lines_stores (hsource : source ≠ []) (levels : Levels) {remaining : List Line}
    (hsegment : Line.Segment (Line.split source) remaining [] number) (h : p.Arrives source levels number unit)
    (hstores : p.tree.Stores levels old whole) :
    ∃ q, lines ((old.entry whole).id, unit) p = some q ∧ q.tree.Stores levels old
      (whole.addAll (Line.phrases (Line.establishedUnit? (Line.split source)) .scene remaining)) := by
  induction hlength : remaining.length using Nat.strongRecOn generalizing remaining number unit p whole with
  | ind size ih =>
      rw [lines, descend_eq]
      cases remaining with
      | nil =>
          have hnone : (Line.split source)[number]? = none := by
            rw [← List.head?_drop, hsegment.drop]
            rfl
          have hend : p.sees .eof = true := by rw [Parser.sees, h.begins.token_behind hnone]; rfl
          rw [Line.phrases, Phrase.addAll_nil]
          exact ⟨p, if_pos hend, hstores⟩
      | cons line more =>
          obtain rfl := Line.number_of_getElem?_split hsegment.head
          let site : Site := ⟨source, levels, line, hsegment.head⟩
          have hmore : p.sees .eof = false := @Begins.sees_eof site p h.begins hsource
          have hnested : Lays source levels (line.number + 1) (more.length + 1) block :=
            fun _ _ _ _ _ _ _ _ _ => block_lays hsource levels _ (Nat.zero_le _)
          obtain ⟨⟨id, known, q⟩, hline, htakes⟩ := lineOver_takes site .scene hsource hnested (Nat.lt_succ_self _)
            hsegment (fun _ => rfl) h
          have hbehind := htakes.adopt_arrives (old.entry whole).id
          have hlater : line.number < line.number + 1 + (line.below .scene more).1.length := by omega
          have hadvances := @Begins.advances _ site p _ h.begins hbehind.begins hlater hsource
          have hbelow := line.length_below .scene more
          rw [List.length_cons] at hlength
          obtain ⟨last, hlast, hall⟩ := ih _ (by omega) (hsegment.rest .scene) hbehind (htakes.adopt_stores hstores) rfl
          refine ⟨last, ?_, ?_⟩
          · refine (if_neg (Bool.eq_false_iff.mp hmore)).trans ?_
            exact Option.bind_eq_some_iff.mpr ⟨_, hline, (again_of_advances hadvances _).trans hlast⟩
          · rw [Line.phrases_cons, Phrase.addAll_cons]
            exact hall

/-- Behind the last line the node of the scene stands for its phrase, except for its end. -/
theorem scene_stores (source : Text) (name uri : Option String) (levels : Levels) :
    ∃ q, lines (0, none) ((Parser.ofText source levels).createAt (.scene name uri) 0).2 = some q ∧
      q.tree.Stores levels (.ofSource source) ((Phrase.empty (.scene name uri) 0).addAll
        (Line.phrases (Line.establishedUnit? (Line.lines source)) .scene (Line.lines source))) := by
  have hstores := Tree.stores_create levels (.ofSource source) (.scene name uri) 0
  by_cases hsource : source = []
  · subst hsource
    have hnone : Line.lines [] = [] := rfl
    rw [lines, descend_eq, hnone, Line.phrases, Phrase.addAll_nil]
    exact ⟨_, if_pos rfl, hstores⟩
  · have harrives : ((Parser.ofText source levels).createAt (.scene name uri) 0).2.Arrives source levels 0 none :=
      ⟨(Parser.begins_ofText source levels).retree rfl, rfl⟩
    have hall := lines_stores hsource levels (Line.segment_all _) harrives hstores
    rw [Line.split_eq_lines hsource] at hall
    exact hall

/-- Every source is parsed to its end: no loop goes round and no rule is entered inside itself without having got
on, and the tree is the one that is read from the source. How deep rules can be nested inside each other before the
call stack runs out is not modelled. -/
theorem parseScene_eq (source : Text) (name uri : Option String) (levels : Levels) :
    parseScene source name uri levels = some (Scene.parse source name uri levels) := by
  obtain ⟨q, hlines, hall⟩ := scene_stores source name uri levels
  have hreached := hall.reach (Text.bytes source)
  rw [Tree.id_entry_addAll] at hreached
  exact Option.bind_eq_some_iff.mpr ⟨q, hlines, congrArg some hreached.eq_toTree⟩

end Gamebook.Checked
