import Gamebook.Proofs.Line.Phrase
import Gamebook.Proofs.Parser.Hung
import Gamebook.Proofs.Parser.Layout
import Gamebook.Proofs.Parser.Lines
import Gamebook.Proofs.Scene.Append

/-!
Indentations. When it turns out whether the unit of an indentation counts, its node hangs below that of the
line already. The unit that a parser remembers is the one that the lines behind it have set; where they have
set none, the lines ahead of it will.
-/

namespace Gamebook

namespace Line

theorem establishedUnit?_cons (line : Line) (more : List Line) :
    establishedUnit? (line :: more) =
      if line.isBlank || !line.isIndented || IndentUnit.ofRun line.indent = .mixed then establishedUnit? more
      else some (.ofRun line.indent) := by
  rw [establishedUnit?, List.findSome?_cons]
  dsimp only
  split
  · rename_i unit hunit
    split at hunit
    · cases hunit
    · rename_i hcounts
      rw [if_neg hcounts, hunit]
  · rename_i hunit
    split at hunit
    · rename_i hcounts
      rw [if_pos hcounts]
      rfl
    · cases hunit

end Line

namespace Parser

variable {source : Text} {levels : Levels} {number : Nat} {site : Site} {old : Tree} {p : Parser}
  {whole part : Phrase} {id : Nat} {unit : Option IndentUnit} {more : List Line}

/-- The parser has come to a line, or to the end, and remembers what the lines above say of the unit. -/
structure Arrives (source : Text) (levels : Levels) (number : Nat) (unit : Option IndentUnit) (p : Parser) : Prop where
  begins : p.Begins source levels number
  unit : unit.or (Line.establishedUnit? ((Line.split source).drop number)) = Line.establishedUnit? (Line.split source)

theorem Looks.retree {cursor : Cursor} (h : p.Looks source levels cursor) {tree : Tree}
    (hsource : tree.source = source) : ({ p with tree } : Parser).Looks source levels cursor :=
  ⟨h.onSource, hsource, h.levels, h.looks⟩

theorem Enters.retree (h : p.Enters site) {tree : Tree} (hsource : tree.source = site.source) :
    ({ p with tree } : Parser).Enters site := ⟨h.looks.retree hsource, h.previous⟩

theorem Begins.retree (h : p.Begins source levels number) {tree : Tree} (hsource : tree.source = source) :
    ({ p with tree } : Parser).Begins source levels number := by
  obtain ⟨⟨cursor, hline, hstarted, hlooks⟩, hprevious⟩ := h
  exact ⟨⟨cursor, hline, hstarted, hlooks.retree hsource⟩, hprevious⟩

theorem Begins.onSource (h : p.Begins source levels number) : p.tree.source = source := by
  obtain ⟨⟨cursor, -, -, hlooks⟩, -⟩ := h
  exact hlooks.source

theorem Arrives.retree (h : p.Arrives source levels number unit) {tree : Tree} (hsource : tree.source = source) :
    ({ p with tree } : Parser).Arrives source levels number unit := ⟨h.begins.retree hsource, h.unit⟩

/-- A marker on a node that hangs below another one. -/
theorem hangs_flag (h : p.tree.Hangs levels old whole part id) (hlevels : p.levels = levels) {rule : Rule}
    (hrule : rule.isSettable = false) {offset length : Nat} (hbears : part.Bears (Text.bytes old.source) offset length) :
    ∃ tree, p.flag id rule offset length = { p with tree } ∧
      tree.Hangs levels old whole (part.flag rule offset length) id := by
  subst hlevels
  have hreported : p.levels.of rule ≠ .ignore := by
    rw [p.levels.of_eq_error hrule]
    decide
  exact ⟨_, if_neg hreported, h.mark hreported hbears⟩

theorem hangs_flagWhole (h : p.tree.Hangs levels old whole part id) (hlevels : p.levels = levels) (rule : Rule) :
    ∃ tree, p.flagWhole id rule = { p with tree } ∧ tree.Hangs levels old whole (part.flagWhole rule) id := by
  subst hlevels
  have hflag : p.flagWhole id rule = p.flag id rule part.start part.length := by
    rw [Parser.flagWhole, h.node?]
    rfl
  rw [hflag]
  by_cases hreported : p.levels.of rule = .ignore
  · exact ⟨p.tree, if_pos hreported, h.silent hreported⟩
  · exact ⟨_, if_neg hreported, h.mark hreported (Phrase.bears_whole h.ordered _)⟩

/-- Where no options are in a choice, this is marked on its node. -/
theorem hangs_requireOptions (h : p.tree.Hangs levels old whole part id) (hlevels : p.levels = levels)
    (hbears : ∀ fake, part.kind = .choiceCommand fake → part.Bears (Text.bytes old.source) part.start
      ((part.kind.commandName?.map (·.utf8ByteSize)).getD 0 + 1)) :
    ∃ tree, requireOptions id p = { p with tree } ∧ tree.Hangs levels old whole (Line.requireOptions part) id := by
  rw [Parser.requireOptions, h.node?, Line.requireOptions_eq]
  dsimp only [TreeEntry.node, Tree.inner]
  cases hkind : part.kind with
  | choiceCommand fake =>
      obtain ⟨base, hhas, hid⟩ := h.has
      have hfound : p.tree.walk (fun found id => (found || (p.tree.kind? id).any Kind.isOption,
          !(found || (p.tree.kind? id).any Kind.isOption))) id false = part.any Kind.isOption := by
        rw [Tree.walk_eq_any p.tree (fun id => (p.tree.kind? id).any Kind.isOption), hid]
        exact hhas.any Kind.isOption
      dsimp only
      rw [hfound]
      split
      · exact ⟨p.tree, rfl, h⟩
      · have hrule : Rule.noChoiceOptions.isSettable = false := rfl
        have hflagged := hangs_flag h hlevels hrule (hbears fake hkind)
        rw [hkind] at hflagged
        exact hflagged
  | _ => exact ⟨p.tree, rfl, h⟩

/-! ### The indentation of a line -/

/-- The unit that is remembered stands for the lines up to the next one, and only an indentation that is not of
the unit of the scene is marked. -/
theorem checkUnit_eq {line : Line} {established : Option IndentUnit} (p : Parser) (id : Nat)
    (hunit : unit.or (Line.establishedUnit? (line :: more)) = established) (hmixed : established ≠ some .mixed)
    (hend : p.atEnd = line.isBlank) (hindented : line.isIndented = true) :
    (checkUnit id (.ofRun line.indent) unit p).1.or (Line.establishedUnit? more) = established ∧
      (checkUnit id (.ofRun line.indent) unit p).2 =
        if line.isBlank || established = some (.ofRun line.indent) then p else p.flagWhole id .mixedIndentation := by
  rw [Line.establishedUnit?_cons, hindented] at hunit
  unfold checkUnit
  rw [hend]
  cases hblank : line.isBlank with
  | true =>
      rw [hblank] at hunit
      exact ⟨hunit, rfl⟩
  | false =>
      rw [hblank] at hunit
      simp only [Bool.false_eq_true, if_false, Bool.false_or, decide_eq_true_eq]
      by_cases hown : IndentUnit.ofRun line.indent = .mixed
      · rw [hown] at hunit ⊢
        rw [if_pos rfl, if_neg hmixed]
        exact ⟨hunit, rfl⟩
      · have hcounts : ¬(false || !true || decide (IndentUnit.ofRun line.indent = .mixed)) = true := by simpa using hown
        rw [if_neg hcounts] at hunit
        rw [if_neg hown]
        cases unit with
        | none =>
            obtain rfl : some (IndentUnit.ofRun line.indent) = established := hunit
            exact ⟨rfl, (if_pos rfl).symm⟩
        | some other =>
            obtain rfl : some other = established := hunit
            refine ⟨rfl, ?_⟩
            dsimp only
            by_cases hother : IndentUnit.ofRun line.indent = other
            · rw [if_pos hother, if_pos (congrArg some hother.symm)]
            · rw [if_neg hother, if_neg fun heq => hother (Option.some.inj heq).symm]

/-- The indentation of a line as it is taken. -/
def marginLeaf (line : Line) : Phrase :=
  (Phrase.empty (.indentation line.width (.ofRun line.indent)) line.start).reach line.contentStart

theorem margin_eq (unit : Option IndentUnit) (line : Line) : line.margin unit =
    if line.isIndented then
      [if line.isBlank || unit = some (.ofRun line.indent) then marginLeaf line
        else (marginLeaf line).flagWhole .mixedIndentation]
    else [] := by
  have hleaf : ((Phrase.empty (.indentation line.width (.ofRun line.indent)) 0).reach
      (Text.bytes line.indent)).shift line.start = marginLeaf line := by
    rw [Phrase.shift_reach, Phrase.shift_empty, Nat.zero_add, Nat.add_comm]
    rfl
  rw [Line.margin, Line.indentation?]
  split
  · dsimp only
    rw [Option.map_some, Option.toList_some, apply_ite (Phrase.shift line.start), Phrase.shift_flagWhole, hleaf]
  · rfl

/-- The node of a line with its indentation. -/
def header (unit : Option IndentUnit) (line : Line) : Phrase :=
  (Phrase.empty (.line line.number line.width line.type) line.start).addAll (line.margin unit)

/-- The indentation of a line has been taken, and hangs below the node of the line. -/
structure Indents (site : Site) (old : Tree) (outcome : Nat × Option IndentUnit × Parser) : Prop where
  width : outcome.1 = site.line.width
  unit : outcome.2.1.or (Line.establishedUnit? ((Line.split site.source).drop (site.line.number + 1))) =
    Line.establishedUnit? (Line.split site.source)
  enters : outcome.2.2.Enters site
  stores : outcome.2.2.tree.Stores site.levels old (header (Line.establishedUnit? (Line.split site.source)) site.line)

theorem drop_site (site : Site) : (Line.split site.source).drop site.line.number =
    site.line :: (Line.split site.source).drop (site.line.number + 1) := by
  obtain ⟨hlt, hline⟩ := List.getElem?_eq_some_iff.mp site.found
  rw [List.drop_eq_getElem_cons hlt, hline]

theorem Begins.leaf (h : p.Begins site.source site.levels site.line.number) (hindented : site.line.isIndented = true) :
    ∃ tree, p.leaf (.indentation site.line.width (.ofRun site.line.indent)) = (p.tree.size, { p.next with tree }) ∧
      tree.Stores site.levels p.tree (marginLeaf site.line) := by
  obtain ⟨htoken, -⟩ := h.indented hindented
  refine ⟨(p.tree.create _ p.token.offset).2.reach p.tree.size p.token.stop, rfl, ?_⟩
  rw [htoken]
  exact (Tree.stores_create site.levels p.tree _ site.line.start).reach site.line.contentStart

/-- The indentation of a line becomes a node below that of the line. -/
theorem Begins.put (h : p.Begins site.source site.levels site.line.number) (hindented : site.line.isIndented = true)
    {kind : Kind} (hstores : p.tree.Stores site.levels old (.empty kind site.line.start)) :
    ∃ tree, (p.leaf (.indentation site.line.width (.ofRun site.line.indent))).2.adopt old.size
        (p.leaf (.indentation site.line.width (.ofRun site.line.indent))).1 = { p.next with tree } ∧
      tree.Hangs site.levels old (.empty kind site.line.start) (marginLeaf site.line) p.tree.size := by
  obtain ⟨tree, hleaf, hpart⟩ := h.leaf hindented
  have hid : (old.entry (.empty kind site.line.start)).id = old.size := rfl
  have hpartId : (p.tree.entry (marginLeaf site.line)).id = p.tree.size := rfl
  have hadded := hstores.add hpart
  rw [hid, hpartId] at hadded
  rw [hleaf]
  exact ⟨_, rfl, hadded, hstores.size, hpart.ordered⟩

/-- The indentation is marked on its node, below that of the line. -/
theorem Enters.checkUnit (h : p.Enters site) (hindented : site.line.isIndented = true)
    (hunit : unit.or (Line.establishedUnit? (site.line :: more)) = Line.establishedUnit? (Line.split site.source))
    (hhangs : p.tree.Hangs site.levels old whole (marginLeaf site.line) id) :
    ∃ known tree, checkUnit id (.ofRun site.line.indent) unit p = (known, { p with tree }) ∧
      known.or (Line.establishedUnit? more) = Line.establishedUnit? (Line.split site.source) ∧
      tree.Hangs site.levels old whole
        (if site.line.isBlank || Line.establishedUnit? (Line.split site.source) = some (.ofRun site.line.indent) then
          marginLeaf site.line
        else (marginLeaf site.line).flagWhole .mixedIndentation) id := by
  obtain ⟨hknown, hmarked⟩ := checkUnit_eq p id hunit (Line.establishedUnit?_ne_mixed _) h.atEnd hindented
  refine ⟨(Parser.checkUnit id (.ofRun site.line.indent) unit p).1, ?_⟩
  split at hmarked
  · rename_i hplain
    rw [if_pos hplain]
    exact ⟨p.tree, Prod.ext rfl hmarked, hknown, hhangs⟩
  · rename_i hplain
    rw [if_neg hplain]
    obtain ⟨tree, hflagged, hflag⟩ := hangs_flagWhole hhangs h.looks.levels .mixedIndentation
    exact ⟨tree, Prod.ext rfl (hmarked.trans hflagged), hknown, hflag⟩

/-- The indentation of a line is taken, marked if need be, and put below the node of the line. -/
theorem Arrives.margin (h : p.Arrives site.source site.levels site.line.number unit)
    (hstores : p.tree.Stores site.levels old (.empty (.line site.line.number 0 site.line.type) site.line.start)) :
    Indents site old (margin old.size site.line.number site.line.type unit p) := by
  have hunit := h.unit
  rw [drop_site] at hunit
  by_cases hindented : site.line.isIndented = true
  · obtain ⟨htoken, henters⟩ := h.begins.indented hindented
    obtain ⟨tree, hput, hhangs⟩ := h.begins.put hindented hstores
    have hsource : old.source = site.source := hstores.split.source.symm.trans h.begins.onSource
    have henters' := henters.retree (hhangs.split.source.trans hsource)
    obtain ⟨known, last, hchecked, hknown, hlast⟩ := henters'.checkUnit hindented hunit hhangs
    have hkind : p.token.kind = .indentation site.line.width (.ofRun site.line.indent) := by rw [htoken]; rfl
    have hmargin : Parser.margin old.size site.line.number site.line.type unit p =
        (site.line.width, known, { p.next with tree := last }.setKind old.size
          (.line site.line.number site.line.width site.line.type)) := by
      have hid : (p.leaf (.indentation site.line.width (.ofRun site.line.indent))).1 = p.tree.size := rfl
      unfold Parser.margin
      rw [hkind]
      dsimp only
      rw [hput, hid, hchecked]
    have hset := hlast.stores.setKind (.line site.line.number site.line.width site.line.type)
    rw [hmargin]
    refine ⟨rfl, hknown, henters.retree (hset.split.source.trans hsource), ?_⟩
    rw [header, margin_eq, if_pos hindented, Phrase.addAll_singleton]
    exact hset
  · have henters := h.begins.enters hindented
    have hkind := henters.kind
    have hwidth : site.line.width = 0 := by rw [Line.width, Line.indent_eq_nil hindented]; rfl
    have hmargin : Parser.margin old.size site.line.number site.line.type unit p = (0, unit, p) := by
      unfold Parser.margin
      split
      · rename_i htoken
        rw [htoken] at hkind
        cases hkind
      · rfl
    rw [Line.establishedUnit?_cons, Bool.eq_false_iff.mpr hindented, Bool.not_false, Bool.or_true, Bool.true_or,
      if_pos rfl] at hunit
    rw [hmargin]
    refine ⟨hwidth.symm, hunit, henters, ?_⟩
    rw [header, margin_eq, if_neg hindented, Phrase.addAll_nil, hwidth]
    exact hstores

end Parser

end Gamebook
