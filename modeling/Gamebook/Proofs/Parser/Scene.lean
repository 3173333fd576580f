import Gamebook.Proofs.Parser.Margin
import Gamebook.Proofs.Scene.Blocks

/-!
Scenes on tokens. A parser that goes through a scene line by line and looks ahead for the end of each block
makes the tree of the phrase that is read from the scene: the lines of a block are the same, the unit of
indentation is, and every statement is.
-/

namespace Gamebook

namespace Phrase

/-- A phrase that reaches as far already is not changed. -/
theorem reach_of_le {phrase : Phrase} {stop : Nat} (h : stop ≤ phrase.stop) : phrase.reach stop = phrase := by
  cases phrase
  rw [reach, grow, Nat.min_self, Nat.max_eq_left h]

/-- It makes no difference whether a phrase is extended before or after it gets a part. -/
theorem reach_add (phrase part : Phrase) (stop : Nat) : (phrase.add part).reach stop = (phrase.reach stop).add part := by
  simp only [reach, add, grow, Nat.min_self, Nat.max_right_comm]

end Phrase

namespace Parser

variable {source : Text} {levels : Levels} {number : Nat} {site : Site} {old : Tree} {p : Parser} {r : Reader}
  {whole part phrase : Phrase} {id : Nat} {unit : Option IndentUnit}

/-! ### The first token of a line -/

theorem Enters.offset (h : p.Enters site) : p.token.offset = site.line.contentStart := by
  by_cases hcomment : site.line.type = .comment
  · rw [(h.comment hcomment).1]
    rfl
  · exact (h.stands hcomment).offset

theorem Begins.offset (h : p.Begins site.source site.levels site.line.number) : p.token.offset = site.line.start := by
  by_cases hindented : site.line.isIndented = true
  · rw [(h.indented hindented).1]
    rfl
  · rw [(h.enters hindented).offset, Line.contentStart, Line.indent_eq_nil hindented]
    rfl

theorem Begins.token_of (h : p.Begins site.source site.levels site.line.number) : p.token.Of site.source := by
  obtain ⟨cursor, hline, hstarted, hlooks⟩ := h.looks
  have hlt := (List.getElem?_eq_some_iff.mp site.found).1
  have hstands : cursor.Stands site.source :=
    ⟨hline ▸ Nat.le_of_lt hlt, fun hbegun => absurd (hstarted.symm.trans hbegun) Bool.false_ne_true⟩
  have htoken := (Scanner.scan_hands (hlooks.onSource.moveTo cursor) hstands).token
  rw [← hlooks.looks] at htoken
  exact htoken

theorem Begins.position (h : p.Begins site.source site.levels site.line.number) (hsource : site.source ≠ []) :
    p.token.position.line = site.line.number := by
  rw [h.token_of.sane.position, h.offset]
  exact LineIndex.line_position site.found (Nat.le_refl _) (Line.start_lt_stop hsource (List.mem_of_getElem? site.found))

/-- Before a line the parser is not at the end. -/
theorem Begins.sees_eof (h : p.Begins site.source site.levels site.line.number) (hsource : site.source ≠ []) :
    p.sees .eof = false := by
  have hmem := List.mem_of_getElem? site.found
  have hlt := Line.start_lt_stop hsource hmem
  have hle := site.within.stop_le
  have hoffset := h.offset
  have htoken := h.token_of
  rw [Parser.sees, beq_eq_false_iff_ne]
  generalize p.token = token at hoffset htoken
  cases htoken with
  | indentation => exact TokenKind.noConfusion
  | content _ hkind =>
      rintro rfl
      cases hkind
  | lineBreak => exact TokenKind.noConfusion
  | sourceEnd =>
      have hend : Text.bytes site.source = site.line.start := hoffset
      omega

/-! ### The end of a line -/

theorem id_header (unit : Option IndentUnit) (line : Line) (old : Tree) : (old.entry (header unit line)).id = old.size :=
  old.id_entry_addAll _ _

theorem contentStart_le_header (unit : Option IndentUnit) (line : Line) :
    line.contentStart ≤ (header unit line).stop := by
  rw [header, margin_eq]
  split
  · have hleaf : line.contentStart ≤ (marginLeaf line).stop := Nat.le_max_right _ _
    have hflag : (marginLeaf line).stop ≤ ((marginLeaf line).flagWhole .mixedIndentation).stop := Nat.le_max_left _ _
    rw [Phrase.addAll_singleton]
    refine Nat.le_trans ?_ (Nat.le_max_right _ _)
    split
    · exact hleaf
    · exact Nat.le_trans hleaf hflag
  · rename_i hindented
    rw [Phrase.addAll_nil, Line.contentStart, Line.indent_eq_nil hindented]
    exact Nat.le_refl _

theorem finish_eq_retree (p : Parser) (id : Nat) : p.finish id = { p with tree := (p.finish id).tree } := by
  unfold Parser.finish
  split <;> rfl

theorem source_finish (p : Parser) (id : Nat) : (p.finish id).tree.source = p.tree.source := by
  unfold Parser.finish
  split
  · rfl
  · exact p.tree.source_reach id _

theorem tree_accept (p : Parser) (kind : TokenKind) : (p.accept kind).2.tree = p.tree := by
  unfold Parser.accept
  split <;> rfl

/-- Nothing is left on the line: its node ends here, and the next line begins. -/
theorem Stands.finishLine (h : p.Stands site r) (hrest : r.rest = [])
    (hstores : (p.finish id).tree.Stores levels old phrase) :
    ((Grammar.finishLine Id id p).accept .eol).2.Begins site.source site.levels (site.line.number + 1) ∧
      ((Grammar.finishLine Id id p).accept .eol).2.tree.Stores levels old phrase := by
  have hend : p.atEnd = true := h.atEnd.trans (Reader.atEnd_iff.mpr hrest)
  have hstands := (h.retree ((source_finish p id).trans h.source)).begins hrest
  rw [Grammar.finishLine, if_pos hend, tree_accept]
  rw [← finish_eq_retree] at hstands
  exact ⟨hstands, hstores⟩

/-- A blank line ends where its indentation does. -/
theorem Enters.finishBlank (h : p.Enters site) (hstores : p.tree.Stores levels old phrase)
    (hstop : site.line.contentStart ≤ phrase.stop) : (p.finish (old.entry phrase).id).tree.Stores levels old phrase := by
  unfold Parser.finish
  split
  · exact hstores
  · rename_i token htoken
    have hreached := hstores.reach token.stop
    rw [Phrase.reach_of_le (Nat.le_trans (h.previous token htoken) hstop)] at hreached
    exact hreached

/-! ### Blocks -/

variable {lines behind more : List Line} {line : Line} {context : Context} {width first : Nat}

/-- The lines of a block that was opened at the given depth, up to where it ends. -/
structure Block (source : Text) (width : Nat) (lines behind : List Line) (first : Nat) : Prop
    extends Line.Segment (Line.split source) lines behind first where
  within : ∀ suffix, suffix <:+ lines → suffix ≠ [] → Line.continues width suffix = true
  ended : Line.continues width behind = false

/-- The lines below one that opens a block. -/
theorem block_inner (h : Line.Segment (Line.split source) (line :: more) behind first)
    (hopened : (line.opened? context).isSome = true) (hover : Line.continues line.width behind = false) :
    Block source line.width (line.below context more).1 ((line.below context more).2 ++ behind) (first + 1) := by
  refine ⟨h.block context, fun suffix hsuffix hne => Line.continues_block hsuffix hne, ?_⟩
  by_cases hrest : (line.below context more).2 = []
  · rw [hrest, List.nil_append]
    exact hover
  · rw [← (h.rest context).drop]
    exact h.not_continues_behind hopened hrest

/-- The lines of a block behind one of them and the lines below that. -/
theorem Block.rest (h : Block source width (line :: more) behind first) (context : Context) :
    Block source width (line.below context more).2 behind (first + 1 + (line.below context more).1.length) := by
  refine ⟨h.toSegment.rest context, fun suffix hsuffix hne => h.within suffix (hsuffix.trans ?_) hne, h.ended⟩
  have happend := List.suffix_append (line.below context more).1 (line.below context more).2
  rw [Line.below_append] at happend
  exact happend.trans (List.suffix_cons line more)

/-- A block ends where the blocks inside it do. -/
theorem Block.over_inner (h : Block source width (line :: more) behind first)
    (hopened : (line.opened? context).isSome = true) : Line.continues line.width behind = false := by
  have hblank : line.isBlank = false := by
    refine Bool.eq_false_iff.mpr fun hblank => ?_
    rw [Line.opened?, Line.reading_of_isBlank hblank] at hopened
    cases hopened
  have hdeeper := Line.continues_of_not_isBlank hblank (h.within _ List.suffix_rfl (List.cons_ne_nil _ _))
  refine Bool.eq_false_iff.mpr fun hgoes => ?_
  have hover := h.ended
  rw [Line.continues_mono (Nat.le_of_lt hdeeper) hgoes] at hover
  cases hover

/-! ### Lines with their blocks -/

/-- The statement of a line is put into it, and the line ends behind it. -/
theorem States.closes {made : Stated × Parser} {read : Statement × Reader} (h : States site p.tree made read)
    (hrest : read.2.rest = []) (hstores : p.tree.Stores site.levels old phrase) :
    ((Grammar.finishLine Id (old.entry phrase).id (made.2.adopt (old.entry phrase).id made.1.node)).accept .eol).2.Begins
        site.source site.levels (site.line.number + 1) ∧
      ((Grammar.finishLine Id (old.entry phrase).id
          (made.2.adopt (old.entry phrase).id made.1.node)).accept .eol).2.tree.Hangs site.levels old
        (phrase.reach (site.line.start + read.2.lastEnd)) (read.1.phrase.shift site.line.start) made.1.node := by
  have hpart := h.agrees.holds.stores
  have hid := h.agrees.holds.entry_id
  have hadded := hstores.add hpart
  rw [hid, ← tree_adopt] at hadded
  have hreads : (made.2.adopt (old.entry phrase).id made.1.node).Reads site read.2 := by
    rw [Parser.adopt]
    exact h.agrees.reads.retree ((Tree.source_adopt _ _ _ _).trans h.agrees.holds.source)
  have hsame : (old.entry (phrase.add (read.1.phrase.shift site.line.start))).id = (old.entry phrase).id := rfl
  have hreached := hadded.reach (site.line.start + read.2.lastEnd)
  rw [hsame, Phrase.reach_add] at hreached
  have hended : ((made.2.adopt (old.entry phrase).id made.1.node).finish (old.entry phrase).id).tree.Stores site.levels old
      ((phrase.reach (site.line.start + read.2.lastEnd)).add (read.1.phrase.shift site.line.start)) := by
    rw [hreads.finish_eq]
    dsimp only
    exact hreached
  obtain ⟨hbegins, hended⟩ := hreads.toStands.finishLine hrest hended
  refine ⟨hbegins, hended, ?_, hpart.ordered⟩
  rw [← hid, Phrase.count_eq]
  show (read.1.phrase.shift site.line.start).idFrom p.tree.size = _
  rw [hstores.size, Phrase.count_eq]
  rfl

end Parser

end Gamebook
