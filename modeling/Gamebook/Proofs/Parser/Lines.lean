import Gamebook.Proofs.Line.Block
import Gamebook.Proofs.Parser.Content
import Gamebook.Proofs.Parser.Traceless

/-!
From line to line. Before the first token of a line a parser stands where a scanner stands that has not begun
the line; behind the indentation it stands before the content, and behind the content before the break. What
it finds when it looks ahead is the indentation of the next line with content.
-/

namespace Gamebook

namespace Scanner

variable {source : Text} {scanner : Scanner}

/-- A scan can be taken back. -/
theorem moveTo_scan (scanner : Scanner) : scanner.scan.2.moveTo scanner.cursor = scanner := by
  obtain ⟨cursor, hscan⟩ := scanner.moved_refl.scan
  rw [hscan]
  rfl

theorem Over.scan (hover : scanner.Over source) : scanner.scan.2.Over source := by
  obtain ⟨cursor, hscan⟩ := scanner.moved_refl.scan
  rw [hscan]
  exact hover.moveTo cursor

/-- Behind the last line there is nothing but the end. -/
theorem scan_behind (hover : scanner.Over source) (hnone : (Line.split source)[scanner.cursor.line]? = none) :
    scanner.scan = (sourceEnd source, scanner) := by
  rw [scan, hover.getElem?, hnone, sourceEnd, ← hover.endToken_eq]

end Scanner

namespace Parser

variable {source : Text} {levels : Levels} {number : Nat} {site : Site} {p : Parser} {r : Reader}

/-- The parser looks at the token behind a cursor. -/
structure Looks (source : Text) (levels : Levels) (cursor : Cursor) (p : Parser) : Prop where
  onSource : p.scanner.Over source
  source : p.tree.source = source
  levels : p.levels = levels
  looks : (p.token, p.scanner) = (p.scanner.moveTo cursor).scan

theorem looks_scan {scanner : Scanner} (hover : scanner.Over source) (hsource : p.tree.source = source)
    (hlevels : p.levels = levels) :
    ({ p with scanner := scanner.scan.2, token := scanner.scan.1 } : Parser).Looks source levels scanner.cursor := by
  refine ⟨hover.scan, hsource, hlevels, ?_⟩
  dsimp only
  rw [scanner.moveTo_scan]

/-- The parser stands before the line with the given number, or behind the last line. -/
structure Begins (source : Text) (levels : Levels) (number : Nat) (p : Parser) : Prop where
  looks : ∃ cursor : Cursor, cursor.line = number ∧ cursor.started = false ∧ p.Looks source levels cursor
  previous : ∀ line, (Line.split source)[number]? = some line → ∀ token ∈ p.previous, token.stop ≤ line.start

theorem begins_ofText (source : Text) (levels : Levels) : (ofText source levels).Begins source levels 0 :=
  ⟨⟨Scanner.origin, rfl, rfl, looks_scan (p := ofText source levels) (Scanner.over_ofText source) rfl rfl⟩, nofun⟩

theorem Begins.token_behind (h : p.Begins source levels number) (hnone : (Line.split source)[number]? = none) :
    p.token = Scanner.sourceEnd source := by
  obtain ⟨⟨cursor, rfl, -, hlooks⟩, -⟩ := h
  exact congrArg (·.1) (hlooks.looks.trans (Scanner.scan_behind (hlooks.onSource.moveTo cursor) hnone))

/-- The parser stands before the content of a line. -/
structure Enters (site : Site) (p : Parser) : Prop where
  looks : p.Looks site.source site.levels (Scanner.entrance site.line.number site.line)
  previous : ∀ token ∈ p.previous, token.stop ≤ site.line.contentStart

/-- An indented line begins with its indentation. -/
theorem Begins.indented (h : p.Begins site.source site.levels site.line.number)
    (hindented : site.line.isIndented = true) :
    p.token = site.line.indentToken site.source ∧ p.next.Enters site := by
  obtain ⟨⟨cursor, hline, hstarted, hlooks⟩, -⟩ := h
  have hfound : (Line.split site.source)[(p.scanner.moveTo cursor).cursor.line]? = some site.line := hline ▸ site.found
  have hscan := Scanner.scan_unstarted (hlooks.onSource.moveTo cursor) hstarted hfound
  rw [if_pos hindented, ← hlooks.looks] at hscan
  have htoken : p.token = site.line.indentToken site.source := congrArg (·.1) hscan
  have hcursor : p.scanner.cursor = Scanner.entrance site.line.number site.line := by
    rw [← hline]
    exact congrArg (·.2.cursor) hscan
  refine ⟨htoken, ?_, ?_⟩
  · rw [← hcursor]
    exact looks_scan (p := { p with previous := some p.token }) hlooks.onSource hlooks.source hlooks.levels
  · intro token hprevious
    obtain rfl : p.token = token := Option.some.inj hprevious
    rw [htoken]
    exact Nat.le_refl _

/-- Any other line begins with its content. -/
theorem Begins.enters (h : p.Begins site.source site.levels site.line.number)
    (hindented : ¬site.line.isIndented = true) : p.Enters site := by
  obtain ⟨⟨cursor, hline, hstarted, hlooks⟩, hprevious⟩ := h
  have hfound : (Line.split site.source)[(p.scanner.moveTo cursor).cursor.line]? = some site.line := hline ▸ site.found
  have hscan := Scanner.scan_unstarted (hlooks.onSource.moveTo cursor) hstarted hfound
  rw [if_neg hindented, ← hlooks.looks] at hscan
  refine ⟨⟨hlooks.onSource, hlooks.source, hlooks.levels, ?_⟩, fun token htoken => ?_⟩
  · rw [hscan, ← hline]
    rfl
  · exact Nat.le_trans (hprevious _ site.found token htoken) (Nat.le_add_right _ _)

/-! ### The content of a line -/

theorem Enters.stands (h : p.Enters site) (hcomment : site.line.type ≠ .comment) :
    p.Stands site (Reader.ofLine site.line) where
  onSource := h.looks.onSource
  source := h.looks.source
  levels := h.looks.levels
  place := ⟨[], rfl, rfl⟩
  trimmed := (Line.clean_of_mem_split (List.mem_of_getElem? site.found)).trimmed
  plain := fun hplain => absurd hplain hcomment
  looks := h.looks.looks

theorem typed_ofLine (line : Line) : Typed line.type (Reader.ofLine line) := by
  constructor
  · intro htype
    obtain ⟨more, hcontent⟩ := LineType.eq_of_ofContent_option htype
    have hmode : (Reader.ofLine line).mode = .text := by
      show Mode.ofLineType line.type = .text
      rw [htype]
      rfl
    have hrest : (Reader.ofLine line).rest = '#' :: more := hcontent
    rw [Reader.sees, Reader.kind?, Reader.lexeme?, hmode, hrest,
      Lexeme.first?_of_longestOf .text (Pattern.longestOf_hash more)]
    rfl
  · intro htype
    obtain ⟨c, more, hblank, hfirst⟩ := Reader.first?_of_command htype
    constructor
    · rw [Reader.sees, Reader.kind?, Reader.lexeme?, hfirst]
      rfl
    · rw [Reader.next_of_first? hfirst]
      show (c :: more).dropWhile Text.isBlank ≠ []
      rw [List.dropWhile_cons, hblank]
      exact List.cons_ne_nil _ _

/-- A comment is one token, and a node of its own. -/
theorem Enters.comment (h : p.Enters site) (hcomment : site.line.type = .comment) :
    p.token = .inSource site.source .singleLineComment site.line.content site.line.contentStart ∧
      Accords site p.tree (p.leaf .comment)
        ((Reader.commentLine (.ofLine site.line)).1.phrase, (Reader.commentLine (.ofLine site.line)).2) := by
  let r := Reader.ofLine site.line
  let behind := r.advance r.rest []
  have hbefore : (Scanner.entrance site.line.number site.line).Before site.source site.line site.line.content :=
    ⟨site.found, [], rfl, rfl⟩
  have hscan := h.looks.looks.trans (Scanner.scan_comment (h.looks.onSource.moveTo _) rfl rfl hbefore hcomment)
  have htoken : p.token = .inSource site.source .singleLineComment site.line.content site.line.contentStart :=
    congrArg (·.1) hscan
  have hbehind : site.line.start + behind.offset = site.line.contentEnd := by
    show site.line.start + (Text.bytes site.line.indent + Text.bytes site.line.content + 0) = _
    rw [Line.contentEnd, Line.contentStart]
    omega
  have hcursor : p.scanner.moveTo (site.cursor behind) = p.scanner := by
    have hscanner : p.scanner = p.scanner.moveTo
      ⟨site.line.number, site.line.contentEnd, true, .ofLineType site.line.type⟩ := congrArg (·.2) hscan
    rw [Site.cursor, hbehind]
    exact hscanner.symm
  have hplace : site.Place (site.line.start + behind.offset) [] :=
    ⟨site.line.content, (List.append_nil _).symm, hbehind⟩
  have hstands := @stands_scan site behind { (p.create .comment).2 with previous := some p.token } p.scanner
    h.looks.onSource h.looks.source h.looks.levels hplace (fun _ hmem => by cases hmem) fun _ => rfl
  rw [hcursor] at hstands
  have hstop : p.token.stop = site.line.start + behind.lastEnd := by
    rw [htoken]
    show site.line.contentStart + Text.bytes site.line.content = _ + (Text.bytes site.line.indent + _)
    rw [Line.contentStart, Nat.add_assoc]
    rfl
  have hcreated : (p.create .comment).2.tree.Holds site p.tree (.begin .comment r) (p.create .comment).1 := by
    rw [Parser.create, htoken]
    exact Tree.holds_create h.looks.source .comment r.offset
  have hreads : (p.create .comment).2.next.Reads site behind := ⟨hstands, congrArg some hstop, Nat.le_refl _⟩
  exact ⟨htoken, Agrees.finish ⟨hreads, hcreated⟩⟩

/-- The statement of a line is the one that is read on it. -/
theorem Enters.statement (h : p.Enters site) (context : Context) :
    MayState site p (.ofLine site.line) (Grammar.statement Id context site.line.type p) (site.line.reading context) := by
  by_cases hcomment : site.line.type = .comment
  · obtain ⟨htoken, hagrees⟩ := h.comment hcomment
    have hend : (Reader.ofLine site.line).atEnd = false :=
      List.isEmpty_eq_false_iff.mpr (Line.content_ne_nil_of_comment hcomment)
    have hstates : States site p.tree (⟨(p.leaf .comment).1, none⟩, (p.leaf .comment).2)
        (Reader.commentLine (.ofLine site.line)) := ⟨hagrees, rfl⟩
    rw [Line.reading, hcomment, Grammar.statement, Reader.statement, Parser.atEnd, Parser.sees, htoken, hend]
    exact .stated hstates
  · exact (h.stands hcomment).statement context (typed_ofLine site.line) hcomment

theorem Enters.atEnd (h : p.Enters site) : p.atEnd = site.line.isBlank := by
  by_cases hcomment : site.line.type = .comment
  · rw [Parser.atEnd, (h.comment hcomment).1, Line.isBlank,
      List.isEmpty_eq_false_iff.mpr (Line.content_ne_nil_of_comment hcomment)]
    rfl
  · exact (h.stands hcomment).atEnd

/-! ### Behind the content -/

theorem Stands.token_of_end (h : p.Stands site r) (hrest : r.rest = []) : p.token = site.ending := by
  rcases h.cases with ⟨-, htoken, -⟩ | ⟨lexeme, left, hfirst, -⟩
  · exact htoken
  · rw [hrest] at hfirst
    cases hfirst

/-- Behind the content and its break the next line begins. -/
theorem Stands.begins (h : p.Stands site r) (hrest : r.rest = []) :
    (p.accept .eol).2.Begins site.source site.levels (site.line.number + 1) := by
  obtain ⟨front, back, hsplit, hfront, -, hback⟩ := (Line.arranged_split site.source).getElem? site.found
  rcases h.cases with ⟨-, htoken, hcursor⟩ | ⟨lexeme, left, hfirst, -⟩
  · have hbehind : (Line.split site.source)[site.line.number + 1]? = back[0]? := by
      rw [hsplit, List.getElem?_append_right (by omega), ← hfront, Nat.add_sub_cancel_left, List.getElem?_cons_succ]
    by_cases hbreak : site.line.hasBreak = true
    · rw [Site.ending, if_pos hbreak] at htoken
      have haccept : p.accept .eol = (true, p.next) := by rw [Parser.accept, Parser.sees, htoken]; rfl
      have hlooks : p.next.Looks site.source site.levels p.scanner.cursor :=
        looks_scan (p := { p with previous := some p.token }) h.onSource h.source h.levels
      rw [haccept]
      refine ⟨⟨_, congrArg (·.line) hcursor, congrArg (·.started) hcursor, hlooks⟩, fun line hline token hprevious => ?_⟩
      obtain rfl : p.token = token := Option.some.inj hprevious
      rw [hbehind] at hline
      rw [htoken]
      exact hback line (List.mem_of_getElem? hline)
    · have hnone : (Line.split site.source)[site.line.number + 1]? = none := by
        rw [hbehind, Line.nil_of_noBreak hsplit hbreak]
        rfl
      rw [Site.ending, if_neg hbreak] at htoken
      have haccept : p.accept .eol = (false, p) := by rw [Parser.accept, Parser.sees, htoken]; rfl
      have hline : p.scanner.cursor.line = site.line.number + 1 := congrArg (·.line) hcursor
      have hscan := Scanner.scan_behind h.onSource (hline ▸ hnone)
      rw [haccept]
      refine ⟨⟨_, hline, congrArg (·.started) hcursor, h.onSource, h.source, h.levels, ?_⟩, fun line hline => ?_⟩
      · rw [htoken]
        exact hscan.symm
      · rw [hnone] at hline
        cases hline
  · rw [hrest] at hfirst
    cases hfirst

theorem Enters.stands_of_isBlank (h : p.Enters site) (hblank : site.line.isBlank = true) :
    p.Stands site (.ofLine site.line) ∧ (Reader.ofLine site.line).rest = [] := by
  have hcontent : site.line.content = [] := List.isEmpty_iff.mp hblank
  exact ⟨h.stands fun hcomment => Line.content_ne_nil_of_comment hcomment hcontent, hcontent⟩

/-! ### Looking ahead -/

theorem Enters.kind (h : p.Enters site) : p.token.kind.isIndentation = false := by
  by_cases hcomment : site.line.type = .comment
  · rw [(h.comment hcomment).1]
    rfl
  · rcases (h.stands hcomment).cases with ⟨-, htoken, -⟩ | ⟨lexeme, left, hfirst, htoken, -⟩
    · have hends := site.endsLine_ending
      rw [htoken]
      generalize site.ending.kind = kind at hends ⊢
      cases kind <;> first | rfl | cases hends
    · have hlayout := Lexeme.isLayout_of_first? hfirst
      rw [htoken]
      show lexeme.kind.isIndentation = false
      generalize lexeme.kind = kind at hlayout ⊢
      cases kind <;> first | rfl | cases hlayout

theorem pass_of_content (hkind : p.token.kind.isIndentation = false) : p.pass = (0, p) := by
  unfold Parser.pass
  split
  · rename_i hindentation
    rw [hindentation] at hkind
    cases hkind
  · rfl

/-- Where the indentation of a line ends its content begins. -/
theorem Begins.pass (h : p.Begins site.source site.levels site.line.number) :
    p.pass.1 = site.line.width ∧ p.pass.2.Enters site := by
  by_cases hindented : site.line.isIndented = true
  · obtain ⟨htoken, henters⟩ := h.indented hindented
    rw [Parser.pass, htoken]
    exact ⟨rfl, henters⟩
  · have henters := h.enters hindented
    rw [pass_of_content henters.kind, Line.width, Line.indent_eq_nil hindented]
    exact ⟨rfl, henters⟩

/-- Looking ahead finds the indentation of the next line with content. -/
theorem Begins.indentWithin (h : p.Begins source levels number) {budget : Nat}
    (hbudget : (Line.split source).length < number + budget) :
    (Grammar.indentWithin Id budget p).1 = Line.nextWidth? ((Line.split source).drop number) := by
  induction budget generalizing p number with
  | zero =>
      rw [List.drop_eq_nil_of_le (by omega)]
      rfl
  | succ budget ih =>
      cases hfound : (Line.split source)[number]? with
      | none =>
          have htoken := h.token_behind hfound
          have hkind : p.token.kind.isIndentation = false := by rw [htoken]; rfl
          rw [List.drop_eq_nil_of_le (List.getElem?_eq_none_iff.mp hfound), Grammar.indentWithin_succ, pass_of_content hkind,
            htoken]
          rfl
      | some line =>
          obtain rfl := Line.number_of_getElem?_split hfound
          obtain ⟨hlt, hline⟩ := List.getElem?_eq_some_iff.mp hfound
          let site : Site := ⟨source, levels, line, hfound⟩
          obtain ⟨hwidth, henters⟩ := @Begins.pass site p h
          rw [Grammar.indentWithin_succ, hwidth, List.drop_eq_getElem_cons hlt, hline, Line.nextWidth?]
          clear hwidth
          generalize p.pass.2 = q at henters ⊢
          by_cases hblank : line.isBlank = true
          · obtain ⟨hstands, hrest⟩ := henters.stands_of_isBlank hblank
            have hbegins := hstands.begins hrest
            have htoken := hstands.token_of_end hrest
            rw [if_pos hblank]
            by_cases hbreak : line.hasBreak = true
            · have hkind : q.token.kind = .eol := by rw [htoken, Site.ending, if_pos hbreak]; rfl
              rw [Parser.accept, Parser.sees, hkind] at hbegins
              rw [hkind]
              exact ih hbegins (by omega)
            · have hkind : q.token.kind = .eof := by rw [htoken, Site.ending, if_neg hbreak]; rfl
              have hsplit := List.take_append_drop line.number (Line.split source)
              rw [List.drop_eq_getElem_cons hlt, hline] at hsplit
              rw [hkind, Line.nil_of_noBreak hsplit.symm hbreak]
              rfl
          · have hend : q.token.kind.endsLine = line.isBlank := henters.atEnd
            rw [Bool.not_eq_true] at hblank
            rw [hblank] at hend ⊢
            generalize q.token.kind = kind at hend
            cases kind <;> first | rfl | cases hend

theorem Begins.nextIndent (h : p.Begins source levels number) :
    Grammar.nextIndent Id p = (Line.nextWidth? ((Line.split source).drop number), p) := by
  obtain ⟨cursor, -, -, hlooks⟩ := h.looks
  have hlines : p.scanner.lines.size = (Line.split source).length := by
    rw [hlooks.onSource.lines, List.size_toArray]
  have hwidth := @Begins.indentWithin source levels number p h (p.scanner.lines.size + 1) (by omega)
  exact Prod.ext hwidth p.traceless.nextIndent

end Parser

end Gamebook
