import Gamebook.Scanner
import Gamebook.Proofs.Lexeme
import Gamebook.Proofs.Position

/-!
One step of a scanner. A cursor that stands in the content of a line has a rest of that content before it;
what a scan can do there is said once, in `scanContent_cases`, and the tokens that a source can have are
listed in `Token.Of`.
-/

namespace Gamebook

/-- Layout and comments are no lexemes. -/
theorem Lexeme.kind_of_first? {mode : Mode} {text rest : Text} {lexeme : Lexeme}
    (hfirst : first? mode text = some (lexeme, rest)) :
    lexeme.kind.isLayout = false ∧ lexeme.kind ≠ .singleLineComment := by
  have hall : ∀ pattern ∈ mode.patterns, pattern.kind.isLayout = false ∧ pattern.kind ≠ .singleLineComment := by
    cases mode <;>
      simp [Mode.patterns, Pattern.ofCommands, Pattern.ofProse, Pattern.signs, Pattern.fixed, TokenKind.isLayout]
  rcases pattern_cases_of_first? hfirst with ⟨pattern, hmem, hkind, -⟩ | ⟨c, hkind⟩
  · rw [← hkind]
    exact hall pattern hmem
  · rw [hkind]
    exact ⟨rfl, by simp⟩

theorem Lexeme.isLayout_of_first? {mode : Mode} {text rest : Text} {lexeme : Lexeme}
    (hfirst : first? mode text = some (lexeme, rest)) : lexeme.kind.isLayout = false := (kind_of_first? hfirst).1

/-- The token of a text at an offset of a source. -/
def Token.inSource (source : Text) (kind : TokenKind) (text : Text) (offset : Nat) : Token :=
  ⟨kind, text, offset, (LineIndex.ofText source).position offset⟩

/-- The tokens that a source can have: the indentations and the breaks of its lines, parts of their contents,
and its end. -/
inductive Token.Of (source : Text) : Token → Prop
  | indentation {line : Line} (hline : line ∈ Line.split source) (hindented : line.isIndented = true) :
      Token.Of source (.inSource source (.indentation line.width (.ofRun line.indent)) line.indent line.start)
  | content {line : Line} {kind : TokenKind} {taken text left : Text} (hline : line ∈ Line.split source)
      (hkind : kind.isLayout = false) (hsplit : line.content = taken ++ text ++ left) (htext : text ≠ []) :
      Token.Of source (.inSource source kind text (line.contentStart + Text.bytes taken))
  | lineBreak {line : Line} (hline : line ∈ Line.split source) (hbreak : line.hasBreak = true) :
      Token.Of source (.inSource source .eol line.ending.text line.contentEnd)
  | sourceEnd : Token.Of source (.inSource source .eof [] (Text.bytes source))

/-- The cursor stands in the content of a line, before the given rest of it. -/
structure Cursor.Before (source : Text) (line : Line) (left : Text) (cursor : Cursor) : Prop where
  found : (Line.split source)[cursor.line]? = some line
  place : ∃ taken, line.content = taken ++ left ∧ cursor.offset = line.contentStart + Text.bytes taken

/-- The cursor stands at a place of the source: behind all of its lines, at the start of one of them, or in
the content of one. -/
structure Cursor.Stands (source : Text) (cursor : Cursor) : Prop where
  line_le : cursor.line ≤ (Line.split source).length
  begun : cursor.started = true → ∃ line left, cursor.Before source line left

theorem Cursor.Before.mem {source left : Text} {line : Line} {cursor : Cursor} (h : cursor.Before source line left) :
    line ∈ Line.split source := List.mem_of_getElem? h.found

/-- The place behind the blanks that stand before the cursor. -/
theorem Cursor.Before.skip {source left : Text} {line : Line} {cursor : Cursor} (h : cursor.Before source line left) :
    ∃ taken, line.content = taken ++ left.dropWhile Text.isBlank ∧
      cursor.offset + (left.takeWhile Text.isBlank).length = line.contentStart + Text.bytes taken := by
  obtain ⟨taken, hsplit, hoffset⟩ := h.place
  refine ⟨taken ++ left.takeWhile Text.isBlank, ?_, ?_⟩
  · rw [List.append_assoc, List.takeWhile_append_dropWhile, hsplit]
  · rw [Text.bytes_append, Text.bytes_takeWhile_isBlank, hoffset, Nat.add_assoc]

theorem Cursor.Before.stands {source left : Text} {line : Line} {cursor : Cursor} (h : cursor.Before source line left) :
    cursor.Stands source := by
  refine ⟨Nat.le_of_lt ?_, fun _ => ⟨line, left, h⟩⟩
  obtain ⟨hlt, _⟩ := List.getElem?_eq_some_iff.mp h.found
  exact hlt

namespace Scanner

structure Over (source : Text) (scanner : Scanner) : Prop where
  lines : scanner.lines = (Line.split source).toArray
  index : scanner.index = .ofText source

variable {source left : Text} {scanner : Scanner} {line : Line}

theorem over_ofText (source : Text) : (ofText source).Over source := ⟨rfl, rfl⟩

theorem Over.moveTo (hover : scanner.Over source) (cursor : Cursor) : (scanner.moveTo cursor).Over source :=
  ⟨hover.lines, hover.index⟩

theorem Over.getElem? (hover : scanner.Over source) (index : Nat) :
    scanner.lines[index]? = (Line.split source)[index]? := by
  rw [hover.lines, List.getElem?_toArray]

theorem Over.token_eq (hover : scanner.Over source) (kind : TokenKind) (text : Text) (offset : Nat) :
    scanner.token kind text offset = .inSource source kind text offset := by
  rw [token, hover.index, Token.inSource]

theorem Over.endToken_eq (hover : scanner.Over source) :
    scanner.endToken = .inSource source .eof [] (Text.bytes source) := by
  rw [endToken, hover.token_eq, hover.index, LineIndex.ofText]

theorem remaining_eq {taken : Text} (hsplit : line.content = taken ++ left) :
    remaining line (line.contentStart + Text.bytes taken) =
      (line.contentStart + Text.bytes taken + (left.takeWhile Text.isBlank).length, left.dropWhile Text.isBlank) := by
  rw [remaining, hsplit, Nat.add_sub_cancel_left, Text.drop?_bytes, Option.getD_some]

/-- All that a scan can do in the content of a line: leave the line when nothing but blanks is left, take the
whole of a comment, or take the next lexeme. -/
theorem scanContent_cases (h : scanner.cursor.Before source line left) :
    (left.dropWhile Text.isBlank = [] ∧ scanner.scanContent line = scanner.leaveLine line) ∨
    ∃ lexeme more, Lexeme.first? scanner.cursor.mode (left.dropWhile Text.isBlank) = some (lexeme, more) ∧
      ((line.type = .comment ∧ scanner.cursor.offset + (left.takeWhile Text.isBlank).length = line.contentStart ∧
        scanner.scanContent line = (scanner.token .singleLineComment line.content line.contentStart,
          scanner.moveTo { scanner.cursor with offset := line.contentEnd })) ∨
      (¬(line.type = .comment ∧ scanner.cursor.offset + (left.takeWhile Text.isBlank).length = line.contentStart) ∧
        scanner.scanContent line =
          (scanner.token lexeme.kind lexeme.text (scanner.cursor.offset + (left.takeWhile Text.isBlank).length),
          scanner.moveTo { scanner.cursor with
            offset := scanner.cursor.offset + (left.takeWhile Text.isBlank).length + Text.bytes lexeme.text }))) := by
  obtain ⟨taken, hsplit, hoffset⟩ := h.place
  have hremaining := remaining_eq hsplit
  rw [← hoffset] at hremaining
  unfold scanContent
  simp only [hremaining]
  cases hfirst : Lexeme.first? scanner.cursor.mode (left.dropWhile Text.isBlank) with
  | none => exact .inl ⟨Lexeme.first?_eq_none_iff.mp hfirst, rfl⟩
  | some found =>
      obtain ⟨lexeme, more⟩ := found
      refine .inr ⟨lexeme, more, rfl, ?_⟩
      by_cases hcomment :
          line.type = .comment ∧ scanner.cursor.offset + (left.takeWhile Text.isBlank).length = line.contentStart
      · refine .inl ⟨hcomment.1, hcomment.2, ?_⟩
        simp only [hcomment, and_self, if_true]
      · exact .inr ⟨hcomment, if_neg hcomment⟩

/-- What a scanner hands out is a token of its source, and it goes on at a place of the source. -/
structure Hands (source : Text) (scanner : Scanner) (outcome : Token × Scanner) : Prop where
  token : outcome.1.Of source
  next : ∃ cursor : Cursor, outcome.2 = scanner.moveTo cursor ∧ cursor.Stands source

theorem leaveLine_hands (hover : scanner.Over source) (h : scanner.cursor.Before source line left) :
    Hands source scanner (scanner.leaveLine line) := by
  have hnext : Cursor.Stands source ⟨scanner.cursor.line + 1, line.stop, false, scanner.cursor.mode⟩ := by
    obtain ⟨hlt, _⟩ := List.getElem?_eq_some_iff.mp h.found
    exact ⟨hlt, nofun⟩
  unfold leaveLine
  dsimp only
  split
  · rename_i hbreak
    rw [hover.token_eq]
    exact ⟨.lineBreak h.mem hbreak, _, rfl, hnext⟩
  · rw [hover.endToken_eq]
    exact ⟨.sourceEnd, _, rfl, hnext⟩

/-- What begins at a place of the content and is not empty can be handed out. -/
theorem content_hands {taken text more : Text} {kind : TokenKind} {mode : Mode} {started : Bool} {offset : Nat}
    (hover : scanner.Over source) (hfound : (Line.split source)[scanner.cursor.line]? = some line)
    (hkind : kind.isLayout = false) (hsplit : line.content = taken ++ text ++ more) (htext : text ≠ [])
    (hoffset : offset = line.contentStart + Text.bytes taken) :
    Hands source scanner (scanner.token kind text offset,
      scanner.moveTo ⟨scanner.cursor.line, offset + Text.bytes text, started, mode⟩) := by
  have hbehind : Cursor.Before source line more ⟨scanner.cursor.line, offset + Text.bytes text, started, mode⟩ :=
    ⟨hfound, taken ++ text, hsplit, by rw [hoffset, Text.bytes_append, Nat.add_assoc]⟩
  refine ⟨?_, _, rfl, hbehind.stands⟩
  rw [hover.token_eq, hoffset]
  exact .content (List.mem_of_getElem? hfound) hkind hsplit htext

theorem scanContent_hands (hover : scanner.Over source) (h : scanner.cursor.Before source line left) :
    Hands source scanner (scanner.scanContent line) := by
  obtain ⟨taken, hsplit, hoffset⟩ := h.skip
  rcases scanContent_cases h with ⟨_, hscan⟩ | ⟨lexeme, more, hfirst, ⟨_, _, hscan⟩ | ⟨_, hscan⟩⟩
  · rw [hscan]
    exact leaveLine_hands hover h
  · have hcontent : line.content ≠ [] := by
      intro hnil
      rw [hnil] at hsplit
      rw [(List.append_eq_nil_iff.mp hsplit.symm).2] at hfirst
      cases hfirst
    have hwhole : line.content = [] ++ line.content ++ [] := (List.append_nil _).symm
    rw [hscan]
    exact content_hands hover h.found rfl hwhole hcontent rfl
  · rw [hscan]
    rw [← Lexeme.append_of_first? hfirst, ← List.append_assoc] at hsplit
    exact content_hands hover h.found (Lexeme.isLayout_of_first? hfirst) hsplit (Lexeme.ne_nil_of_first? hfirst) hoffset

/-- Before the first token of a line the cursor is moved to the content, in the mode of the line. -/
theorem before_begun (hfound : (Line.split source)[scanner.cursor.line]? = some line) :
    Cursor.Before source line line.content
      ⟨scanner.cursor.line, line.contentStart, true, .ofLineType line.type⟩ := ⟨hfound, [], rfl, rfl⟩

theorem Hands.begun {cursor : Cursor} {outcome : Token × Scanner} (h : Hands source (scanner.moveTo cursor) outcome) :
    Hands source scanner outcome := ⟨h.token, h.next⟩

theorem scan_hands (hover : scanner.Over source) (hstands : scanner.cursor.Stands source) :
    Hands source scanner scanner.scan := by
  unfold scan
  rw [hover.getElem?]
  cases hfound : (Line.split source)[scanner.cursor.line]? with
  | none =>
      dsimp only
      rw [hover.endToken_eq]
      exact ⟨.sourceEnd, scanner.cursor, rfl, hstands⟩
  | some line =>
      have hbegun := before_begun hfound
      dsimp only
      by_cases hstarted : scanner.cursor.started = true
      · obtain ⟨line', left, hbefore⟩ := hstands.begun hstarted
        obtain rfl : line' = line := Option.some.inj (hbefore.found.symm.trans hfound)
        rw [if_pos hstarted]
        exact scanContent_hands hover hbefore
      · rw [if_neg hstarted]
        by_cases hindented : line.isIndented = true
        · rw [if_pos hindented, hover.token_eq]
          exact ⟨.indentation hbegun.mem hindented, _, rfl, hbegun.stands⟩
        · rw [if_neg hindented]
          exact (scanContent_hands (hover.moveTo _) hbegun).begun

theorem scanRun_hands (hover : scanner.Over source) (hstands : scanner.cursor.Stands source) :
    Hands source scanner scanner.scanRun := by
  have hscan := scan_hands hover hstands
  unfold scanRun
  rw [hover.getElem?]
  cases hfound : (Line.split source)[scanner.cursor.line]? with
  | none =>
      dsimp only
      rw [hover.endToken_eq]
      exact ⟨.sourceEnd, scanner.cursor, rfl, hstands⟩
  | some line =>
      dsimp only
      by_cases hstarted : scanner.cursor.started = true
      · obtain ⟨line', left, hbefore⟩ := hstands.begun hstarted
        obtain rfl : line' = line := Option.some.inj (hbefore.found.symm.trans hfound)
        obtain ⟨taken, hsplit, hoffset⟩ := hbefore.place
        obtain ⟨skipped, hskip, hplace⟩ := hbefore.skip
        have hremaining := remaining_eq hsplit
        rw [← hoffset] at hremaining
        simp only [if_pos hstarted, hremaining]
        split
        · exact hscan
        · rename_i hrun
          rw [← List.takeWhile_append_dropWhile (p := (!Text.isBlank ·)) (l := left.dropWhile Text.isBlank),
            ← List.append_assoc] at hskip
          exact content_hands hover hfound rfl hskip (fun hnil => hrun (by rw [hnil]; rfl)) hplace
      · rw [if_neg hstarted]
        exact hscan

end Scanner

end Gamebook
