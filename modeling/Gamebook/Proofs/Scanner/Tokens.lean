import Gamebook.Proofs.Scanner.LineTokens

/-!
The tokens of a source. A scanner that is not disturbed hands out the tokens of one line behind the other, and
at last the end; so the tokens are found without any bound on their number, and what was shown line by line
holds of the whole.
-/

namespace Gamebook

namespace Scanner

/-- The tokens that a scanner hands out before it goes on like another one. -/
inductive Emits : Scanner → List Token → Scanner → Prop
  | same {scanner last : Scanner} (hscan : scanner.scan = last.scan) : Emits scanner [] last
  | token {scanner next last : Scanner} {token : Token} {tokens : List Token} (hscan : scanner.scan = (token, next))
      (hkind : token.kind ≠ .eof) (hmore : Emits next tokens last) : Emits scanner (token :: tokens) last

variable {source left : Text} {scanner last : Scanner} {line : Line} {tokens : List Token}

theorem Emits.append {middle : Scanner} {more : List Token} (h : scanner.Emits tokens middle)
    (hmore : middle.Emits more last) : scanner.Emits (tokens ++ more) last := by
  induction h with
  | same hscan =>
      cases hmore with
      | same hsame => exact .same (hscan.trans hsame)
      | token hnext hkind hmore => exact .token (hscan.trans hnext) hkind hmore
  | token hscan hkind _ ih => exact .token hscan hkind (ih hmore)

theorem tokensWithin_congr {other : Scanner} (h : scanner.scan = other.scan) (budget : Nat) :
    tokensWithin budget scanner = tokensWithin budget other := by
  cases budget with
  | zero => rfl
  | succ budget => simp only [tokensWithin, h]

theorem Emits.tokensWithin_eq (h : scanner.Emits tokens last) {budget : Nat} (hbudget : tokens.length ≤ budget) :
    tokensWithin budget scanner = tokens ++ tokensWithin (budget - tokens.length) last := by
  induction h generalizing budget with
  | same hscan => exact tokensWithin_congr hscan budget
  | token hscan hkind _ ih =>
      obtain ⟨budget, rfl⟩ : ∃ fewer, budget = fewer + 1 := ⟨budget - 1, by simp at hbudget; omega⟩
      simp only [List.length_cons, Nat.add_le_add_iff_right] at hbudget
      simp only [tokensWithin, hscan, if_neg hkind, ih hbudget, List.length_cons, Nat.add_sub_add_right,
        List.cons_append]

/-! ### Scanning a line -/

theorem scan_started (hover : scanner.Over source) (hstarted : scanner.cursor.started = true)
    (hfound : (Line.split source)[scanner.cursor.line]? = some line) : scanner.scan = scanner.scanContent line := by
  rw [scan, hover.getElem?, hfound]
  exact if_pos hstarted

/-- The lexemes of a content that is no comment are handed out one by one. -/
theorem emits_content (hover : scanner.Over source) (hstarted : scanner.cursor.started = true)
    (h : scanner.cursor.Before source line left) (hcomment : line.type ≠ .comment) :
    ∃ last, scanner.Emits ((Lexeme.sequence scanner.cursor.mode scanner.cursor.offset left).map (Located.token source)) last ∧
      last.Over source ∧ last.scan = last.leaveLine line ∧ last.cursor.line = scanner.cursor.line := by
  induction hlength : left.length using Nat.strongRecOn generalizing scanner left with
  | ind size ih =>
      have hscan := scan_started hover hstarted h.found
      rcases scanContent_cases h with ⟨hrest, hleave⟩ | ⟨lexeme, more, hfirst, ⟨hline, _⟩ | ⟨_, hnext⟩⟩
      · rw [← Lexeme.sequence_dropWhile, hrest, Lexeme.sequence_nil]
        exact ⟨scanner, .same rfl, hover, hscan.trans hleave, rfl⟩
      · exact absurd hline hcomment
      · obtain ⟨taken, hsplit, hoffset⟩ := h.skip
        rw [← Lexeme.append_of_first? hfirst, ← List.append_assoc] at hsplit
        obtain ⟨last, hemits, hlast⟩ := ih more.length (hlength ▸ Lexeme.length_lt_of_first? hfirst)
          (hover.moveTo { scanner.cursor with
            offset := scanner.cursor.offset + (left.takeWhile Text.isBlank).length + Text.bytes lexeme.text }) hstarted
          ⟨h.found, taken ++ lexeme.text, hsplit, by rw [Text.bytes_append, ← Nat.add_assoc, ← hoffset]; rfl⟩ rfl
        refine ⟨last, ?_, hlast⟩
        rw [hover.token_eq] at hnext
        rw [Lexeme.sequence_of_first? hfirst, List.map_cons]
        refine .token (hscan.trans hnext) ?_ hemits
        intro heof
        have hkind := Lexeme.isLayout_of_first? hfirst
        rw [show lexeme.kind = .eof from heof] at hkind
        cases hkind

/-- A comment is handed out whole. -/
theorem scan_comment (hover : scanner.Over source) (hstarted : scanner.cursor.started = true)
    (hmode : scanner.cursor.offset = line.contentStart)
    (h : scanner.cursor.Before source line line.content) (hcomment : line.type = .comment) :
    scanner.scan = (.inSource source .singleLineComment line.content line.contentStart,
      scanner.moveTo { scanner.cursor with offset := line.contentEnd }) := by
  obtain ⟨htake, hdrop⟩ := Text.trimmed_iff.mp (Line.clean_of_mem_split h.mem).trimmed
  have hnext := scanContent_cases h
  rw [htake, hdrop] at hnext
  rw [scan_started hover hstarted h.found]
  rcases hnext with ⟨hnil, _⟩ | ⟨lexeme, more, _, ⟨_, _, hnext⟩ | ⟨hnot, _⟩⟩
  · exact absurd hnil (Line.content_ne_nil_of_comment hcomment)
  · rw [hnext, hover.token_eq]
  · exact absurd ⟨hcomment, hmode⟩ hnot

theorem emits_comment (hover : scanner.Over source) (hstarted : scanner.cursor.started = true)
    (hmode : scanner.cursor.offset = line.contentStart)
    (h : scanner.cursor.Before source line line.content) (hcomment : line.type = .comment) :
    ∃ last, scanner.Emits [.inSource source .singleLineComment line.content line.contentStart] last ∧
      last.Over source ∧ last.scan = last.leaveLine line ∧ last.cursor.line = scanner.cursor.line := by
  have hscan := scan_comment hover hstarted hmode h hcomment
  have hover' := hover.moveTo { scanner.cursor with offset := line.contentEnd }
  have hbefore : (scanner.moveTo { scanner.cursor with offset := line.contentEnd }).cursor.Before source line [] :=
    ⟨h.found, line.content, (List.append_nil _).symm, rfl⟩
  refine ⟨_, .token hscan TokenKind.noConfusion (.same rfl), hover', ?_, rfl⟩
  rw [scan_started hover' hstarted hbefore.found]
  rcases scanContent_cases hbefore with ⟨_, hleave⟩ | ⟨_, _, hfirst, _⟩
  · exact hleave
  · cases hfirst

/-- The cursor before the content of a line. -/
def entrance (number : Nat) (line : Line) : Cursor := ⟨number, line.contentStart, true, .ofLineType line.type⟩

/-- At the start of a line its indentation is handed out, if it has any. -/
theorem scan_unstarted (hover : scanner.Over source) (hstarted : scanner.cursor.started = false)
    (hfound : (Line.split source)[scanner.cursor.line]? = some line) :
    scanner.scan =
      if line.isIndented then (line.indentToken source, scanner.moveTo (entrance scanner.cursor.line line))
      else (scanner.moveTo (entrance scanner.cursor.line line)).scan := by
  have hover' := hover.moveTo (entrance scanner.cursor.line line)
  rw [scan_started hover' rfl hfound, scan, hover.getElem?, hfound]
  simp only [hstarted, Bool.false_eq_true, if_false, hover.token_eq]
  rfl

/-- The tokens of a line up to its break are handed out, and then the line is left. -/
theorem emits_line (hover : scanner.Over source) (hstarted : scanner.cursor.started = false)
    (hfound : (Line.split source)[scanner.cursor.line]? = some line) :
    ∃ last, scanner.Emits (line.inlineTokens source) last ∧ last.Over source ∧ last.scan = last.leaveLine line ∧
      last.cursor.line = scanner.cursor.line := by
  have hbegun := before_begun hfound
  have hover' := hover.moveTo (entrance scanner.cursor.line line)
  obtain ⟨last, hemits, hlast⟩ : ∃ last, (scanner.moveTo (entrance scanner.cursor.line line)).Emits
      (line.signs.map (Located.token source)) last ∧ last.Over source ∧ last.scan = last.leaveLine line ∧
        last.cursor.line = scanner.cursor.line := by
    unfold Line.signs
    split
    · rename_i hcomment
      exact emits_comment hover' rfl rfl hbegun hcomment
    · rename_i hcomment
      exact emits_content hover' rfl hbegun hcomment
  refine ⟨last, ?_, hlast⟩
  have hscan := scan_unstarted hover hstarted hfound
  unfold Line.inlineTokens
  by_cases hindented : line.isIndented = true
  · rw [if_pos hindented] at hscan ⊢
    exact .token hscan TokenKind.noConfusion hemits
  · rw [if_neg hindented] at hscan ⊢
    exact (Emits.same hscan).append hemits

/-! ### Scanning a source -/

def sourceEnd (source : Text) : Token := .inSource source .eof [] (Text.bytes source)

theorem tokensWithin_of_end {next : Scanner} (h : scanner.scan = (sourceEnd source, next)) {budget : Nat}
    (hbudget : 0 < budget) : tokensWithin budget scanner = [sourceEnd source] := by
  obtain ⟨fewer, rfl⟩ := Nat.exists_eq_add_of_lt hbudget
  simp only [Nat.zero_add, tokensWithin, h]
  exact if_pos rfl

theorem leaveLine_of_break (hover : last.Over source) (hbreak : line.hasBreak = true) : last.leaveLine line =
    (line.breakToken source, last.moveTo ⟨last.cursor.line + 1, line.stop, false, last.cursor.mode⟩) := by
  rw [leaveLine, if_pos hbreak, hover.token_eq]
  rfl

theorem leaveLine_of_end (hover : last.Over source) (hbreak : ¬line.hasBreak = true) : last.leaveLine line =
    (sourceEnd source, last.moveTo ⟨last.cursor.line + 1, line.stop, false, last.cursor.mode⟩) := by
  rw [leaveLine, if_neg hbreak, hover.endToken_eq]
  rfl

/-- From the start of a line on, the tokens are those of the lines that are left, and the end. -/
theorem tokensWithin_lines {front back : List Line} (hover : scanner.Over source)
    (hstarted : scanner.cursor.started = false) (hsplit : Line.split source = front ++ back)
    (hline : scanner.cursor.line = front.length) {budget : Nat}
    (hbudget : (back.flatMap (Line.tokens source)).length < budget) :
    tokensWithin budget scanner = back.flatMap (Line.tokens source) ++ [sourceEnd source] := by
  induction back generalizing front scanner budget with
  | nil =>
      have hnone : (Line.split source)[scanner.cursor.line]? = none := by
        rw [hsplit, hline, List.append_nil, List.getElem?_eq_none (Nat.le_refl _)]
      have hscan : scanner.scan = (sourceEnd source, scanner) := by
        rw [scan, hover.getElem?, hnone, sourceEnd, ← hover.endToken_eq]
      exact tokensWithin_of_end hscan (Nat.zero_lt_of_lt hbudget)
  | cons line more ih =>
      have hfound : (Line.split source)[scanner.cursor.line]? = some line := by
        rw [hsplit, hline, List.getElem?_append_right (Nat.le_refl _), Nat.sub_self, List.getElem?_cons_zero]
      obtain ⟨last, hemits, hlast, hleave, hsame⟩ := emits_line hover hstarted hfound
      rw [List.flatMap_cons, List.length_append, Line.tokens, List.length_append] at hbudget
      rw [hemits.tokensWithin_eq (by omega), List.flatMap_cons, Line.tokens]
      by_cases hbreak : line.hasBreak = true
      · rw [if_pos hbreak] at hbudget ⊢
        rw [leaveLine_of_break hlast hbreak] at hleave
        have hbreaks : last.Emits [line.breakToken source] _ := .token hleave TokenKind.noConfusion (.same rfl)
        have hrest : Line.split source = (front ++ [line]) ++ more := by rw [hsplit, List.append_assoc]; rfl
        rw [List.length_singleton] at hbudget
        rw [hbreaks.tokensWithin_eq (by rw [List.length_singleton]; omega), List.length_singleton,
          ih (hlast.moveTo _) rfl hrest (by rw [List.length_append, ← hline, ← hsame]; rfl) (by omega)]
        simp only [List.append_assoc]
      · -- only the last line has no break
        rw [leaveLine_of_end hlast hbreak] at hleave
        rw [if_neg hbreak, Line.nil_of_noBreak hsplit hbreak, tokensWithin_of_end hleave (by omega)]
        simp

theorem length_flatMap_tokens (source : Text) :
    ((Line.split source).flatMap (Line.tokens source)).length ≤ source.length := by
  have hwhole : ∀ lines : List Line,
      (lines.flatMap (Line.tokens source)).length ≤ (lines.flatMap Line.whole).length := by
    intro lines
    induction lines with
    | nil => exact Nat.le_refl _
    | cons line more ih =>
        have hline := Line.length_tokens_le source line
        rw [List.flatMap_cons, List.flatMap_cons, List.length_append, List.length_append]
        omega
  have hle := hwhole (Line.split source)
  rwa [Line.flatMap_split] at hle

end Scanner

variable {source : Text}

/-- Every token is handed out by a scanner. -/
theorem Scanner.of_mem_tokensWithin {scanner : Scanner} {budget : Nat} {token : Token} (hover : scanner.Over source)
    (hstands : scanner.cursor.Stands source) (h : token ∈ tokensWithin budget scanner) : token.Of source := by
  induction budget generalizing scanner with
  | zero => cases h
  | succ budget ih =>
      obtain ⟨htoken, cursor, hnext, hcursor⟩ := scan_hands hover hstands
      simp only [tokensWithin] at h
      split at h
      · rw [List.mem_singleton.mp h]
        exact htoken
      · rcases List.mem_cons.mp h with rfl | h
        · exact htoken
        · rw [hnext] at h
          exact ih (hover.moveTo cursor) hcursor h

theorem of_mem_tokensOf {token : Token} (h : token ∈ tokensOf source) : token.Of source :=
  Scanner.of_mem_tokensWithin (Scanner.over_ofText source) ⟨Nat.zero_le _, nofun⟩ h

/-- The tokens of a source are those of its lines, and the end. -/
theorem tokensOf_eq (source : Text) :
    tokensOf source = (Line.split source).flatMap (Line.tokens source) ++ [Scanner.sourceEnd source] :=
  Scanner.tokensWithin_lines (Scanner.over_ofText source) rfl (List.nil_append _).symm rfl
    (Nat.lt_succ_of_le (Scanner.length_flatMap_tokens source))

theorem ordered_tokensOf (source : Text) :
    (tokensOf source).Pairwise fun former latter => former.stop ≤ latter.offset := by
  have harranged := Line.arranged_split source
  rw [tokensOf_eq, List.pairwise_append, List.pairwise_flatMap]
  refine ⟨⟨fun line _ => line.tokens_ordered source, ?_⟩, List.pairwise_singleton _ _, ?_⟩
  · refine harranged.sorted.imp fun hle former hformer latter hlatter => ?_
    have hupper := Line.token_bounds hformer
    have hlower := Line.token_bounds hlatter
    omega
  · intro former hformer latter hlatter
    obtain ⟨line, hline, hmem⟩ := List.mem_flatMap.mp hformer
    rw [List.mem_singleton.mp hlatter]
    show former.stop ≤ Text.bytes source
    exact Nat.le_trans (Line.token_bounds hmem).2 (harranged.within line hline).stop_le

/-- What is not covered by a token is a blank in the content of a line. -/
theorem gaps_tokensOf {offset : Nat} (h : offset < Text.bytes source)
    (hgap : ∀ token ∈ tokensOf source, ¬(token.offset ≤ offset ∧ offset < token.stop)) :
    ∃ line ∈ Line.split source, line.contentStart ≤ offset ∧ offset < line.contentEnd ∧
      ∃ c, Text.slice? offset (offset + 1) source = some [c] ∧ Text.isBlank c = true := by
  obtain ⟨line, hline, hfrom, hto⟩ := Line.exists_line_at h
  rcases line.tokens_gaps hfrom hto with ⟨token, htoken, hcovers⟩ | ⟨before, c, behind, hsplit, hc, rfl⟩
  · refine absurd hcovers (hgap token ?_)
    rw [tokensOf_eq]
    exact List.mem_append_left _ (List.mem_flatMap.mpr ⟨line, hline, htoken⟩)
  · have hsize : Text.bytes [c] = 1 := Text.bytes_of_blank (List.forall_mem_singleton.mpr hc)
    have hparts : line.content = before ++ [c] ++ behind := by rw [hsplit, List.append_assoc, List.singleton_append]
    have hslice := ((Line.arranged_split source).within line hline).slice?_content hparts
    rw [hsize] at hslice
    refine ⟨line, hline, Nat.le_add_right _ _, ?_, c, hslice, hc⟩
    rw [Line.contentEnd, hparts, Text.bytes_append, Text.bytes_append, hsize]
    omega

/-- What the tokens of a source are: texts of the source one behind the other, of which the last is its end;
one for every indentation and one for every line break, and nothing but blanks in the content of a line between
them. The lines are told by their breaks, and their indentations are all that is blank in front of them. -/
structure Tokenized (source : Text) (tokens : List Token) : Prop where
  ends : ∃ front, tokens = front ++ [.inSource source .eof [] (Text.bytes source)] ∧ ∀ token ∈ front, token.kind ≠ .eof
  text : ∀ token ∈ tokens, Text.slice? token.offset token.stop source = some token.text
  position : ∀ token ∈ tokens, token.position = (LineIndex.ofText source).position token.offset
  filled : ∀ token ∈ tokens, token.kind ≠ .eof → token.text ≠ []
  ordered : tokens.Pairwise fun former latter => former.stop ≤ latter.offset
  gaps : ∀ offset < Text.bytes source, (∀ token ∈ tokens, ¬(token.offset ≤ offset ∧ offset < token.stop)) →
    ∃ line ∈ Line.split source, line.contentStart ≤ offset ∧ offset < line.contentEnd ∧
      ∃ c, Text.slice? offset (offset + 1) source = some [c] ∧ Text.isBlank c = true
  indentations : tokens.filter (·.kind.isIndentation) =
    ((Line.split source).filter Line.isIndented).map (Line.indentToken source)
  breaks : tokens.filter (·.kind == .eol) = ((Line.split source).filter Line.hasBreak).map (Line.breakToken source)
  lines : (Line.split source).flatMap Line.whole = source ∧ ∀ line ∈ Line.split source, line.Within source ∧ line.Clean

theorem flatMap_singleton_if (test : Line → Bool) (token : Line → Token) (lines : List Line) :
    lines.flatMap (fun line => if test line then [token line] else []) = (lines.filter test).map token := by
  induction lines with
  | nil => rfl
  | cons line more ih =>
      rw [List.flatMap_cons, ih, List.filter_cons]
      split <;> rfl

/-- Cutting a source into tokens loses nothing of it. -/
theorem tokenized_tokensOf (source : Text) : Tokenized source (tokensOf source) := by
  refine ⟨?_, ?_, ?_, ?_, ordered_tokensOf source, fun _ h => gaps_tokensOf h, ?_, ?_, ?_⟩
  · refine ⟨_, tokensOf_eq source, fun token htoken => ?_⟩
    obtain ⟨line, _, hmem⟩ := List.mem_flatMap.mp htoken
    exact Line.kind_ne_eof hmem
  · exact fun token h => (of_mem_tokensOf h).sane.text
  · exact fun token h => (of_mem_tokensOf h).sane.position
  · exact fun token h => (of_mem_tokensOf h).sane.filled
  · rw [tokensOf_eq, List.filter_append, List.filter_flatMap, funext (Line.filter_isIndentation source),
      flatMap_singleton_if]
    exact List.append_nil _
  · rw [tokensOf_eq, List.filter_append, List.filter_flatMap, funext (Line.filter_eol source), flatMap_singleton_if]
    exact List.append_nil _
  · exact ⟨Line.flatMap_split source, fun line h => ⟨(Line.arranged_split source).within line h, Line.clean_of_mem_split h⟩⟩

end Gamebook
