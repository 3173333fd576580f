import Gamebook.Proofs.Parser.Grammar
import Gamebook.Proofs.Reader.Reach
import Gamebook.Proofs.Scanner.Tokens

/-!
Parsers and readers. On the content of a line a parser sees what a reader of the line sees: the token that
comes next is the one that a scanner hands out at the place of the reader, in its mode. This holds before the
first token of the content, and stays so whatever is taken, skipped or cut in another mode.
-/

namespace Gamebook

/-- A line of a source, and the levels at which rules are reported. -/
structure Site where
  source : Text
  levels : Levels
  line : Line
  found : (Line.split source)[line.number]? = some line

namespace Site

theorem within (site : Site) : site.line.Within site.source :=
  (Line.arranged_split site.source).within site.line (List.mem_of_getElem? site.found)

def ending (site : Site) : Token :=
  if site.line.hasBreak then site.line.breakToken site.source else Scanner.sourceEnd site.source

theorem endsLine_ending (site : Site) : site.ending.kind.endsLine = true := by
  rw [ending]
  split <;> rfl

/-- A line without break ends where the source ends. -/
theorem stop_of_noBreak (site : Site) (hbreak : ¬site.line.hasBreak = true) :
    site.line.stop = Text.bytes site.source := by
  obtain ⟨front, back, hsplit, -, habove, -⟩ := (Line.arranged_split site.source).getElem? site.found
  have hback := Line.nil_of_noBreak hsplit hbreak
  have hle := site.within.stop_le
  have hstart := site.line.start_le_stop
  refine Nat.le_antisymm hle (Nat.not_lt.mp fun hlt => ?_)
  obtain ⟨other, hother, hfrom, hto⟩ := Line.exists_line_at hlt
  rw [hsplit, hback] at hother
  rcases List.mem_append.mp hother with hother | hother
  · have := habove other hother
    omega
  · rw [List.mem_singleton.mp hother] at hto
    omega

theorem offset_ending (site : Site) : site.ending.offset = site.line.contentEnd := by
  rw [ending]
  split
  · rfl
  · rename_i hbreak
    have hending : site.line.ending = .none := by simpa [Line.hasBreak] using hbreak
    have hstop := site.stop_of_noBreak hbreak
    rw [Line.stop, hending] at hstop
    exact hstop.symm

def cursor (site : Site) (r : Reader) : Cursor := ⟨site.line.number, site.line.start + r.offset, true, r.mode⟩

/-- What a text of the line has before it in the content, and where it begins. -/
def Place (site : Site) (offset : Nat) (left : Text) : Prop :=
  ∃ taken, site.line.content = taken ++ left ∧ offset = site.line.contentStart + Text.bytes taken

theorem Place.advance {site : Site} {offset : Nat} {text left : Text} (h : site.Place offset (text ++ left)) :
    site.Place (offset + Text.bytes text) left := by
  obtain ⟨taken, hsplit, hoffset⟩ := h
  exact ⟨taken ++ text, by rw [hsplit, List.append_assoc], by rw [hoffset, Text.bytes_append, Nat.add_assoc]⟩

theorem Place.skip {site : Site} {offset : Nat} {left : Text} (h : site.Place offset left) :
    site.Place (offset + (left.takeWhile Text.isBlank).length) (left.dropWhile Text.isBlank) := by
  rw [← List.takeWhile_append_dropWhile (p := Text.isBlank) (l := left)] at h
  rw [← Text.bytes_takeWhile_isBlank]
  exact h.advance

/-- All that a scan can do in the content of the line, unless this is a comment. -/
theorem scan_eq (site : Site) {scanner : Scanner} {offset : Nat} {left : Text} (mode : Mode)
    (hover : scanner.Over site.source) (hplace : site.Place offset left)
    (hplain : site.line.type = .comment → left.dropWhile Text.isBlank = []) :
    (scanner.moveTo ⟨site.line.number, offset, true, mode⟩).scan =
      match Lexeme.first? mode (left.dropWhile Text.isBlank) with
      | none => (site.ending, scanner.moveTo ⟨site.line.number + 1, site.line.stop, false, mode⟩)
      | some (lexeme, _) =>
        (.inSource site.source lexeme.kind lexeme.text (offset + (left.takeWhile Text.isBlank).length),
          scanner.moveTo ⟨site.line.number, offset + (left.takeWhile Text.isBlank).length + Text.bytes lexeme.text,
            true, mode⟩) := by
  have hbefore : (scanner.moveTo ⟨site.line.number, offset, true, mode⟩).cursor.Before site.source site.line left :=
    ⟨site.found, hplace⟩
  have hmoved := hover.moveTo ⟨site.line.number, offset, true, mode⟩
  have hscan : (scanner.moveTo ⟨site.line.number, offset, true, mode⟩).scan =
      (scanner.moveTo ⟨site.line.number, offset, true, mode⟩).scanContent site.line :=
    Scanner.scan_started hmoved rfl hbefore.found
  rw [hscan]
  rcases Scanner.scanContent_cases hbefore with ⟨hrest, hleave⟩ | ⟨lexeme, more, hfirst, ⟨hcomment, -, -⟩ | ⟨-, hnext⟩⟩
  · rw [hleave, hrest]
    by_cases hbreak : site.line.hasBreak = true
    · rw [Scanner.leaveLine_of_break hmoved hbreak, ending, if_pos hbreak]
      rfl
    · rw [Scanner.leaveLine_of_end hmoved hbreak, ending, if_neg hbreak]
      rfl
  · rw [hplain hcomment] at hfirst
    cases hfirst
  · rw [hnext, hmoved.token_eq]
    have hfirst' : Lexeme.first? mode (left.dropWhile Text.isBlank) = some (lexeme, more) := hfirst
    rw [hfirst']
    rfl

/-- Blanks before the place make no difference. -/
theorem scan_skip (site : Site) {scanner : Scanner} {offset : Nat} {left : Text} (mode : Mode)
    (hover : scanner.Over site.source) (hplace : site.Place offset left)
    (hplain : site.line.type = .comment → left.dropWhile Text.isBlank = []) :
    (scanner.moveTo ⟨site.line.number, offset, true, mode⟩).scan =
      (scanner.moveTo ⟨site.line.number, offset + (left.takeWhile Text.isBlank).length, true, mode⟩).scan := by
  obtain ⟨htake, hdrop⟩ := Text.trimmed_iff.mp (Text.trimmed_dropWhile left)
  rw [site.scan_eq mode hover hplace hplain, site.scan_eq mode hover hplace.skip fun hcomment => by rw [hdrop, hplain hcomment],
    htake, hdrop]
  rfl

/-- The run up to the next blank is cut where the content goes on with no blank. -/
theorem scanRun_eq (site : Site) {scanner : Scanner} {offset : Nat} {left : Text} (mode : Mode)
    (hover : scanner.Over site.source) (hplace : site.Place offset left)
    (htrimmed : ∀ c ∈ left.head?, Text.isBlank c = false) (hleft : left ≠ []) :
    (scanner.moveTo ⟨site.line.number, offset, true, mode⟩).scanRun =
      (.inSource site.source .unquotedString (left.takeWhile (!Text.isBlank ·)) offset,
        scanner.moveTo ⟨site.line.number, offset + Text.bytes (left.takeWhile (!Text.isBlank ·)), true, mode⟩) := by
  obtain ⟨htake, hdrop⟩ := Text.trimmed_iff.mp htrimmed
  obtain ⟨taken, hsplit, rfl⟩ := hplace
  have hmoved := hover.moveTo ⟨site.line.number, site.line.contentStart + Text.bytes taken, true, mode⟩
  have hremaining := Scanner.remaining_eq hsplit
  rw [htake, hdrop] at hremaining
  have hrun : (left.takeWhile (!Text.isBlank ·)).isEmpty = false := by
    obtain ⟨c, more, rfl⟩ := List.exists_cons_of_ne_nil hleft
    rw [List.takeWhile_cons, htrimmed c rfl]
    rfl
  unfold Scanner.scanRun
  rw [hmoved.getElem?]
  have hfound := site.found
  simp only [Scanner.moveTo] at hmoved ⊢
  simp only [hfound, hremaining, List.length_nil, Nat.add_zero, hrun, Bool.false_eq_true, if_false, if_true,
    hmoved.token_eq]

end Site

namespace TokenKind

theorem endsLine_of_isLayout {kind : TokenKind} (h : kind.isLayout = false) : kind.endsLine = false := by
  cases kind <;> first | rfl | cases h

theorem isLayout_of_endsLine {kind : TokenKind} (h : kind.endsLine = true) : kind.isLayout = true := by
  cases kind <;> first | rfl | cases h

end TokenKind

theorem Operator.ofLexeme?_of_endsLine {kind : TokenKind} (h : kind.endsLine = true) (text : Text) :
    ofLexeme? ⟨kind, text⟩ = none := by
  cases kind <;> first | rfl | cases h

namespace Parser

/-- The parser stands where a reader of the line stands. -/
structure Stands (site : Site) (r : Reader) (p : Parser) : Prop where
  onSource : p.scanner.Over site.source
  source : p.tree.source = site.source
  levels : p.levels = site.levels
  place : site.Place (site.line.start + r.offset) r.rest
  trimmed : r.Trimmed
  plain : site.line.type = .comment → r.rest = []
  looks : (p.token, p.scanner) = (p.scanner.moveTo (site.cursor r)).scan

variable {site : Site} {r : Reader} {p : Parser}

/-- A parser that looks at the place of a reader stands where the reader stands. -/
theorem stands_scan {scanner : Scanner} (hover : scanner.Over site.source) (hsource : p.tree.source = site.source)
    (hlevels : p.levels = site.levels) (hplace : site.Place (site.line.start + r.offset) r.rest) (htrimmed : r.Trimmed)
    (hplain : site.line.type = .comment → r.rest = []) :
    ({ p with
        scanner := (scanner.moveTo (site.cursor r)).scan.2
        token := (scanner.moveTo (site.cursor r)).scan.1 } : Parser).Stands site r := by
  obtain ⟨-, hdrop⟩ := Text.trimmed_iff.mp htrimmed
  obtain ⟨cursor, hcursor⟩ : ∃ cursor, (scanner.moveTo (site.cursor r)).scan.2 = scanner.moveTo cursor := by
    rw [Site.cursor, site.scan_eq r.mode hover hplace fun hcomment => by rw [hdrop, hplain hcomment]]
    split <;> exact ⟨_, rfl⟩
  refine ⟨?_, hsource, hlevels, hplace, htrimmed, hplain, ?_⟩
  · dsimp only
    rw [hcursor]
    exact hover.moveTo cursor
  · have hback : (scanner.moveTo cursor).moveTo (site.cursor r) = scanner.moveTo (site.cursor r) := rfl
    dsimp only
    rw [hcursor, hback, ← hcursor]

/-- What the parser sees: the end of the line, or the lexeme that the reader sees. -/
theorem Stands.cases (h : p.Stands site r) :
    (r.rest = [] ∧ p.token = site.ending ∧
      p.scanner.cursor = ⟨site.line.number + 1, site.line.stop, false, r.mode⟩) ∨
    ∃ lexeme left, Lexeme.first? r.mode r.rest = some (lexeme, left) ∧
      p.token = .inSource site.source lexeme.kind lexeme.text (site.line.start + r.offset) ∧
      p.scanner.cursor =
        ⟨site.line.number, site.line.start + r.offset + Text.bytes lexeme.text, true, r.mode⟩ := by
  obtain ⟨htake, hdrop⟩ := Text.trimmed_iff.mp h.trimmed
  have hlooks := h.looks
  rw [Site.cursor, site.scan_eq r.mode h.onSource h.place fun hcomment => by rw [hdrop, h.plain hcomment]] at hlooks
  rw [htake, hdrop] at hlooks
  cases hfirst : Lexeme.first? r.mode r.rest with
  | none =>
      rw [hfirst] at hlooks
      exact .inl ⟨Lexeme.first?_eq_none_iff.mp hfirst, congrArg (·.1) hlooks, congrArg (·.2.cursor) hlooks⟩
  | some found =>
      obtain ⟨lexeme, left⟩ := found
      rw [hfirst] at hlooks
      exact .inr ⟨lexeme, left, rfl, congrArg (·.1) hlooks, congrArg (·.2.cursor) hlooks⟩

/-- What is left of the content ends where the content ends. -/
theorem Stands.offset_add (h : p.Stands site r) : site.line.start + r.offset + Text.bytes r.rest = site.line.contentEnd := by
  obtain ⟨taken, hsplit, hoffset⟩ := h.place
  rw [hoffset, Line.contentEnd, hsplit, Text.bytes_append, Nat.add_assoc]

/-- What lies ahead lies on the line. -/
theorem Stands.ahead_le (h : p.Stands site r) {offset : Nat} (hahead : r.Ahead offset) :
    site.line.start + offset ≤ site.line.contentEnd := by
  obtain ⟨taken, left, hsplit, rfl⟩ := hahead
  rw [← h.offset_add, hsplit, Text.bytes_append]
  omega

/-- Where something is left there is room for a sign. -/
theorem Stands.succ_le (h : p.Stands site r) (hrest : r.rest ≠ []) :
    site.line.start + r.offset + 1 ≤ site.line.contentEnd := by
  rw [← h.offset_add]
  exact Nat.add_le_add_left (Text.bytes_pos hrest) _

theorem Stands.offset (h : p.Stands site r) : p.token.offset = site.line.start + r.offset := by
  rcases h.cases with ⟨hrest, htoken, -⟩ | ⟨lexeme, left, -, htoken, -⟩
  · rw [htoken, site.offset_ending, ← h.offset_add, hrest]
    rfl
  · rw [htoken]
    rfl

theorem Stands.atEnd (h : p.Stands site r) : p.atEnd = r.atEnd := by
  rcases h.cases with ⟨hrest, htoken, -⟩ | ⟨lexeme, left, hfirst, htoken, -⟩
  · rw [Parser.atEnd, htoken, site.endsLine_ending, Reader.atEnd, hrest]
    rfl
  · have hrest : r.rest ≠ [] := fun hnil => by simp [hnil, Lexeme.first?] at hfirst
    rw [Parser.atEnd, htoken, Reader.atEnd, List.isEmpty_eq_false_iff.mpr hrest]
    exact TokenKind.endsLine_of_isLayout (Lexeme.isLayout_of_first? hfirst)

/-- The next token as a lexeme. -/
theorem Stands.lexeme? (h : p.Stands site r) :
    r.lexeme? = if p.atEnd then none else some ⟨p.token.kind, p.token.text⟩ := by
  rw [h.atEnd, Reader.lexeme?]
  rcases h.cases with ⟨hrest, -, -⟩ | ⟨lexeme, left, hfirst, htoken, -⟩
  · rw [Reader.atEnd, hrest]
    rfl
  · have hrest : r.rest ≠ [] := fun hnil => by simp [hnil, Lexeme.first?] at hfirst
    rw [Reader.atEnd, List.isEmpty_eq_false_iff.mpr hrest, hfirst, htoken]
    rfl

theorem Stands.kind? (h : p.Stands site r) : r.kind? = if p.atEnd then none else some p.token.kind := by
  rw [Reader.kind?, h.lexeme?]
  split <;> rfl

theorem Stands.sees (h : p.Stands site r) {kind : TokenKind} (hkind : kind.endsLine = false) :
    p.sees kind = r.sees kind := by
  rw [Parser.sees, Reader.sees, h.kind?]
  by_cases hend : p.atEnd = true
  · have hne : p.token.kind ≠ kind := by
      rintro rfl
      rw [Parser.atEnd, hkind] at hend
      cases hend
    rw [if_pos hend, beq_eq_false_iff_ne.mpr hne]
    rfl
  · rw [if_neg hend]
    rfl

theorem Stands.length (h : p.Stands site r) : (if p.atEnd then 0 else p.token.length) = Text.bytes r.text := by
  rw [Reader.text, h.lexeme?]
  split <;> rfl

theorem Stands.word (h : p.Stands site r) (hend : r.atEnd = false) : p.word = r.word := by
  rw [Parser.word, Reader.word, Reader.text, h.lexeme?, h.atEnd, hend]
  rfl

/-- What is asked about the next name. -/
theorem Stands.ident (h : p.Stands site r) (test : String → Bool) :
    (p.sees .ident && test p.word) = (r.sees .ident && test r.word) := by
  rw [h.sees rfl]
  cases hsees : r.sees .ident with
  | false => rfl
  | true =>
      have hend : r.atEnd = false := by
        rw [Reader.atEnd, List.isEmpty_eq_false_iff]
        exact Reader.rest_ne_nil_of_kind? (eq_of_beq hsees)
      rw [h.word hend]

theorem Stands.seesName (h : p.Stands site r) : p.seesName = r.seesName := h.ident (!Command.isReserved ·)

theorem Stands.operator? (h : p.Stands site r) : p.operator? = r.operator? := by
  rw [Parser.operator?, Reader.operator?, h.lexeme?]
  by_cases hend : p.atEnd = true
  · rw [if_pos hend]
    exact Operator.ofLexeme?_of_endsLine hend _
  · rw [if_neg hend]
    rfl

theorem Stands.operatorAt? (h : p.Stands site r) (level : Precedence) : p.operatorAt? level = r.operatorAt? level := by
  rw [Parser.operatorAt?, Reader.operatorAt?, h.operator?]

/-- The token before which a reader stands is on the line. -/
theorem Stands.position (h : p.Stands site r) (hrest : r.rest ≠ []) : p.token.position.line = site.line.number := by
  rcases h.cases with ⟨hnil, -⟩ | ⟨lexeme, left, -, htoken, -⟩
  · exact absurd hnil hrest
  · obtain ⟨taken, hsplit, hoffset⟩ := h.place
    have hpos := Text.bytes_pos hrest
    have hstop : site.line.stop = site.line.contentStart + Text.bytes taken + Text.bytes r.rest +
        Text.bytes site.line.ending.text := by
      rw [Line.stop, Line.contentEnd, hsplit, Text.bytes_append, Nat.add_assoc _ (Text.bytes taken)]
    rw [htoken]
    exact LineIndex.line_position site.found (Nat.le_add_right _ _) (by omega)

theorem Stands.ahead (h : p.Stands site r) : p.ahead = r.rest := by
  rw [Parser.ahead, h.atEnd]
  by_cases hrest : r.rest = []
  · rw [if_pos (Reader.atEnd_iff.mpr hrest), hrest]
  · obtain ⟨taken, hsplit, hoffset⟩ := h.place
    rw [if_neg (mt Reader.atEnd_iff.mp hrest), h.position hrest, h.onSource.getElem?, site.found]
    dsimp only
    rw [h.offset, hoffset, Nat.add_sub_cancel_left, hsplit, Text.drop?_bytes]
    rfl

theorem Stands.budget (h : p.Stands site r) : p.budget = r.budget := by rw [Parser.budget, h.ahead, Reader.budget]

/-- The rest of the line is cut in another mode at the place of the parser. -/
theorem Stands.switch (h : p.Stands site r) (mode : Mode) : (p.switch mode).Stands site (r.switch mode) := by
  rcases h.cases with ⟨hrest, htoken, hcursor⟩ | ⟨lexeme, left, hfirst, htoken, hcursor⟩
  · have hlayout : p.token.kind.isLayout = true := by
      rw [htoken]
      exact TokenKind.isLayout_of_endsLine site.endsLine_ending
    have hlooks : (p.token, p.scanner.switchTo mode) =
        ((p.scanner.switchTo mode).moveTo (site.cursor (r.switch mode))).scan := by
      have hplace : site.Place (site.line.start + r.offset) [] := hrest ▸ h.place
      have hscan := site.scan_eq mode (h.onSource.moveTo ⟨site.line.number, 0, true, mode⟩) hplace fun _ => rfl
      have hswitched : p.scanner.switchTo mode =
          p.scanner.moveTo ⟨site.line.number + 1, site.line.stop, false, mode⟩ := by
        rw [Scanner.switchTo, hcursor]
        rfl
      rw [htoken, hswitched]
      exact hscan.symm
    rw [Parser.switch, if_pos hlayout]
    exact ⟨h.onSource.moveTo _, h.source, h.levels, h.place, h.trimmed, h.plain, hlooks⟩
  · have hlayout : ¬p.token.kind.isLayout = true := by
      rw [htoken, Bool.not_eq_true]
      exact Lexeme.isLayout_of_first? hfirst
    have hrest : r.rest ≠ [] := fun hnil => by simp [hnil, Lexeme.first?] at hfirst
    rw [Parser.switch, if_neg hlayout]
    split
    · rename_i hcut
      have hmode : r.switch mode = r := by
        rw [← hcut.1, hcursor]
        rfl
      rw [hmode]
      exact h
    · have hrewind : p.scanner.rewind p.token mode = p.scanner.moveTo (site.cursor (r.switch mode)) := by
        rw [Scanner.rewind, if_neg hlayout, h.position hrest, h.offset]
        rfl
      dsimp only
      rw [hrewind]
      exact stands_scan h.onSource h.source h.levels h.place h.trimmed h.plain

/-! ### Taking tokens -/

/-- The parser stands where a reader stands, and both took something that ends at the same place. -/
structure Reads (site : Site) (r : Reader) (p : Parser) : Prop extends p.Stands site r where
  previous : p.previous.map Token.stop = some (site.line.start + r.lastEnd)
  ordered : r.Ordered

/-- Every place of the reader lies on the line. -/
theorem Reads.site_le (h : p.Reads site r) {offset : Nat} (hsite : r.Site offset) :
    site.line.start + offset ≤ site.line.contentEnd := by
  rcases hsite with rfl | hahead
  · exact Nat.le_trans (Nat.add_le_add_left h.ordered _) (h.ahead_le r.ahead_offset)
  · exact h.ahead_le hahead

theorem Reads.followsDirectly (h : p.Reads site r) : p.followsDirectly = r.followsDirectly := by
  obtain ⟨token, htoken, hstop⟩ := Option.map_eq_some_iff.mp h.previous
  rw [Parser.followsDirectly, htoken, Option.any_some, hstop, h.offset, Reader.followsDirectly]
  exact Bool.eq_iff_iff.mpr (by simp)

/-- Both take a text, of which the scanner has made a token. -/
theorem Stands.advance (h : p.Stands site r) {text left : Text} (hsplit : r.rest = text ++ left) (htext : text ≠ [])
    {scanner : Scanner} {token : Token} (hover : scanner.Over site.source)
    (hcursor : scanner.cursor = ⟨site.line.number, site.line.start + r.offset + Text.bytes text, true, r.mode⟩)
    (hstop : token.stop = site.line.start + r.offset + Text.bytes text) :
    ({ p with scanner := scanner.scan.2, token := scanner.scan.1, previous := some token } : Parser).Reads site
      (r.advance text left) := by
  have hplace : site.Place (site.line.start + r.offset + Text.bytes text) left := (hsplit ▸ h.place).advance
  have hplain : site.line.type = .comment → left.dropWhile Text.isBlank = [] := by
    intro hcomment
    rw [h.plain hcomment] at hsplit
    exact absurd (List.append_eq_nil_iff.mp hsplit.symm).1 htext
  have hoffset : site.line.start + r.offset + Text.bytes text + (left.takeWhile Text.isBlank).length =
      site.line.start + (r.advance text left).offset := by
    rw [Reader.advance]
    dsimp only
    omega
  have hscan : scanner.scan = (scanner.moveTo (site.cursor (r.advance text left))).scan := by
    have hskip := site.scan_skip r.mode hover hplace hplain
    rw [hoffset, ← hcursor] at hskip
    exact hskip
  have hstands := @stands_scan site (r.advance text left) { p with previous := some token } scanner hover h.source h.levels
    (hoffset ▸ hplace.skip) (Text.trimmed_dropWhile left) hplain
  rw [← hscan] at hstands
  refine ⟨hstands, ?_, Nat.le_add_right _ _⟩
  rw [Option.map_some, hstop, Nat.add_assoc]
  rfl

/-- Both take the next lexeme. -/
theorem Stands.next (h : p.Stands site r) (hrest : r.rest ≠ []) : p.next.Reads site r.next := by
  rcases h.cases with ⟨hnil, -, -⟩ | ⟨lexeme, left, hfirst, htoken, hcursor⟩
  · exact absurd hnil hrest
  · rw [Reader.next_of_first? hfirst]
    refine h.advance (Lexeme.append_of_first? hfirst).symm (Lexeme.ne_nil_of_first? hfirst) h.onSource hcursor ?_
    rw [htoken]
    rfl

/-- Both take a sign, or both do not. -/
theorem Stands.accept (h : p.Stands site r) (kind : TokenKind) (hkind : kind.endsLine = false) :
    (r.sees kind = true ∧ p.accept kind = (true, p.next) ∧ r.accept kind = (true, r.next) ∧ p.next.Reads site r.next) ∨
      (r.sees kind = false ∧ p.accept kind = (false, p) ∧ r.accept kind = (false, r)) := by
  rw [Parser.accept, Reader.accept, h.sees hkind]
  by_cases hsees : r.sees kind = true
  · rw [if_pos hsees, if_pos hsees]
    exact .inl ⟨hsees, rfl, rfl, h.next (Reader.rest_ne_nil_of_kind? (eq_of_beq hsees))⟩
  · rw [if_neg hsees, if_neg hsees]
    exact .inr ⟨Bool.not_eq_true _ ▸ hsees, rfl, rfl⟩

theorem Reads.switch (h : p.Reads site r) (mode : Mode) : (p.switch mode).Reads site (r.switch mode) := by
  refine ⟨h.toStands.switch mode, ?_, h.ordered⟩
  have hprevious : (p.switch mode).previous = p.previous := by
    unfold Parser.switch
    split
    · rfl
    · split <;> rfl
  rw [hprevious]
  exact h.previous

theorem Reads.skipWithin (h : p.Reads site r) (test : TokenKind → Bool) (budget : Nat) :
    (Grammar.skipWithin Id test budget p).Reads site (Reader.skipWithin test budget r) := by
  induction budget generalizing p r with
  | zero => exact h
  | succ budget ih =>
      rw [Grammar.skipWithin, Course.counted_succ, Reader.skipWithin, h.kind?]
      by_cases hend : p.atEnd = true
      · rw [hend]
        exact h
      · rw [Bool.not_eq_true] at hend
        rw [hend, Bool.false_or]
        simp only [Bool.false_eq_true, if_false]
        split
        · exact h
        · exact ih (h.next (by rwa [h.atEnd, ← Bool.not_eq_true, Reader.atEnd_iff] at hend))

theorem Reads.skipTo (h : p.Reads site r) (test : TokenKind → Bool) :
    (Grammar.skipTo Id test p).Reads site (r.skipTo test) := by
  rw [Grammar.skipTo, Reader.skipTo, h.ahead]
  exact h.skipWithin test _

theorem Reads.skipLine (h : p.Reads site r) : (Grammar.skipLine Id p).Reads site r.skipLine := h.skipTo _

end Parser

end Gamebook
