import Gamebook.Proofs.Scanner.Step

/-!
Sessions. A scanner can be driven in any order: it reads on, as a token or as a run, changes its mode, goes
back to a place that was saved, or is put back before a token that it has handed out. Whatever the order,
it stands at a place of its source, and all that it hands out is where it says.
-/

namespace Gamebook

namespace Line

variable {source : Text} {line : Line}

theorem indent_ne_nil (h : line.isIndented = true) : line.indent ≠ [] := by simpa [isIndented] using h

theorem indent_eq_nil (h : ¬line.isIndented = true) : line.indent = [] := by simpa [isIndented] using h

/-- The offsets of the parts of a line. -/
theorem offsets (line : Line) : line.contentStart = line.start + Text.bytes line.indent ∧
    line.contentEnd = line.contentStart + Text.bytes line.content ∧
      line.stop = line.contentEnd + Text.bytes line.ending.text := ⟨rfl, rfl, rfl⟩

end Line

/-- The token is where it says, and on the line that its position names. -/
structure Token.Sane (source : Text) (token : Token) : Prop where
  text : Text.slice? token.offset token.stop source = some token.text
  position : token.position = (LineIndex.ofText source).position token.offset
  filled : token.kind ≠ .eof → token.text ≠ []
  line : token.kind ≠ .eof → ∃ line, (Line.split source)[token.position.line]? = some line ∧
    line.start ≤ token.offset ∧ token.stop ≤ line.stop ∧
      (token.kind.isLayout = false → line.contentStart ≤ token.offset ∧ token.stop ≤ line.contentEnd)

namespace Token

variable {source : Text} {token : Token}

/-- A token that begins on a line, before its end, has a position on it. -/
theorem line_inSource {line : Line} (hline : line ∈ Line.split source) (kind : TokenKind) (text : Text) {offset : Nat}
    (hfrom : line.start ≤ offset) (hto : offset < line.stop) :
    (Line.split source)[(inSource source kind text offset).position.line]? = some line := by
  obtain ⟨index, hindex⟩ := List.getElem?_of_mem hline
  rw [inSource, LineIndex.line_position hindex hfrom hto]
  exact hindex

/-- The offsets of a part of the content, between those of the line. -/
theorem content_bounds {line : Line} {taken text left : Text} (hsplit : line.content = taken ++ text ++ left) :
    line.start ≤ line.contentStart + Text.bytes taken ∧
      line.contentStart + Text.bytes taken + Text.bytes text ≤ line.contentEnd := by
  rw [Line.contentEnd, Line.contentStart, hsplit, Text.bytes_append, Text.bytes_append]
  omega

theorem Of.sane (h : token.Of source) : token.Sane source := by
  have hwithin := (Line.arranged_split source).within
  cases h with
  | indentation hline hindented =>
      rename_i line
      obtain ⟨hcontent, hend, hstop⟩ := line.offsets
      have hne := Line.indent_ne_nil hindented
      have hpos := Text.bytes_pos hne
      have hinside : line.start + Text.bytes line.indent ≤ line.stop := by omega
      exact ⟨(hwithin line hline).slice?_indent, rfl, fun _ => hne, fun _ =>
        ⟨line, line_inSource hline _ _ (Nat.le_refl _) (by omega), Nat.le_refl _, hinside, nofun⟩⟩
  | content hline hkind hsplit htext =>
      rename_i line kind taken text left
      obtain ⟨hfrom, hto⟩ := content_bounds hsplit
      have hpos := Text.bytes_pos htext
      have hend : line.contentEnd ≤ line.stop := Nat.le_add_right _ _
      exact ⟨(hwithin line hline).slice?_content hsplit, rfl, fun _ => htext, fun _ =>
        ⟨line, line_inSource hline _ _ hfrom (by omega), hfrom, Nat.le_trans hto hend, fun _ =>
          ⟨Nat.le_add_right _ _, hto⟩⟩⟩
  | lineBreak hline hbreak =>
      rename_i line
      obtain ⟨hcontent, hend, hstop⟩ := line.offsets
      have hne := Line.ending_ne_nil hbreak
      have hpos := Text.bytes_pos hne
      have hfrom : line.start ≤ line.contentEnd := by omega
      have hto : line.contentEnd < line.stop := by omega
      exact ⟨(hwithin line hline).slice?_ending, rfl, fun _ => hne, fun _ =>
        ⟨line, line_inSource hline _ _ hfrom hto, hfrom, Nat.le_refl _, nofun⟩⟩
  | sourceEnd =>
      refine ⟨?_, rfl, fun hkind => absurd rfl hkind, fun hkind => absurd rfl hkind⟩
      have hslice := Text.slice?_middle source [] []
      rw [List.append_nil, List.append_nil] at hslice
      exact hslice

/-- The place before a token is a place of the source, unless the token is layout. -/
theorem Of.before (h : token.Of source) (hkind : token.kind.isLayout = false) (mode : Mode) :
    Cursor.Stands source ⟨token.position.line, token.offset, true, mode⟩ := by
  cases h with
  | content hline hnone hsplit htext =>
      rename_i line kind taken text left
      obtain ⟨hfrom, hto⟩ := content_bounds hsplit
      have hpos := Text.bytes_pos htext
      have hend : line.contentEnd ≤ line.stop := Nat.le_add_right _ _
      have hfound := line_inSource hline kind text hfrom (by omega)
      rw [List.append_assoc] at hsplit
      exact Cursor.Before.stands ⟨hfound, taken, hsplit, rfl⟩
  | _ => cases hkind

end Token

namespace Scanner

/-- What can be asked of a scanner. Saved places and tokens are named by their number, from zero. -/
inductive Request where
  | scan
  | scanRun
  | switchTo (mode : Mode)
  | save
  | goBack (place : Nat)
  | rewind (token : Nat) (mode : Mode)
  deriving DecidableEq, Repr

/-- A scanner with the places that were saved and the tokens that were handed out, the first ones first. -/
structure Session where
  scanner : Scanner
  saved : List Cursor
  handed : List Token

namespace Session

/-- A session before the first request. -/
def begin (source : Text) : Session := ⟨ofText source, [], []⟩

/-- The session behind a token that was handed out. -/
def hand (session : Session) (outcome : Token × Scanner) : Session :=
  { session with scanner := outcome.2, handed := session.handed ++ [outcome.1] }

/-- The session behind a request. A place that was not saved and a token that was not handed out change
nothing. -/
def perform (session : Session) : Request → Session
  | .scan => session.hand session.scanner.scan
  | .scanRun => session.hand session.scanner.scanRun
  | .switchTo mode => { session with scanner := session.scanner.switchTo mode }
  | .save => { session with saved := session.saved ++ [session.scanner.cursor] }
  | .goBack place =>
    match session.saved[place]? with
    | some cursor => { session with scanner := session.scanner.moveTo cursor }
    | none => session
  | .rewind token mode =>
    match session.handed[token]? with
    | some token => { session with scanner := session.scanner.rewind token mode }
    | none => session

/-- The session on a source behind some requests. -/
def after (source : Text) (requests : List Request) : Session := requests.foldl perform (begin source)

/-- All places that the session knows are places of its source, and so are its tokens. -/
structure Sound (source : Text) (session : Session) : Prop where
  onSource : session.scanner.Over source
  stands : session.scanner.cursor.Stands source
  saved : ∀ cursor ∈ session.saved, cursor.Stands source
  handed : ∀ token ∈ session.handed, token.Of source

variable {source : Text} {session : Session}

theorem sound_begin (source : Text) : (begin source).Sound source :=
  ⟨over_ofText source, ⟨Nat.zero_le _, nofun⟩, nofun, nofun⟩

theorem Sound.hand (h : session.Sound source) {outcome : Token × Scanner}
    (hhands : Hands source session.scanner outcome) : (session.hand outcome).Sound source := by
  obtain ⟨htoken, cursor, hnext, hstands⟩ := hhands
  refine ⟨?_, ?_, h.saved, ?_⟩
  · show outcome.2.Over source
    rw [hnext]
    exact h.onSource.moveTo cursor
  · show outcome.2.cursor.Stands source
    rw [hnext]
    exact hstands
  · intro token hmem
    rcases List.mem_append.mp hmem with hmem | hmem
    · exact h.handed token hmem
    · rw [List.mem_singleton.mp hmem]
      exact htoken

theorem Sound.move (h : session.Sound source) {cursor : Cursor} (hstands : cursor.Stands source) :
    Sound source { session with scanner := session.scanner.moveTo cursor } :=
  ⟨h.onSource.moveTo cursor, hstands, h.saved, h.handed⟩

/-- The mode has no part in where a cursor stands. -/
theorem Sound.switch (h : session.Sound source) (mode : Mode) :
    Sound source { session with scanner := session.scanner.switchTo mode } := by
  refine h.move ⟨h.stands.line_le, fun hstarted => ?_⟩
  obtain ⟨line, left, hfound, hplace⟩ := h.stands.begun hstarted
  exact ⟨line, left, hfound, hplace⟩

/-- Every request leaves a session sound. -/
theorem Sound.perform (h : session.Sound source) (request : Request) : (session.perform request).Sound source := by
  cases request with
  | scan => exact h.hand (scan_hands h.onSource h.stands)
  | scanRun => exact h.hand (scanRun_hands h.onSource h.stands)
  | switchTo mode => exact h.switch mode
  | save =>
      refine ⟨h.onSource, h.stands, fun cursor hmem => ?_, h.handed⟩
      rcases List.mem_append.mp hmem with hmem | hmem
      · exact h.saved cursor hmem
      · rw [List.mem_singleton.mp hmem]
        exact h.stands
  | goBack place =>
      simp only [Session.perform]
      split
      · rename_i cursor hcursor
        exact h.move (h.saved cursor (List.mem_of_getElem? hcursor))
      · exact h
  | rewind token mode =>
      simp only [Session.perform]
      split
      · rename_i token htoken
        have hof := h.handed token (List.mem_of_getElem? htoken)
        unfold Scanner.rewind
        by_cases hlayout : token.kind.isLayout = true
        · rw [if_pos hlayout]
          exact h.switch mode
        · rw [if_neg hlayout]
          exact h.move (hof.before (by simpa using hlayout) mode)
      · exact h

theorem Sound.foldl (h : session.Sound source) (requests : List Request) :
    (requests.foldl Session.perform session).Sound source := by
  induction requests generalizing session with
  | nil => exact h
  | cons request requests ih => exact ih (h.perform request)

/-- Whatever comes next, nothing outside the source is read: the cursor is in bounds and the slices that a scan
takes exist, and what was handed out is where it says. -/
structure Safe (source : Text) (session : Session) : Prop where
  line_le : session.scanner.cursor.line ≤ session.scanner.lines.size
  begun : session.scanner.cursor.started = true → ∃ line,
    session.scanner.lines[session.scanner.cursor.line]? = some line ∧
      line.contentStart ≤ session.scanner.cursor.offset ∧ session.scanner.cursor.offset ≤ line.contentEnd ∧
      (Text.slice? session.scanner.cursor.offset line.contentEnd source).isSome ∧
      Text.slice? (remaining line session.scanner.cursor.offset).1 line.contentEnd source =
        some (remaining line session.scanner.cursor.offset).2
  indents : ∀ line ∈ session.scanner.lines, Text.slice? line.start line.contentStart source = some line.indent
  handed : ∀ token ∈ session.handed, token.Sane source

theorem Sound.safe (h : session.Sound source) : session.Safe source := by
  have hwithin := (Line.arranged_split source).within
  refine ⟨?_, fun hstarted => ?_, ?_, fun token hmem => (h.handed token hmem).sane⟩
  · rw [h.onSource.lines, List.size_toArray]
    exact h.stands.line_le
  · obtain ⟨line, left, hbefore⟩ := h.stands.begun hstarted
    obtain ⟨taken, hsplit, hoffset⟩ := hbefore.place
    obtain ⟨skipped, hskip, hplace⟩ := hbefore.skip
    have hline := hwithin line hbefore.mem
    have hremaining := remaining_eq hsplit
    have hend : line.contentEnd = line.contentStart + Text.bytes taken + Text.bytes left := by
      rw [Line.contentEnd, hsplit, Text.bytes_append, Nat.add_assoc]
    have hend' : line.contentEnd = line.contentStart + Text.bytes skipped + Text.bytes (left.dropWhile Text.isBlank) := by
      rw [Line.contentEnd, congrArg Text.bytes hskip, Text.bytes_append, Nat.add_assoc]
    have hrest : line.content = taken ++ left ++ [] := by rw [hsplit, List.append_nil]
    have hskip' : line.content = skipped ++ left.dropWhile Text.isBlank ++ [] := by rw [List.append_nil, ← hskip]
    rw [← hoffset] at hremaining hend
    refine ⟨line, (h.onSource.getElem? _).trans hbefore.found, ?_, ?_, ?_, ?_⟩
    · omega
    · omega
    · rw [hend, hoffset, hline.slice?_content hrest]
      rfl
    · rw [hremaining, hplace, hend', hline.slice?_content hskip']
  · intro line hline
    rw [h.onSource.lines, List.mem_toArray] at hline
    exact (hwithin line hline).slice?_indent

/-- A scanner is safe however it is driven. -/
theorem safe_after (source : Text) (requests : List Request) : (after source requests).Safe source :=
  ((sound_begin source).foldl requests).safe

/-- A comment that is entered again is read on in its middle. -/
example : (after "*comment a".toList [.scan, .rewind 0 .text, .scanRun, .scan]).handed.map Token.kind =
    [.singleLineComment, .unquotedString, .word] := by decide +kernel

end Session

end Scanner

end Gamebook
