import Gamebook.Lexeme

/-!
The scanner walks over the lines of a scene and hands out one token at a time. All that it
remembers is a cursor, which can be saved, restored and put back before a token; how the rest of a
line is cut can be switched at any time and is decided anew at the start of each line.
-/

namespace Gamebook

/-- Where a scanner stands. -/
structure Cursor where
  line : Nat
  offset : Nat
  /-- Whether the indentation of the line is already passed. -/
  started : Bool
  mode : Mode
  deriving DecidableEq, Repr, Inhabited

/-- A scene with a cursor in it. -/
structure Scanner where
  lines : Array Line
  index : LineIndex
  cursor : Cursor
  deriving DecidableEq, Repr

namespace Scanner

/-- The cursor before the first line. -/
def origin : Cursor := ⟨0, 0, false, .text⟩

/-- A scanner at the start of a scene. -/
def ofText (source : Text) : Scanner where
  lines := (Line.split source).toArray
  index := .ofText source
  cursor := origin

/-- A token of this scene. -/
def token (scanner : Scanner) (kind : TokenKind) (text : Text) (offset : Nat) : Token :=
  ⟨kind, text, offset, scanner.index.position offset⟩

/-- The token behind the last line. -/
def endToken (scanner : Scanner) : Token := scanner.token .eof [] scanner.index.size

def moveTo (scanner : Scanner) (cursor : Cursor) : Scanner := { scanner with cursor }

def switchTo (scanner : Scanner) (mode : Mode) : Scanner :=
  { scanner with cursor := { scanner.cursor with mode } }

/-- Puts the cursor back before a token, to read it again in the given mode. Layout cannot be read
again: only the mode changes. -/
def rewind (scanner : Scanner) (token : Token) (mode : Mode) : Scanner :=
  if token.kind.isLayout then scanner.switchTo mode
  else scanner.moveTo ⟨token.position.line, token.offset, true, mode⟩

/-- What is left of a line's content at an offset, and where it begins, blanks skipped. -/
def remaining (line : Line) (offset : Nat) : Nat × Text :=
  let rest := (Text.drop? (offset - line.contentStart) line.content).getD []
  (offset + (rest.takeWhile Text.isBlank).length, rest.dropWhile Text.isBlank)

/-- Leaves a line whose content is read: hands out its break, or the end behind the last line. -/
def leaveLine (scanner : Scanner) (line : Line) : Token × Scanner :=
  let next := scanner.moveTo ⟨scanner.cursor.line + 1, line.stop, false, scanner.cursor.mode⟩
  if line.hasBreak then (scanner.token .eol line.ending.text line.contentEnd, next)
  else (scanner.endToken, next)

/-- The next token of a line that is already begun. -/
def scanContent (scanner : Scanner) (line : Line) : Token × Scanner :=
  let cursor := scanner.cursor
  let (offset, rest) := remaining line cursor.offset
  match Lexeme.first? cursor.mode rest with
  | none => scanner.leaveLine line
  | some (lexeme, _) =>
    if line.type = .comment ∧ offset = line.contentStart then
      (scanner.token .singleLineComment line.content offset,
        scanner.moveTo { cursor with offset := line.contentEnd })
    else
      (scanner.token lexeme.kind lexeme.text offset,
        scanner.moveTo { cursor with offset := offset + Text.bytes lexeme.text })

/-- The next token. At the end of the scene it is the end token, again and again. -/
def scan (scanner : Scanner) : Token × Scanner :=
  match scanner.lines[scanner.cursor.line]? with
  | none => (scanner.endToken, scanner)
  | some line =>
    if scanner.cursor.started then scanner.scanContent line
    else
      let begun := scanner.moveTo
        ⟨scanner.cursor.line, line.contentStart, true, .ofLineType line.type⟩
      if line.isIndented then
        (scanner.token (.indentation line.width (.ofRun line.indent)) line.indent line.start, begun)
      else begun.scanContent line

/-- The run up to the next blank as one token. At the start and at the end of a line there is no
run to read, and the next token is read instead. -/
def scanRun (scanner : Scanner) : Token × Scanner :=
  match scanner.lines[scanner.cursor.line]? with
  | none => (scanner.endToken, scanner)
  | some line =>
    if scanner.cursor.started then
      let (offset, rest) := remaining line scanner.cursor.offset
      let run := rest.takeWhile (!Text.isBlank ·)
      if run.isEmpty then scanner.scan
      else
        (scanner.token .unquotedString run offset,
          scanner.moveTo { scanner.cursor with offset := offset + Text.bytes run })
    else scanner.scan

/-- The tokens from the cursor on, at most `budget` of them. -/
def tokensWithin : Nat → Scanner → List Token
  | 0, _ => []
  | budget + 1, scanner =>
    let (token, next) := scanner.scan
    if token.kind = .eof then [token] else token :: tokensWithin budget next

end Scanner

/-- The tokens of a scene, the end token last. Every other token covers a character at least, which
bounds their number. -/
def tokensOf (source : Text) : List Token :=
  Scanner.tokensWithin (source.length + 1) (.ofText source)

end Gamebook
