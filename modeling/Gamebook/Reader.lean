import Gamebook.Lexeme
import Gamebook.Phrase

/-!
Reading the content of one line. A reader stands before a lexeme, which is cut in the mode that
the reader is in; it can take the lexeme, or take the run up to the next blank instead, or change
its mode and look at the same place again. What a reader has not taken is all there is to its
state, apart from where the last thing it took ended: a rule that does not apply hands the reader
back as it was.
-/

namespace Gamebook

/-- A place in the content of a line. Offsets count from the start of the line. -/
structure Reader where
  mode : Mode
  /-- Offset of what is left. -/
  offset : Nat
  /-- What is left of the content; it begins with no blank. -/
  rest : Text
  /-- Offset behind the last thing that was taken. -/
  lastEnd : Nat
  deriving DecidableEq, Repr, Inhabited

namespace Reader

/-- A reader before the content of a line. -/
def ofLine (line : Line) : Reader :=
  let offset := Text.bytes line.indent
  ⟨.ofLineType line.type, offset, line.content, offset⟩

/-- The lexeme before which the reader stands; nothing at the end of the line. -/
def lexeme? (r : Reader) : Option Lexeme := (Lexeme.first? r.mode r.rest).map Prod.fst

/-- The kind of the next lexeme. -/
def kind? (r : Reader) : Option TokenKind := r.lexeme?.map (·.kind)

/-- The text of the next lexeme, empty at the end of the line. -/
def text (r : Reader) : Text := (r.lexeme?.map (·.text)).getD []

/-- The next lexeme as a word. -/
def word (r : Reader) : String := String.ofList r.text

/-- Whether nothing is left of the line. -/
def atEnd (r : Reader) : Bool := r.rest.isEmpty

/-- Whether the next lexeme is of the given kind. -/
def sees (r : Reader) (kind : TokenKind) : Bool := r.kind? == some kind

/-- Whether the next lexeme stands right behind the last thing that was taken. -/
def followsDirectly (r : Reader) : Bool := r.lastEnd == r.offset

/-- The reader behind a text that it takes, and behind the blanks that follow. -/
def advance (r : Reader) (taken left : Text) : Reader :=
  let stop := r.offset + Text.bytes taken
  { r with
    offset := stop + (left.takeWhile Text.isBlank).length
    rest := left.dropWhile Text.isBlank
    lastEnd := stop }

/-- The reader behind the next lexeme. -/
def next (r : Reader) : Reader :=
  match Lexeme.first? r.mode r.rest with
  | none => r
  | some (lexeme, left) => r.advance lexeme.text left

/-- The run up to the next blank. -/
def run (r : Reader) : Text := r.rest.takeWhile (!Text.isBlank ·)

/-- The reader behind the run up to the next blank. -/
def nextRun (r : Reader) : Reader := r.advance r.run (r.rest.dropWhile (!Text.isBlank ·))

/-- The reader at the same place in another mode. -/
def switch (r : Reader) (mode : Mode) : Reader := { r with mode }

/-- Takes the next lexeme if it is of the given kind. -/
def accept (r : Reader) (kind : TokenKind) : Bool × Reader :=
  if r.sees kind then (true, r.next) else (false, r)

/-- Takes lexemes up to the first one that passes the test, at most `budget` of them. -/
def skipWithin (test : TokenKind → Bool) : Nat → Reader → Reader
  | 0, r => r
  | budget + 1, r =>
    match r.kind? with
    | none => r
    | some kind => if test kind then r else skipWithin test budget r.next

/-- Takes lexemes up to the first one that passes the test, or to the end of the line. -/
def skipTo (r : Reader) (test : TokenKind → Bool) : Reader := skipWithin test r.rest.length r

/-- Takes what is left of the line. -/
def skipLine (r : Reader) : Reader := r.skipTo fun _ => false

/-- The next lexeme as a phrase without parts. -/
def leaf (r : Reader) (kind : Kind) : Phrase × Reader :=
  let next := r.next
  ((Phrase.empty kind r.offset).reach next.lastEnd, next)

/-- The run up to the next blank as a phrase without parts. -/
def leafRun (r : Reader) (kind : Kind) : Phrase × Reader :=
  let next := r.nextRun
  ((Phrase.empty kind r.offset).reach next.lastEnd, next)

end Reader

/-- A rule of the grammar: what it recognises before the reader, if it applies, and where the
reader stands behind it. -/
abbrev Reading := Reader → Option Phrase × Reader

namespace Phrase

/-- A phrase that is not yet begun but to be read: without extent, before the next lexeme. -/
def begin (kind : Kind) (r : Reader) : Phrase := .empty kind r.offset

/-- The phrase extended over everything that the reader has taken. -/
def finish (phrase : Phrase) (r : Reader) : Phrase := phrase.reach r.lastEnd

/-- The phrase with an issue at the next lexeme, or at the end of the line. -/
def complain (phrase : Phrase) (rule : Rule) (r : Reader) : Phrase :=
  phrase.flag rule r.offset (Text.bytes r.text)

/-- The phrase with a part, or with an issue where the part is missing. -/
def addOr (phrase : Phrase) (part : Option Phrase) (rule : Rule) (r : Reader) : Phrase :=
  match part with
  | some part => phrase.add part
  | none => phrase.complain rule r

/-- Takes a closing sign. Where it is missing the rest of the line is skipped and the end of the
line marked, so that nothing behind the opening sign is used for anything else. -/
def close (phrase : Phrase) (kind : TokenKind) (rule : Rule) (r : Reader) :
    Bool × Phrase × Reader :=
  match r.accept kind with
  | (true, r) => (true, phrase, r)
  | (false, r) =>
    let r := r.skipLine
    (false, phrase.complain rule r, r)

/-- Finishes a phrase at the end of the line. What is left of the line is marked and skipped. -/
def finishLine (phrase : Phrase) (r : Reader) : Phrase × Reader :=
  if r.atEnd then (phrase.finish r, r)
  else
    let behind := r.skipLine
    ((phrase.flag .unexpectedToken r.offset (behind.lastEnd - r.offset)).finish behind, behind)

/-- Finishes a phrase with an issue at the next lexeme and skips the rest of the line. -/
def markRest (phrase : Phrase) (rule : Rule) (r : Reader) : Phrase × Reader :=
  let behind := r.skipLine
  ((phrase.complain rule r).finish behind, behind)

end Phrase

end Gamebook
