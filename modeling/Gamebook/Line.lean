import Gamebook.Text.Class

/-!
Lines. A scene is read line by line, and how a line is read depends on how its content begins:
`*comment` opens a comment, `*` and an alphabetic character a command, `#` an option of a choice,
and everything else is prose. A line keeps its leading blanks, its content and its line break
apart, so that a scene is the concatenation of its lines.
-/

namespace Gamebook

/-- What a line is, by the first characters of its content. -/
inductive LineType where
  | comment
  | command
  | option
  | text
  deriving DecidableEq, Repr, Inhabited

namespace LineType

/-- The word `comment` behind the asterisk, ended by white space or the end of the line. -/
def opensComment (afterAsterisk : Text) : Bool :=
  match "comment".toList.isPrefixOf? afterAsterisk with
  | some rest => rest.head?.all Text.isWhiteSpace
  | none => false

/-- The type of a line with the given content. -/
def ofContent : Text → LineType
  | '*' :: rest =>
    if opensComment rest then .comment
    else if rest.head?.any Text.isAlphabetic then .command
    else .text
  | '#' :: _ => .option
  | _ => .text

def name : LineType → String
  | comment => "Comment"
  | command => "Command"
  | option => "Option"
  | text => "Text"

end LineType

/-- What ends a line. Only the last line of a text can go without. -/
inductive LineEnding where
  | none
  | lf
  | crlf
  deriving DecidableEq, Repr, Inhabited

namespace LineEnding

/-- The characters of a line break. -/
def text : LineEnding → Text
  | none => []
  | lf => ['\n']
  | crlf => ['\r', '\n']

end LineEnding

/-- One line of a text. -/
structure Line where
  /-- Which line it is, from zero. -/
  number : Nat
  /-- Offset of its first byte. -/
  start : Nat
  /-- The leading run of spaces and tabs. -/
  indent : Text
  /-- What follows the indentation, up to the line break. -/
  content : Text
  ending : LineEnding
  deriving DecidableEq, Repr, Inhabited

namespace Line

/-- Offset of the content. -/
def contentStart (line : Line) : Nat := line.start + Text.bytes line.indent

/-- Offset behind the content, where the line break stands. -/
def contentEnd (line : Line) : Nat := line.contentStart + Text.bytes line.content

/-- Offset behind the line break, where the next line starts. -/
def stop (line : Line) : Nat := line.contentEnd + Text.bytes line.ending.text

/-- The type of the line. -/
def type (line : Line) : LineType := .ofContent line.content

/-- The depth of the indentation, in characters. -/
def width (line : Line) : Nat := line.indent.length

def isIndented (line : Line) : Bool := !line.indent.isEmpty

/-- A line without content. -/
def isBlank (line : Line) : Bool := line.content.isEmpty

def hasBreak (line : Line) : Bool := line.ending != .none

/-- Puts a character in front of a text that is already cut into lines. A carriage return right
before a line feed belongs to the line break. -/
def cutStep (c : Char) (cuts : List (Text × LineEnding)) : List (Text × LineEnding) :=
  if c = '\n' then ([], .lf) :: cuts
  else
    match cuts with
    | [] => [([c], .none)]
    | ([], .lf) :: more => if c = '\r' then ([], .crlf) :: more else ([c], .lf) :: more
    | (body, ending) :: more => (c :: body, ending) :: more

/-- A text cut behind each of its line feeds; nothing for the empty text. -/
def cut (text : Text) : List (Text × LineEnding) := text.foldr cutStep []

/-- A text is the concatenation of what it is cut into. -/
theorem flatMap_cut (text : Text) :
    (cut text).flatMap (fun part => part.1 ++ part.2.text) = text := by
  induction text with
  | nil => rfl
  | cons c cs ih =>
    have step : cut (c :: cs) = cutStep c (cut cs) := rfl
    rw [step]
    unfold cutStep
    split
    · rename_i feed
      rw [List.flatMap_cons, ih, feed]
      rfl
    · split
      · rename_i none_left
        rw [none_left] at ih
        simp only [List.flatMap_nil] at ih
        simp [LineEnding.text, ← ih]
      · rename_i more blank
        rw [blank] at ih
        simp only [List.flatMap_cons, List.nil_append, LineEnding.text] at ih
        split
        · rename_i carriage
          simp [LineEnding.text, carriage, ← ih]
        · simp [LineEnding.text, ← ih]
      · rename_i body ending more _ found
        rw [found] at ih
        simp only [List.flatMap_cons] at ih
        simp [← ih]

/-- The line with the given text before its line break. -/
def ofBody (number start : Nat) (body : Text) (ending : LineEnding) : Line where
  number := number
  start := start
  indent := body.takeWhile Text.isBlank
  content := body.dropWhile Text.isBlank
  ending := ending

/-- Numbers and locates lines, the first of which has the given number and start. -/
def layOut (number start : Nat) : List (Text × LineEnding) → List Line
  | [] => []
  | (body, ending) :: more =>
    ofBody number start body ending ::
      layOut (number + 1) (start + Text.bytes body + Text.bytes ending.text) more

/-- The lines of a text. A line break ends a line and does not begin another one; the empty text
has no lines. -/
def lines (text : Text) : List Line := layOut 0 0 (cut text)

/-- The lines of a text, where the empty text counts as one blank line. -/
def split (text : Text) : List Line :=
  match lines text with
  | [] => [ofBody 0 0 [] .none]
  | found => found

end Line

end Gamebook
