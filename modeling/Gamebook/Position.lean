import Gamebook.Bisect
import Gamebook.Offset
import Gamebook.Text.Basic

/-!
Positions. Everything is located by byte offset; a position names the same place by line and
column for a reader. Lines and columns count from zero and a column counts bytes from the start of
its line.
-/

namespace Gamebook

/-- A place in a text, by line and column. -/
structure Position where
  line : Nat
  column : Nat
  deriving DecidableEq, Repr, Inhabited

namespace Position

/-- The position as `line:column`. -/
def render (p : Position) : String := s!"{p.line}:{p.column}"

end Position

/-- The starts of the lines of a text, and its size. -/
structure LineIndex where
  /-- Offsets of the first bytes of the lines; the first is zero. -/
  starts : Array Nat
  /-- Size of the whole text. -/
  size : Nat
  deriving DecidableEq, Repr

namespace LineIndex

/-- The offsets behind the line feeds of a text that begins at `offset`. -/
def startsFrom (offset : Nat) : Text → List Nat
  | [] => []
  | c :: cs =>
    if c = '\n' then (offset + 1) :: startsFrom (offset + 1) cs
    else startsFrom (offset + c.utf8Size) cs

/-- The line index of a text: a line starts at the beginning and behind every line feed. -/
def ofText (text : Text) : LineIndex where
  starts := (0 :: startsFrom 0 text).toArray
  size := Text.bytes text

/-- The number of lines. -/
def lineCount (index : LineIndex) : Nat := index.starts.size

/-- Where a line starts. -/
def lineStart? (index : LineIndex) (line : Nat) : Option Nat := index.starts[line]?

/-- Where a line ends, its line break included. -/
def lineEnd? (index : LineIndex) (line : Nat) : Option Nat :=
  if line < index.starts.size then some (index.starts[line + 1]?.getD index.size) else none

/-- The position of an offset; an offset behind the end stands for the end. -/
def position (index : LineIndex) (offset : Nat) : Position :=
  let offset := min offset index.size
  let line := partitionPoint (· ≤ offset) index.starts - 1
  ⟨line, offset - index.starts[line]?.getD 0⟩

/-- The offset of a position. A column behind the end of its line stands for that end, as long as
the sum that finds it does not wrap around, and a line behind the last one for the end of the
text. -/
def offset (index : LineIndex) (position : Position) : Nat :=
  match index.lineStart? position.line with
  | none => index.size
  | some start =>
    min (offsetWrap index.size start position.column)
      ((index.lineEnd? position.line).getD index.size)

end LineIndex

end Gamebook
