import Gamebook.Statement

/-!
Scenes. Every line of a scene becomes a phrase of its own. A line that expects lines below it takes
those that follow and are indented deeper than itself; blank lines among them do not end the
block, and the blank lines behind it do not belong to it. How deep a line is indented is only ever
compared with the line that opened the block.
-/

namespace Gamebook

namespace Line

/-- The indentation of the first line with content. -/
def nextWidth? : List Line → Option Nat
  | [] => none
  | line :: more => if line.isBlank then nextWidth? more else some line.width

/-- Whether lines go on with a block that was opened at the given depth. -/
def continues (width : Nat) (lines : List Line) : Bool := (nextWidth? lines).any (width < ·)

/-- Cuts off the lines of a block that was opened at the given depth. -/
def splitBlock (width : Nat) : List Line → List Line × List Line
  | [] => ([], [])
  | line :: more =>
    if continues width (line :: more) then
      let (block, rest) := splitBlock width more
      (line :: block, rest)
    else ([], line :: more)

/-- The unit of indentation of a scene: that of the first line with content that is indented with
spaces only or with tabs only. -/
def establishedUnit? (lines : List Line) : Option IndentUnit :=
  lines.findSome? fun line =>
    let unit := IndentUnit.ofRun line.indent
    if line.isBlank || !line.isIndented || unit = .mixed then none else some unit

/-- The indentation of a line as a phrase, if there is any. On a line with content it is marked
unless it is of the unit of the scene. -/
def indentation? (unit : Option IndentUnit) (line : Line) : Option Phrase :=
  if line.isIndented then
    let own := IndentUnit.ofRun line.indent
    let phrase := (Phrase.empty (.indentation line.width own) 0).reach (Text.bytes line.indent)
    some (if line.isBlank || unit = some own then phrase else phrase.flagWhole .mixedIndentation)
  else none

/-- A line without its statement, from the start of the line. What the statement leaves unread is
marked. -/
def bare (unit : Option IndentUnit) (line : Line) (behind : Reader) : Phrase :=
  let phrase := Phrase.empty (.line line.number line.width line.type) 0
  let phrase := match line.indentation? unit with
    | some indentation => phrase.add indentation
    | none => phrase
  (phrase.finishLine behind).1

/-- A choice is marked unless there is an option in it. -/
def requireOptions (phrase : Phrase) : Phrase :=
  let isOption : Kind → Bool
    | .choiceOption _ _ => true
    | _ => false
  match phrase.kind with
  | .choiceCommand _ =>
    if phrase.any isOption then phrase
    else
      let name := (phrase.kind.commandName?.map (·.utf8ByteSize)).getD 0
      phrase.flag .noChoiceOptions phrase.start (name + 1)
  | _ => phrase

/-- A line with its statement and the lines of its block, where the scene has it. -/
def phrase (unit : Option IndentUnit) (line : Line) (found : Option Statement × Reader)
    (block : List Phrase) : Phrase :=
  let bare := (line.bare unit found.2).shift line.start
  match found.1 with
  | none => bare
  | some statement =>
    let whole := (statement.phrase.shift line.start).addAll block
    bare.add (if statement.opens.isSome then requireOptions whole else whole)

theorem splitBlock_lengths (width : Nat) (lines : List Line) :
    (splitBlock width lines).1.length ≤ lines.length ∧
      (splitBlock width lines).2.length ≤ lines.length := by
  induction lines with
  | nil => simp [splitBlock]
  | cons line more ih =>
    simp only [splitBlock]
    split
    · simp only [List.length_cons]; omega
    · simp

/-- The phrases of lines that stand in one context. -/
def phrases (unit : Option IndentUnit) (context : Context) : List Line → List Phrase
  | [] => []
  | line :: more =>
    let found := (Reader.ofLine line).statement context line.type
    match found.1.bind (·.opens) with
    | none => line.phrase unit found [] :: phrases unit context more
    | some inner =>
      let parts := splitBlock line.width more
      line.phrase unit found (phrases unit inner parts.1) :: phrases unit context parts.2
termination_by lines => lines.length
decreasing_by
  · simp
  · have := (splitBlock_lengths line.width more).1
    simp only [List.length_cons]; omega
  · have := (splitBlock_lengths line.width more).2
    simp only [List.length_cons]; omega

end Line

namespace Scene

/-- A scene as a phrase. -/
def phrase (source : Text) (name uri : Option String) : Phrase :=
  let lines := Line.lines source
  let parts := Line.phrases (Line.establishedUnit? lines) .scene lines
  ((Phrase.empty (.scene name uri) 0).addAll parts).reach (Text.bytes source)

/-- Reads a scene. This never fails: what is wrong with the scene is marked in its tree, at the
given levels. -/
def parse (source : Text) (name uri : Option String) (levels : Levels) : Tree :=
  (phrase source name uri).toTree levels source

end Scene

end Gamebook
