import Gamebook.Proofs.Parser.Layout

/-!
Lines and blocks, checked. A block goes on by itself behind each of its lines, and a line in it opens a block
that begins behind the line.
-/

namespace Gamebook.Checked

open Course (descend)

/-- A block that has been opened: the node that its lines are put into, the width of the line that opened it, what
its lines stand in, and the unit of indentation that is known. -/
structure Opening where
  owner : Nat
  width : Nat
  context : Context
  unit : Option IndentUnit

/-- What follows the indentation of a line: its statement, if there is any, and the lines of its block put below
that as given. -/
def restOfLine (block : Opening → Parser → Option (Option IndentUnit × Parser)) (context : Context) (type : LineType)
    (id width : Nat) (unit : Option IndentUnit) (p : Parser) : Option (Nat × Option IndentUnit × Parser) := do
  match ← Grammar.statement Option context type p with
  | (none, p) =>
    let p ← Grammar.finishLine Option id p
    some (id, unit, (p.accept .eol).2)
  | (some stated, p) =>
    let p ← Grammar.finishLine Option id (p.adopt id stated.node)
    let p := (p.accept .eol).2
    match stated.opens with
    | none => some (id, unit, p)
    | some inner =>
      let (unit, p) ← block ⟨stated.node, width, inner, unit⟩ p
      some (id, unit, Parser.requireOptions stated.node p)

/-- A line with the lines of its block. -/
def lineOver (block : Opening → Parser → Option (Option IndentUnit × Parser)) (context : Context)
    (unit : Option IndentUnit) (p : Parser) : Option (Nat × Option IndentUnit × Parser) :=
  let number := p.token.position.line
  let line := p.scanner.lines[number]?
  let type := (line.map (·.type)).getD .text
  let (id, p) := p.createAt (.line number 0 type) ((line.map (·.start)).getD p.token.offset)
  let (width, unit, p) := Parser.margin id number type unit p
  restOfLine block context type id width unit p

/-- The lines that follow as long as they are indented deeper than the line of their owner. -/
def block : Opening → Parser → Option (Option IndentUnit × Parser) :=
  descend fun block opening p => do
    match ← Grammar.nextIndent Option p with
    | (none, p) => some (opening.unit, p)
    | (some next, p) =>
      if next ≤ opening.width then some (opening.unit, p)
      else
        let (line, unit, p) ← lineOver block opening.context opening.unit p
        block { opening with unit } (p.adopt opening.owner line)

/-- The lines of the scene, put into its node. -/
def lines : Nat × Option IndentUnit → Parser → Option Parser :=
  descend fun lines (scene, unit) p =>
    if p.sees .eof then some p
    else do
      let (line, unit, p) ← lineOver block .scene unit p
      lines (scene, unit) (p.adopt scene line)

/-- The tree of a scene. There is none if a loop goes round, or a rule is entered inside itself, where the next token
has not moved on. -/
def parseScene (source : Text) (name uri : Option String) (levels : Levels) : Option Tree := do
  let (scene, p) := (Parser.ofText source levels).createAt (.scene name uri) 0
  let p ← lines (scene, none) p
  some (p.tree.reach scene (Text.bytes source))

end Gamebook.Checked
