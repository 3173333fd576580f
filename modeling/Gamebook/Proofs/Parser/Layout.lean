import Gamebook.Scene
import Gamebook.Tree.Walk
import Gamebook.Proofs.Phrase.Alike
import Gamebook.Proofs.Parser.Statement

/-!
The indentations of lines and the options of choices on tokens. The node of a line gets one for its
indentation, if there is any; the unit of indentation of the scene is what the parser remembers from line to
line. Once the block of a choice is over it is seen whether an option is in it.
-/

namespace Gamebook.Parser

/-- Marks an indentation that is not of the unit of the scene, unless nothing follows on its line. The first one
that is not mixed sets the unit. -/
def checkUnit (id : Nat) (own : IndentUnit) (unit : Option IndentUnit) (p : Parser) : Option IndentUnit × Parser :=
  if p.atEnd then (unit, p)
  else if own = .mixed then (unit, p.flagWhole id .mixedIndentation)
  else
    match unit with
    | none => (some own, p)
    | some established => (unit, if own = established then p else p.flagWhole id .mixedIndentation)

/-- The indentation of a line: its width, the unit that is known behind it, and its node below that of the line. -/
def margin (line number : Nat) (type : LineType) (unit : Option IndentUnit) (p : Parser) :
    Nat × Option IndentUnit × Parser :=
  match p.token.kind with
  | .indentation width own =>
    let (id, p) := p.leaf (.indentation width own)
    let p := p.adopt line id
    let (unit, p) := checkUnit id own unit p
    (width, unit, p.setKind line (.line number width type))
  | _ => (0, unit, p)

/-- Marks a choice unless there is an option in it. The walk goes no further once it has found one. -/
def requireOptions (id : Nat) (p : Parser) : Parser :=
  match p.tree.node? id with
  | none => p
  | some node =>
    match node.kind with
    | .choiceCommand _ =>
      let found := p.tree.walk (fun found id =>
        let found := found || (p.tree.kind? id).any Kind.isOption
        (found, !found)) id false
      if found then p
      else
        p.flag id .noChoiceOptions node.offset ((node.kind.commandName?.map (·.utf8ByteSize)).getD 0 + 1)
    | _ => p

end Gamebook.Parser
