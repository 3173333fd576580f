import Gamebook.Proofs.Parser.Grammar

/-!
Statements on tokens. A command makes its node at its asterisk and puts into it what its form asks for; what
it has no use for is marked there and skipped to the end of the line. Nothing that a line holds makes a parser
go back, apart from the modifiers of options.
-/

namespace Gamebook

namespace Parser

/-- A rule that puts what follows into a node that is already there. -/
abbrev Filling := Nat → Parser → Parser

/-- What a line holds: its node, and where the lines below it stand if it expects any. -/
structure Stated where
  node : Nat
  opens : Option Context := none

/-- An argument: a quoted string, or the run up to the next blank. -/
def argument : Parsing := fun p =>
  if p.sees .string || p.sees .badString then
    let (value, p) := stringValue p
    (some value, p)
  else
    match p.recut with
    | (true, p) =>
      let (run, p) := p.leaf (Reader.argumentKind p.token.text)
      (some run, p)
    | (false, p) => (none, p)

/-- A reference around a scene that was taken, with the label that comes next. -/
def refer (scene : Nat) (p : Parser) : Nat × Parser :=
  let (id, p) := p.createAt .labelRef (((p.tree.node? scene).map (·.offset)).getD 0)
  let (label, p) := (p.adopt id scene).leaf .label
  (id, p.adopt id label)

def named (kind : Kind) (start : Nat) (p : Parser) : Nat × Parser :=
  let (id, p) := p.createAt kind start
  (id, p.next.finish id)

/-- Marks what stands on a line below a choice and is no option. -/
def checkChoice (context : Context) (id : Nat) (p : Parser) : Parser :=
  match p.tree.node? id with
  | none => p
  | some node =>
    if context = .choice && !Reader.belongsInChoice node.kind then
      p.flag id .choiceOptionExpected node.offset (p.lastEnd node.offset - node.offset)
    else p

end Parser

namespace Grammar

open Gamebook.Parser (Stated)

variable (m : Type → Type) [Monad m] [Course m]

/-! ### The end of a line -/

/-- Finishes a node at the end of the line. What is left of the line is marked and skipped. -/
def finishLine : Filling m := fun id p =>
  if p.atEnd then pure (p.finish id)
  else do
    let start := p.token.offset
    let q ← skipLine m p
    pure ((q.flag id .unexpectedToken start (q.lastEnd start - start)).finish id)

/-- Marks the next token and skips the rest of the line. -/
def markRest (rule : Rule) : Filling m := fun id p => do
  let p ← skipLine m (p.complain id rule)
  pure (p.finish id)

/-- Puts a part into the node and goes on, or does something else when there is none. -/
def attempt (part : Parsing m) (found missing : Filling m) : Filling m := fun id p => do
  match ← part p with
  | (some child, p) => found id (p.adopt id child)
  | (none, p) => missing id p

/-- Puts a part into the node that has to be there. -/
def require (rule : Rule) (part : Parsing m) (found : Filling m) : Filling m := attempt m part found (markRest m rule)

/-- Has the next token cut as the run up to the next blank, which has to be there. -/
def requireRun (rule : Rule) (found : Filling m) : Filling m := fun id p =>
  match p.recut with
  | (true, p) => found id p
  | (false, p) => markRest m rule id p

/-! ### Arguments -/

/-- Puts the arguments up to the end of the line into the node. -/
def argumentsWithin (budget : Nat) : Filling m :=
  Course.loop (fun _ p => p) (fun _ arguments id p =>
    if p.atEnd then pure p else attempt m (pure ·.argument) arguments (fun _ p => pure p) id p) budget

def arguments : Filling m := fun id p => argumentsWithin m p.budget id p

/-- Puts expressions into the node up to the end of the line. -/
def expressionsWithin (budget : Nat) : Filling m :=
  Course.loop (fun _ p => p) (fun _ expressions id p =>
    if p.atEnd then pure p else attempt m (expression m) expressions (finishLine m) id p) budget

/-- Finishes the line after expressions up to its end, where the form takes any. -/
def finishArguments (takes : Bool) : Filling m := fun id p => do
  let p ← if takes then expressionsWithin m p.budget id p else pure p
  finishLine m id p

/-! ### Forms of commands -/

def requireExpressions : Nat → Filling m
  | 0 => finishLine m
  | count + 1 => require m .expressionExpected (expression m) (requireExpressions count)

def requireVariable : Filling m → Filling m := require m .variableNameExpected (pure ·.variableName)

def requireName (expressions : Nat) : Filling m := requireVariable m (requireExpressions m expressions)

def declaration (declaration : Declaration) : Filling m :=
  requireVariable m <| attempt m (expression m) (finishLine m) fun id p =>
    if declaration = .temp && p.atEnd then finishLine m id p else markRest m .expressionExpected id p

/-- An operator and its right operand, where the left one is the variable that is assigned. -/
def assignedOperation (target : Nat) (op : Operator) (p : Parser) : m (Nat × Parser) := do
  let (id, p) := p.create (op.kind .unknown)
  let (sign, p) := p.takeOperator op
  let (right, p) ← expression m (p.adopt id sign)
  pure (id, p.endOperation op target id right)

/-- The value of an assignment: an operator with its right operand, or an expression. -/
def assignedValue (byReference : Bool) (target : Nat) : Parsing m := fun p =>
  match p.operator?.filter fun op => op.opensAssignment && !byReference with
  | some op => found <$> assignedOperation m target op p
  | none => expression m p

def target (byReference : Bool) : Parsing m := if byReference then expression m else assignable m

def assignment (byReference : Bool) : Filling m := fun id p => do
  match ← target m byReference p with
  | (none, p) => markRest m (if byReference then .expressionExpected else .variableNameExpected) id p
  | (some target, p) =>
    let p := p.adopt id target
    if p.atEnd then pure ((p.complain id .expressionExpected).finish id)
    else require m .expressionExpected (assignedValue m byReference target) (finishLine m) id p

def labelDeclaration : Filling m := requireRun m .labelNameExpected fun id p =>
  let (label, p) := p.leaf .label
  finishLine m id (p.adopt id label)

def jump (takesArguments : Bool) : Filling m := requireRun m .labelNameExpected fun id p =>
  let (reference, p) := p.create .labelRef
  let (label, p) := p.leaf .label
  finishArguments m takesArguments id ((p.adopt reference label).adopt id reference)

/-- The scene that is jumped to, with the label in it where one follows. -/
def sceneJump (takesArguments : Bool) : Filling m := requireRun m .sceneNameExpected fun id p =>
  let (scene, p) := p.leaf .sceneRef
  match p.recut with
  | (false, p) => finishArguments m takesArguments id (p.adopt id scene)
  | (true, p) =>
    let (reference, p) := p.refer scene
    finishArguments m takesArguments id (p.adopt id reference)

def namesWithin (budget : Nat) : Filling m :=
  Course.loop (fun id p => p.finish id) (fun _ names id p =>
    if p.atEnd then pure (p.finish id) else requireVariable m names id p) budget

/-- A command of no particular form: prose or arguments behind a known name. An unknown name is marked, and
what follows it is skipped. -/
def plainCommand (start : Nat) (name : String) (p : Parser) : m (Nat × Parser) :=
  let known (kind : Kind) : m (Nat × Parser) :=
    let (id, p) := p.named kind start
    if Command.takesProse name then do
      let p ← prose m id (p.switch .text)
      pure (id, p)
    else do
      let p ← arguments m id p
      pure (id, p.finish id)
  match Command.classify name with
  | .ordinary => known (.standardCommand name)
  | .flow => known (.flowCommand name)
  | .unknown => do
    let (id, p) := p.createAt (.command name) start
    let p ← markRest m .unknownCommand id p
    pure (id, p)

/-- A command whose node is filled as its form asks for. -/
def filled (start : Nat) (opens : Option Context) (kind : Kind) (fill : Filling m) (p : Parser) : m (Stated × Parser) := do
  let (id, p) := p.named kind start
  let p ← fill id p
  pure (⟨id, opens⟩, p)

/-- A command whose asterisk stands at `start`; its name comes next. -/
def commandNamed (start : Nat) (context : Context) (p : Parser) : m (Stated × Parser) :=
  let name := p.word
  let filled := fun opens kind fill => filled m start opens kind fill p
  match CommandForm.ofName name with
  | .declaration kind => filled none (.variableDeclaration kind) (declaration m kind)
  | .assignment byReference => filled none (.setCommand byReference) (assignment m byReference)
  | .random => filled none .randCommand (requireName m 2)
  | .label => filled none .labelDeclaration (labelDeclaration m)
  | .jump takes => filled none (.flowCommand name) (jump m takes)
  | .sceneJump takes => filled none (.flowCommand name) (sceneJump m takes)
  | .computedJump => filled none (.flowCommand name) (requireExpressions m 1)
  | .value => filled none (.standardCommand name) (requireExpressions m 1)
  | .input bounded => filled none (.standardCommand name) (requireName m (if bounded then 2 else 0))
  | .parameters => filled none (.standardCommand name) fun id p => namesWithin m p.budget id p
  | .condition => filled (some context.below) (.standardCommand name) (requireExpressions m 1)
  | .otherwise => filled (some context.below) (.standardCommand name) (finishLine m)
  | .choice fake => filled (some .choice) (.choiceCommand fake) (arguments m)
  | .sceneList => filled (some .sceneList) (.standardCommand name) (finishLine m)
  | .proseBlock => filled (some .prose) (.standardCommand name) (arguments m)
  | .plain => do
    let (id, p) ← plainCommand m start name p
    pure (⟨id, none⟩, p)

/-! ### Lines with content -/

/-- An option that begins with its number sign. -/
def plainOption (p : Parser) : m (Stated × Parser) := do
  let (id, p) := p.create (.choiceOption none false)
  let p ← optionText m id p
  pure (⟨id, some .body⟩, p)

/-- A line that begins with a command. -/
def command (context : Context) (p : Parser) : m (Stated × Parser) := do
  match ← modifiedOption m context p with
  | (some option, p) => pure (⟨option, some .body⟩, p)
  | (none, p) => commandNamed m p.token.offset context p.next

def textLine (p : Parser) : m (Stated × Parser) := do
  let (id, p) := p.create .textLine
  let p ← prose m id p
  pure (⟨id, none⟩, p)

/-- An entry in a list of scenes. A dollar sign before the name stands for a scene that is sold. -/
def sceneListEntry (p : Parser) : m (Stated × Parser) :=
  match (p.accept .dollar).2.recut with
  | (true, q) => do
    let (id, q) := q.leaf .sceneRef
    let q ← finishLine m id q
    pure (⟨id, none⟩, q)
  | (false, q) => do
    let (id, q) := q.createAt .sceneRef p.token.offset
    let q ← markRest m .sceneNameExpected id q
    pure (⟨id, none⟩, q)

/-- What a line of some type holds where it stands, apart from comments. -/
def contentLine (context : Context) (type : LineType) (p : Parser) : m (Stated × Parser) :=
  match context, type with
  | .sceneList, _ => sceneListEntry m p
  | .prose, _ => textLine m p
  | .choice, .option => plainOption m p
  | _, .option => do
    let (option, p) ← plainOption m p
    pure (option, p.flag option.node .optionOutsideChoice (((p.tree.node? option.node).map (·.offset)).getD 0) 1)
  | _, .command => if p.sees .asterisk then command m context p else textLine m p
  | _, _ => textLine m p

/-- What a line holds where it stands; nothing on a blank line. -/
def statement (context : Context) (type : LineType) (p : Parser) : m (Option Stated × Parser) :=
  if p.atEnd then pure (none, p)
  else if p.sees .singleLineComment then
    let (comment, p) := p.leaf .comment
    pure (some ⟨comment, none⟩, p)
  else do
    let (found, p) ← contentLine m context type p
    pure (some found, p.checkChoice context found.node)

end Grammar

end Gamebook
