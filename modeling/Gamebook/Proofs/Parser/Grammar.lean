import Gamebook.Statement
import Gamebook.Proofs.Parser.Course

/-!
The rules of the grammar on tokens. Each of them makes its node before it knows what will stand in it, and
puts the parts in as they come. A rule that takes tokens before it is sure to apply marks where it began and
goes back there when it does not. A rule that goes on by itself does so on the course `m`, with a budget
that counts on the counted course only.
-/

namespace Gamebook

/-- A rule that may apply: the node that it makes, if it does, and the parser behind it. -/
abbrev Parsing := Parser → Option Nat × Parser

namespace Parser

/-! ### Single tokens -/

def operator? (p : Parser) : Option Operator := Operator.ofLexeme? ⟨p.token.kind, p.token.text⟩

def operatorAt? (level : Precedence) (p : Parser) : Option Operator :=
  p.operator?.filter (·.precedence == level)

def seesName (p : Parser) : Bool := p.sees .ident && !Command.isReserved p.word

/-- Whether an index follows: an opening bracket right behind what was taken last. -/
def seesIndex (p : Parser) : Bool := p.sees .bracketL && p.followsDirectly

def opensBrace (p : Parser) : Bool := p.sees .curlyL && p.followsDirectly

/-- Takes an operator; the older spelling of `modulo` is marked. -/
def takeOperator (op : Operator) (p : Parser) : Nat × Parser :=
  let (id, p) := p.leaf (.operator op op.resultType)
  (id, if op = .deprecatedModulo then p.flagWhole id .deprecatedModulo else p)

def variableName : Parsing := fun p =>
  if p.seesName then
    let (name, p) := p.leaf .var
    (some name, p)
  else (none, p)

/-- A quoted string; a missing closing quote is marked. -/
def stringValue (p : Parser) : Nat × Parser :=
  let unclosed := p.sees .badString
  let (id, p) := p.leaf .stringValue
  (id, if unclosed then p.flagWhole id .missingClosingQuote else p)

/-- A term that holds a single literal. -/
def termOf (type : ValueType) (literal : Parser → Nat × Parser) (p : Parser) : Nat × Parser :=
  let (id, p) := p.create (.term type .literal)
  let (value, p) := literal p
  (id, (p.adopt id value).finish id)

/-- Makes the node of an operation around its left operand, and takes the operator. -/
def beginOperation (op : Operator) (left : Nat) (p : Parser) : Nat × Parser :=
  let (id, p) := p.createAt (op.kind .unknown) (((p.tree.node? left).map (·.offset)).getD 0)
  let (sign, p) := (p.adopt id left).takeOperator op
  (id, p.adopt id sign)

def endOperation (op : Operator) (left id : Nat) (right : Option Nat) (p : Parser) : Parser :=
  let p := p.adoptOr id right .termExpected
  let type := op.infer (p.operand? (some left)) (p.operand? right)
  (p.setKind id (op.kind type)).finish id

/-- How deep an expression can be nested, and how long a chain of operations can be. -/
def budget (p : Parser) : Nat := p.ahead.length + 1

/-- The nodes of the commands before an option on its line, and what they say about it. -/
structure Modifiers where
  nodes : List Nat := []
  reuse : Option Reuse := none
  conditional : Bool := false

/-- The width of an indentation that comes next, and the parser behind it. -/
def pass (p : Parser) : Nat × Parser :=
  match p.token.kind with
  | .indentation width _ => (width, p.next)
  | _ => (0, p)

end Parser

namespace Grammar

/-- What a rule that has applied has made. -/
def found (made : Nat × Parser) : Option Nat × Parser := (some made.1, made.2)

variable (m : Type → Type)

/-- A rule that may apply, on a course. -/
abbrev Parsing := Parser → m (Option Nat × Parser)

/-- A rule that puts what follows into a node that is already there, on a course. -/
abbrev Filling := Nat → Parser → m Parser

variable [Monad m] [Course m]

/-! ### Tokens -/

/-- Takes tokens up to the first one that passes the test or ends the line. -/
def skipWithin (test : TokenKind → Bool) (budget : Nat) : Parser → m Parser :=
  Course.loop (fun _ p => p)
    (fun _ skip _ p => if p.atEnd || test p.token.kind then pure p else skip () p.next) budget ()

/-- Takes tokens up to the first one that passes the test, or to the end of the line. -/
def skipTo (test : TokenKind → Bool) (p : Parser) : m Parser := skipWithin m test p.ahead.length p

def skipLine : Parser → m Parser := skipTo m fun _ => false

/-- Takes a closing sign. Where it is missing the rest of the line is skipped and the end of the line
marked. -/
def close (id : Nat) (kind : TokenKind) (rule : Rule) (p : Parser) : m (Bool × Parser) :=
  match p.accept kind with
  | (true, p) => pure (true, p)
  | (false, p) => do
    let p ← skipLine m p
    pure (false, p.complain id rule)

/-! ### Expressions -/

/-- Chains operations of one level onto a left operand. -/
def chain (level : Precedence) (operand : Parsing m) (budget left : Nat) : Parser → m (Nat × Parser) :=
  Course.loop Prod.mk (fun _ chain left p =>
    match p.operatorAt? level with
    | none => pure (left, p)
    | some op => do
      let (id, p) := p.beginOperation op left
      let (right, p) ← operand p
      chain id (p.endOperation op left id right)) budget left

theorem chain_succ_none {level : Precedence} {operand : Gamebook.Parsing} {budget left : Nat} {p : Parser}
    (hop : p.operatorAt? level = none) : chain Id level operand (budget + 1) left p = (left, p) := by
  rw [chain, Course.counted_succ, hop]
  rfl

theorem chain_succ {level : Precedence} {operand : Gamebook.Parsing} {budget left : Nat} {p : Parser} {op : Operator}
    (hop : p.operatorAt? level = some op) :
    chain Id level operand (budget + 1) left p =
      chain Id level operand budget (p.beginOperation op left).1
        ((operand (p.beginOperation op left).2).2.endOperation op left (p.beginOperation op left).1
          (operand (p.beginOperation op left).2).1) := by
  rw [chain, Course.counted_succ, hop]
  rfl

def operations (budget : Nat) (operand : Parsing m) (level : Precedence) : Parsing m := fun p => do
  match ← operand p with
  | (none, p) => pure (none, p)
  | (some left, p) =>
    let (whole, p) ← chain m level operand budget left p
    pure (some whole, p)

/-- An expression over the given terms. -/
def expressionOver (budget : Nat) (term : Parsing m) : Parsing m := Reader.levels.foldl (operations m budget) term

def group (expression : Parsing m) (p : Parser) : m (Nat × Parser) := do
  let (id, p) := p.create (.term .unknown .group)
  let (inner, p) ← expression p.next
  let p := p.adoptOr id inner .expressionExpected
  let (_, p) ← close m id .parenR .rightParenthesisExpected p
  let type := (inner.bind fun inner => (p.tree.kind? inner).bind (·.valueType?)).getD .unknown
  pure (id, (p.setKind id (.term type .group)).finish id)

/-- An expression between braces, whose value is the name of a variable. A missing brace is marked
and nothing is skipped. -/
def computedReference (expression : Parsing m) (p : Parser) : m (Nat × Parser) := do
  let (id, p) := p.create (.term .unknown .computedReference)
  let (inner, p) ← expression p.next
  let p := p.adoptOr id inner .expressionExpected
  pure <| match p.accept .curlyR with
    | (true, p) => (id, p.finish id)
    | (false, p) => (id, (p.complain id .rightCurlyExpected).finish id)

/-- The call of a function. Without a parenthesis behind the name it is none. -/
def call (expression : Parsing m) (function : Function) : Parsing m := fun p =>
  let (id, named) := p.create (.term .unknown (.call function))
  match named.next.accept .parenL with
  | (false, named) => pure (none, named.restore p.mark)
  | (true, opened) => do
    let (argument, q) ← expression opened
    let q := q.adoptOr id argument .expressionExpected
    let (_, q) ← close m id .parenR .rightParenthesisExpected q
    let type := if q.operand? argument = .malformed then .unknown else function.resultType
    pure (some id, (q.setKind id (.term type (.call function))).finish id)

/-- Indices behind a name. -/
def indices (expression : Parsing m) (budget : Nat) : Filling m :=
  Course.loop (fun _ p => p) (fun _ indices id p =>
    if p.seesIndex then do
      let (index, p) ← expression p.next
      match ← close m id .bracketR .rightBracketExpected (p.adoptOr id index .expressionExpected) with
      | (true, p) => indices id p
      | (false, p) => pure p
    else pure p) budget

/-- A variable with or without indices. -/
def variableTerm (budget : Nat) (expression : Parsing m) (p : Parser) : m (Nat × Parser) := do
  let (id, p) := p.create (.term .unknown .var)
  let (name, p) := p.leaf .var
  let p := p.adopt id name
  let p := if p.seesIndex then p.setKind id (.term .unknown .arrayIndex) else p
  let p ← indices m expression budget id p
  pure (id, p.finish id)

def nameTerm (budget : Nat) (expression : Parsing m) : Parsing m := fun p =>
  let word := p.word
  if word = "true" ∨ word = "false" then
    pure (found (p.termOf .boolean (·.leaf (.boolean (word = "true")))))
  else
    match Function.ofKeyword? word with
    | some function => call m expression function p
    | none => if Command.isReserved word then pure (none, p) else found <$> variableTerm m budget expression p

def termOver (budget : Nat) (expression : Parsing m) : Parsing m := fun p =>
  match p.token.kind with
  | .num => pure (found (p.termOf .number (·.leaf .numericValue)))
  | .string | .badString => pure (found (p.termOf .string Parser.stringValue))
  | .parenL => found <$> group m expression p
  | .curlyL => found <$> computedReference m expression p
  | .ident => nameTerm m budget expression p
  | _ => pure (none, p)

/-- An expression. Where it is counted, the budget is how deep it can be nested. -/
def expressionWithin (budget : Nat) : Parsing m :=
  Course.loop (fun _ p => (none, p))
    (fun budget expression _ => expressionOver m budget (termOver m budget (expression ()))) budget ()

theorem expressionWithin_succ (budget : Nat) : expressionWithin Id (budget + 1) =
    expressionOver Id budget (termOver Id budget (expressionWithin Id budget)) := by
  funext p
  unfold expressionWithin
  rw [Course.counted_succ]

def expression : Parsing m := fun p => expressionWithin m p.budget p

def term : Parsing m := fun p => termOver m p.budget (expressionWithin m p.budget) p

/-- What can be assigned: a variable, or one with indices, for which the name is read once more, or a
computed one. -/
def assignable : Parsing m := fun p =>
  if p.sees .curlyL then found <$> computedReference m (expression m) p
  else if p.seesName then
    match p.variableName with
    | (none, p) => pure (none, p)
    | (some name, named) =>
      if named.seesIndex then
        let back := named.restore p.mark
        nameTerm m back.budget (expression m) back
      else pure (some name, named)
  else pure (none, p)

/-! ### Prose -/

/-- How many exclamation marks follow without a gap, and the parser behind them. -/
def bangs (budget : Nat) : Parser → m (Nat × Parser) :=
  Course.loop (fun _ p => (0, p)) (fun _ bangs _ p =>
    if p.sees (.delim '!') && p.followsDirectly then do
      let (more, p) ← bangs () p.next
      pure (more + 1, p)
    else pure (0, p)) budget ()

/-- Takes the closing brace of a construct and returns to prose. When something else stands before
the brace it is marked and skipped. -/
def closeBrace (id : Nat) (p : Parser) : m Parser :=
  match p.accept .curlyR with
  | (true, p) => pure (p.switch .text)
  | (false, p) => do
    let p ← skipTo m (· == .curlyR) (p.complain id .rightCurlyExpected)
    pure ((p.accept .curlyR).2.switch .text)

def replacement : Parsing m := fun p => do
  let (id, marked) := p.create (.variableReplacement .none)
  let (count, marked) ← bangs m p.ahead.length marked.next
  match Reader.foldOfBangs? count with
  | none => pure (none, marked.restore p.mark)
  | some fold =>
    if marked.opensBrace then
      let (value, q) ← expression m ((marked.setKind id (.variableReplacement fold)).next.switch .command)
      let q ← closeBrace m id (q.adoptOr id value .expressionExpected)
      pure (some id, q.finish id)
    else pure (none, marked.restore p.mark)

/-- The branches of a multireplace, separated by bars, and their number. -/
def branches (content : Filling m) (budget id : Nat) : Parser → m (Nat × Parser) :=
  Course.loop (fun _ p => (0, p)) (fun _ branches id p => do
    let (branch, p) := p.create .multiReplaceOption
    let p ← content branch p
    match ((p.finish branch).adopt id branch).accept .pipe with
    | (true, p) =>
      let (more, p) ← branches id p
      pure (more + 1, p)
    | (false, p) => pure (1, p)) budget id

/-- A multireplace whose branches are read as given. A single branch is marked. -/
def multireplace (budget : Nat) (content : Filling m) : Parsing m := fun p =>
  let (id, signed) := p.create .multiReplace
  let signed := signed.next
  if signed.opensBrace then do
    let (selector, q) ← term m (signed.next.switch .command)
    let (count, q) ← branches m content budget id ((q.adoptOr id selector .expressionExpected).switch .text)
    let q ← closeBrace m id (if count < 2 then q.flagWhole id .notEnoughMultireplaceOptions else q)
    pure (some id, q.finish id)
  else pure (none, signed.restore p.mark)

/-- A word or construct of prose, whose branches are read as given; nothing for any other token. -/
def prosePart (budget : Nat) (content : Filling m) : Parsing m := fun p =>
  match p.token.kind with
  | .word => pure (found (p.leaf .realWord))
  | .dollar => replacement m p
  | .atSign => multireplace m budget content p
  | _ => pure (none, p)

/-- Puts the words and constructs of prose into a node, up to a token that passes the test or ends the
line. Prose goes on behind each of them, and prose is in the branches of a multireplace. -/
def proseWithin (budget : Nat) (ends : TokenKind → Bool) : Filling m := fun id =>
  Course.loop (fun _ p => p) (fun budget prose (ends, id) p =>
    if p.atEnd || ends p.token.kind then pure p
    else do
      match ← prosePart m budget (fun branch => prose (Reader.endsBranch, branch)) p with
      | (some part, p) => prose (ends, id) (p.adopt id part)
      | (none, p) => prose (ends, id) p.next) budget (ends, id)

theorem proseWithin_succ (budget : Nat) (ends : TokenKind → Bool) (id : Nat) (p : Parser) :
    proseWithin Id (budget + 1) ends id p =
      if p.atEnd || ends p.token.kind then p
      else
        match prosePart Id budget (proseWithin Id budget Reader.endsBranch) p with
        | (some part, p) => proseWithin Id budget ends id (p.adopt id part)
        | (none, p) => proseWithin Id budget ends id p.next := rfl

def prose : Filling m := fun id p => do
  let p ← proseWithin m p.budget (fun _ => false) id p
  pure (p.finish id)

/-! ### Options -/

def optionText : Filling m := fun id p => prose m id ((p.accept .hash).2.switch .text)

/-- What a modifier says about the option. One that does not say how often the option can be used needs a
condition. -/
def modifierMeaning (word : String) (id : Nat) (found : Parser.Modifiers) (p : Parser) :
    m (Option Parser.Modifiers × Parser) :=
  match Reader.reuseOf? word with
  | some reuse => pure (some { found with nodes := found.nodes ++ [id], reuse := some reuse }, p)
  | none => do
    match ← expression m p with
    | (none, p) => pure (none, p)
    | (some condition, p) =>
      pure (some { found with nodes := found.nodes ++ [id], conditional := true }, p.adopt id condition)

/-- A modifier, whose asterisk comes next; nothing for a command that is none. -/
def modifier (found : Parser.Modifiers) (p : Parser) : m (Option Parser.Modifiers × Parser) :=
  let name := p.next
  if name.sees .ident && Command.isOptionModifier name.word then
    let (id, named) := name.createAt (.standardCommand name.word) p.token.offset
    modifierMeaning m name.word id found (named.next.finish id)
  else pure (none, name)

/-- The modifiers that follow. There are none when a command that is no modifier stands among them, or a
condition is missing. -/
def modifiersWithin (budget : Nat) : Parser.Modifiers → Parser → m (Option Parser.Modifiers × Parser) :=
  Course.loop (fun found p => (some found, p)) (fun _ modifiers found p =>
    if p.sees .asterisk then do
      match ← modifier m found p with
      | (none, p) => pure (none, p)
      | (some found, p) => modifiers found p
    else pure (some found, p)) budget

theorem modifiersWithin_succ (budget : Nat) (found : Parser.Modifiers) (p : Parser) :
    modifiersWithin Id (budget + 1) found p =
      if p.sees .asterisk then
        match modifier Id found p with
        | (none, p) => (none, p)
        | (some found, p) => modifiersWithin Id budget found p
      else (some found, p) := rfl

/-- An option behind modifiers; nothing when no number sign follows them. -/
def modifiedOption (context : Context) : Parsing m := fun p => do
  match ← modifiersWithin m p.budget {} p with
  | (none, q) => pure (none, q.restore p.mark)
  | (some found, q) =>
    if q.sees .hash then
      let (id, option) := q.createAt (.choiceOption found.reuse found.conditional) p.token.offset
      let option ← optionText m id (found.nodes.foldl (fun q node => q.adopt id node) option)
      pure (some id, if context = .choice then option else option.flag id .optionOutsideChoice q.token.offset 1)
    else pure (none, q.restore p.mark)

/-! ### Indentation -/

/-- The indentation of the next line with content, and the parser before that content. -/
def indentWithin (budget : Nat) : Parser → m (Option Nat × Parser) :=
  Course.loop (fun _ p => (none, p)) (fun _ indent _ p =>
    let (width, p) := p.pass
    match p.token.kind with
    | .eol => indent () p.next
    | .eof => pure (none, p)
    | _ => pure (some width, p)) budget ()

theorem indentWithin_succ (budget : Nat) (p : Parser) :
    indentWithin Id (budget + 1) p =
      match p.pass.2.token.kind with
      | .eol => indentWithin Id budget p.pass.2.next
      | .eof => (none, p.pass.2)
      | _ => (some p.pass.1, p.pass.2) := rfl

/-- The indentation of the next line with content. The parser looks for it and goes back. -/
def nextIndent (p : Parser) : m (Option Nat × Parser) := do
  let (width, q) ← indentWithin m (p.scanner.lines.size + 1) p
  pure (width, q.restore p.mark)

end Grammar

end Gamebook
