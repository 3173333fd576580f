import Gamebook.Command
import Gamebook.Reader

/-!
Expressions. Operators of one level of precedence are chained from the left, over operands of the
next tighter level; the tightest level is chained over terms: literals, variables with or without
indices, calls, and expressions between parentheses or braces. A single operand stands for itself.

Types are inferred from the operands up. An operation has the type of its operator unless an
operand is missing, is an expression without a type, or has a type that the operator does not take;
then it has none. A variable has no type of its own, and this is no fault.
-/

namespace Gamebook

/-- What an operand contributes to the type of an operation. -/
inductive Operand where
  /-- A variable, whose type is not known from the scene. -/
  | untyped
  | typed (type : ValueType)
  /-- An expression to which no type could be given. -/
  | malformed
  deriving DecidableEq, Repr, Inhabited

namespace Operand

/-- What a node of the given kind contributes by itself. -/
def ofKind (kind : Kind) : Operand :=
  match kind.valueType? with
  | none | some .unknown => .malformed
  | some type => .typed type

/-- Whether an operator takes the operand. -/
def accepted (op : Operator) : Operand → Bool
  | untyped => true
  | typed type => op.accepts type
  | malformed => false

/-- Whether both operands have types, and different ones. -/
def clash : Operand → Operand → Bool
  | typed left, typed right => left != right
  | _, _ => false

end Operand

namespace Operator

/-- The type of an operation on two operands. -/
def infer (op : Operator) (left right : Operand) : ValueType :=
  if left.accepted op && right.accepted op && !(op.family == .comparison && left.clash right) then
    op.resultType
  else .unknown

/-- The kind of an operation of the given type. -/
def kind (op : Operator) (type : ValueType) : Kind :=
  match op.family with
  | .boolean | .comparison => .expression type
  | .concatenation => .stringExpression type
  | .arithmetic | .fairMath => .binaryExpression type

/-- The operator that a lexeme stands for. -/
def ofLexeme? (lexeme : Lexeme) : Option Operator :=
  match lexeme.kind with
  | .ident =>
    if lexeme.text = "and".toList then some .and
    else if lexeme.text = "or".toList then some .or
    else if lexeme.text = "modulo".toList then some .modulo
    else none
  | .delim '=' => some .equal
  | .notEq => some .notEqual
  | .delim '<' => some .less
  | .delim '>' => some .greater
  | .lessEq => some .lessEqual
  | .greaterEq => some .greaterEqual
  | .delim '&' => some .concat
  | .delim '+' => some .add
  | .delim '-' => some .subtract
  | .asterisk => some .multiply
  | .delim '/' => some .divide
  | .delim '%' => some .deprecatedModulo
  | .fairMathAdd => some .fairAdd
  | .fairMathSub => some .fairSubtract
  | _ => none

end Operator

namespace Phrase

/-- What a phrase contributes as an operand: a group what the expression in it contributes. -/
def operand : Phrase → Operand
  | ⟨.var, _, _, _, _, _⟩ => .untyped
  | ⟨.term _ .var, _, _, _, _, _⟩ => .untyped
  | ⟨.term _ .arrayIndex, _, _, _, _, _⟩ => .untyped
  | ⟨.term _ .computedReference, _, _, _, _, _⟩ => .untyped
  | ⟨.term _ .group, _, _, _, _, inner :: _⟩ => inner.operand
  | ⟨.term _ .group, _, _, _, _, []⟩ => .malformed
  | ⟨kind, _, _, _, _, _⟩ => .ofKind kind

/-- What a phrase that may be missing contributes. -/
def operand? : Option Phrase → Operand
  | some phrase => phrase.operand
  | none => .malformed

end Phrase

namespace Reader

/-- The operator before which the reader stands. -/
def operator? (r : Reader) : Option Operator := r.lexeme?.bind Operator.ofLexeme?

/-- The next operator, if it belongs to the given level. -/
def operatorAt? (level : Precedence) (r : Reader) : Option Operator :=
  r.operator?.filter (·.precedence == level)

/-- Whether a name that can name a variable follows. -/
def seesName (r : Reader) : Bool := r.sees .ident && !Command.isReserved r.word

/-- Takes an operator; the older spelling of `modulo` is marked. -/
def takeOperator (op : Operator) (r : Reader) : Phrase × Reader :=
  let (sign, next) := r.leaf (.operator op op.resultType)
  (if op = .deprecatedModulo then sign.flagWhole .deprecatedModulo else sign, next)

/-- The name of a variable. -/
def variableName : Reading := fun r =>
  if r.seesName then
    let (name, next) := r.leaf .var
    (some name, next)
  else (none, r)

/-- A quoted string; a missing closing quote is marked. -/
def stringValue (r : Reader) : Phrase × Reader :=
  let (value, next) := r.leaf .stringValue
  (if r.sees .badString then value.flagWhole .missingClosingQuote else value, next)

/-- A term that holds a single literal. -/
def termOf (type : ValueType) (r : Reader) (literal : Phrase × Reader) : Phrase × Reader :=
  let (value, next) := literal
  (((Phrase.begin (.term type .literal) r).add value).finish next, next)

/-- Chains operations of one level onto a left operand, at most `budget` of them. -/
def chain (level : Precedence) (operand : Reading) : Nat → Phrase → Reader → Phrase × Reader
  | 0, left, r => (left, r)
  | budget + 1, left, r =>
    match r.operatorAt? level with
    | none => (left, r)
    | some op =>
      let (sign, r) := r.takeOperator op
      let (right, r) := operand r
      let type := op.infer left.operand (Phrase.operand? right)
      let operation := (Phrase.around (op.kind type) left.start [left]).add sign
      chain level operand budget ((operation.addOr right .termExpected r).finish r) r

/-- Operations of one level over the given operands. -/
def operations (budget : Nat) (operand : Reading) (level : Precedence) : Reading := fun r =>
  match operand r with
  | (none, r) => (none, r)
  | (some left, r) =>
    let (whole, r) := chain level operand budget left r
    (some whole, r)

/-- The levels of precedence, the tightest first. -/
def levels : List Precedence :=
  [.fairMath, .multiplicative, .additive, .concatenation, .comparison, .boolean]

/-- An expression over the given terms. -/
def expressionOver (budget : Nat) (term : Reading) : Reading :=
  levels.foldl (operations budget) term

/-- An expression between parentheses. -/
def group (expression : Reading) (r : Reader) : Phrase × Reader :=
  let opened := r.next
  let (inner, behind) := expression opened
  let type := (inner.bind (·.kind.valueType?)).getD .unknown
  let term := (Phrase.begin (.term type .group) r).addOr inner .expressionExpected behind
  let (_, term, r) := term.close .parenR .rightParenthesisExpected behind
  (term.finish r, r)

/-- An expression between braces, whose value is the name of a variable. A missing brace is marked
and nothing is skipped. -/
def computedReference (expression : Reading) (r : Reader) : Phrase × Reader :=
  let opened := r.next
  let (inner, behind) := expression opened
  let term :=
    (Phrase.begin (.term .unknown .computedReference) r).addOr inner .expressionExpected behind
  match behind.accept .curlyR with
  | (true, r) => (term.finish r, r)
  | (false, r) => ((term.complain .rightCurlyExpected r).finish r, r)

/-- The call of a function. A function name without parenthesis is no call. -/
def call (expression : Reading) (function : Function) : Reading := fun r =>
  let named := r.next
  if named.sees .parenL then
    let (argument, behind) := expression named.next
    let type :=
      if Phrase.operand? argument = .malformed then .unknown else function.resultType
    let term :=
      (Phrase.begin (.term type (.call function)) r).addOr argument .expressionExpected behind
    let (_, term, r) := term.close .parenR .rightParenthesisExpected behind
    (some (term.finish r), r)
  else (none, r)

/-- Whether an index follows: an opening bracket right behind what was taken last. -/
def seesIndex (r : Reader) : Bool := r.sees .bracketL && r.followsDirectly

/-- Indices behind a name, at most `budget` of them. -/
def indices (expression : Reading) : Nat → Phrase → Reader → Phrase × Reader
  | 0, term, r => (term, r)
  | budget + 1, term, r =>
    if r.seesIndex then
      let (index, behind) := expression r.next
      let term := term.addOr index .expressionExpected behind
      match term.close .bracketR .rightBracketExpected behind with
      | (true, term, r) => indices expression budget term r
      | (false, term, r) => (term, r)
    else (term, r)

/-- A variable with or without indices. -/
def variableTerm (budget : Nat) (expression : Reading) (r : Reader) : Phrase × Reader :=
  let (name, named) := r.leaf .var
  let form : TermForm := if named.seesIndex then .arrayIndex else .var
  let term := (Phrase.begin (.term .unknown form) r).add name
  let (term, r) := indices expression budget term named
  (term.finish r, r)

/-- A term that begins with a name. -/
def nameTerm (budget : Nat) (expression : Reading) : Reading := fun r =>
  let word := r.word
  if word = "true" ∨ word = "false" then
    let (term, r) := termOf .boolean r (r.leaf (.boolean (word = "true")))
    (some term, r)
  else
    match Function.ofKeyword? word with
    | some function => call expression function r
    | none =>
      if Command.isReserved word then (none, r)
      else
        let (term, r) := variableTerm budget expression r
        (some term, r)

/-- A term over the given expressions. -/
def termOver (budget : Nat) (expression : Reading) : Reading := fun r =>
  let found (term : Phrase × Reader) : Option Phrase × Reader := (some term.1, term.2)
  match r.kind? with
  | some .num => found (termOf .number r (r.leaf .numericValue))
  | some .string | some .badString => found (termOf .string r r.stringValue)
  | some .parenL => found (group expression r)
  | some .curlyL => found (computedReference expression r)
  | some .ident => nameTerm budget expression r
  | _ => (none, r)

/-- An expression that is nested at most `budget` deep. -/
def expressionWithin : Nat → Reading
  | 0 => fun r => (none, r)
  | budget + 1 => expressionOver budget (termOver budget (expressionWithin budget))

/-- How deep an expression can be nested, and how long a chain of operations can be: every level
and every operation takes a character at least. -/
def budget (r : Reader) : Nat := r.rest.length + 1

/-- An expression. -/
def expression : Reading := fun r => expressionWithin r.budget r

/-- A single term. -/
def term : Reading := fun r => termOver r.budget (expressionWithin r.budget) r

/-- What can be assigned: a variable with or without indices, or a computed one. -/
def assignable : Reading := fun r =>
  if r.sees .curlyL then
    let (target, r) := computedReference expression r
    (some target, r)
  else if r.seesName then
    let (name, named) := r.leaf .var
    if named.seesIndex then
      let (target, r) := variableTerm r.budget expression r
      (some target, r)
    else (some name, named)
  else (none, r)

/-- An operator and its right operand, where the left one is the variable that is assigned. -/
def assignedOperation (target : Phrase) (op : Operator) (r : Reader) : Phrase × Reader :=
  let (sign, signed) := r.takeOperator op
  let (right, behind) := expression signed
  let type := op.infer target.operand (Phrase.operand? right)
  let operation := (Phrase.begin (op.kind type) r).add sign
  ((operation.addOr right .termExpected behind).finish behind, behind)

end Reader

end Gamebook
