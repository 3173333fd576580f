import Gamebook.Token
import Gamebook.Value

/-!
What the nodes of a scene's tree are: its structure of lines, the literals, expressions and
declarations on them, the commands, and the prose. Expressions carry the type inferred for them.
-/

namespace Gamebook

/-- The form of a single operand. -/
inductive TermForm where
  | literal
  | var
  /-- A name with indices, `name[expression]`. -/
  | arrayIndex
  /-- A variable whose name is computed, an expression between braces. -/
  | computedReference
  /-- An expression between parentheses. -/
  | group
  | call (function : Function)
  deriving DecidableEq, Repr, Inhabited

namespace TermForm

def render : TermForm → String
  | literal => "Literal"
  | var => "Variable"
  | arrayIndex => "ArrayIndex"
  | computedReference => "ComputedReference"
  | group => "Group"
  | call function => "Call(" ++ function.name ++ ")"

end TermForm

/-- How long a declared variable lives. -/
inductive Declaration where
  /-- A variable of the scene, bound where it is declared. -/
  | temp
  /-- A variable of the whole game. -/
  | create
  deriving DecidableEq, Repr, Inhabited

namespace Declaration

/-- The command that declares such a variable. -/
def keyword : Declaration → String
  | temp => "temp"
  | create => "create"

end Declaration

/-- How a replacement writes its value. -/
inductive CaseFold where
  | none
  | capitalize
  | upper
  deriving DecidableEq, Repr, Inhabited

namespace CaseFold

def name : CaseFold → String
  | none => "None"
  | capitalize => "Capitalize"
  | upper => "Upper"

end CaseFold

/-- What happens to an option once it was chosen. -/
inductive Reuse where
  | hide
  | disable
  | allow
  deriving DecidableEq, Repr, Inhabited

namespace Reuse

def name : Reuse → String
  | hide => "Hide"
  | disable => "Disable"
  | allow => "Allow"

end Reuse

/-- The kind of a node. -/
inductive Kind where
  | scene (name uri : Option String)
  | line (number indent : Nat) (type : LineType)
  | indentation (depth : Nat) (unit : IndentUnit)
  | sceneRef
  | labelRef
  | numericValue
  /-- A quoted string. -/
  | stringValue
  /-- An argument without quotes. -/
  | stringLiteral
  | boolean (value : Bool)
  | hexColorValue
  | expression (type : ValueType)
  | binaryExpression (type : ValueType)
  | stringExpression (type : ValueType)
  | term (type : ValueType) (form : TermForm)
  | operator (op : Operator) (type : ValueType)
  | variableDeclaration (declaration : Declaration)
  | labelDeclaration
  /-- The name of a variable. -/
  | var
  /-- The name of a label. -/
  | label
  /-- A command that is not known. -/
  | command (name : String)
  | standardCommand (name : String)
  | flowCommand (name : String)
  | setCommand (byReference : Bool)
  | randCommand
  | choiceCommand (fake : Bool)
  | choiceOption (reuse : Option Reuse) (conditional : Bool)
  | textLine
  | realWord
  | comment
  | variableReplacement (fold : CaseFold)
  | multiReplace
  | multiReplaceOption
  deriving DecidableEq, Repr, Inhabited

/-- What a name refers to. -/
inductive ReferenceType where
  | var
  | label
  | unknown
  deriving DecidableEq, Repr, Inhabited

namespace ReferenceType

def name : ReferenceType → String
  | var => "Variable"
  | label => "Label"
  | unknown => "Unknown"

end ReferenceType

namespace Kind

/-- The name of the kind, without its data. -/
def name : Kind → String
  | scene _ _ => "Scene"
  | line _ _ _ => "Line"
  | indentation _ _ => "Indentation"
  | sceneRef => "SceneRef"
  | labelRef => "LabelRef"
  | numericValue => "NumericValue"
  | stringValue => "StringValue"
  | stringLiteral => "StringLiteral"
  | boolean _ => "Boolean"
  | hexColorValue => "HexColorValue"
  | expression _ => "Expression"
  | binaryExpression _ => "BinaryExpression"
  | stringExpression _ => "StringExpression"
  | term _ _ => "Term"
  | operator _ _ => "Operator"
  | variableDeclaration _ => "VariableDeclaration"
  | labelDeclaration => "LabelDeclaration"
  | var => "Variable"
  | label => "Label"
  | command _ => "Command"
  | standardCommand _ => "StandardCommand"
  | flowCommand _ => "FlowCommand"
  | setCommand _ => "SetCommand"
  | randCommand => "RandCommand"
  | choiceCommand _ => "ChoiceCommand"
  | choiceOption _ _ => "ChoiceOption"
  | textLine => "TextLine"
  | realWord => "RealWord"
  | comment => "Comment"
  | variableReplacement _ => "VariableReplacement"
  | multiReplace => "MultiReplace"
  | multiReplaceOption => "MultiReplaceOption"

/-- The type of what stands in an expression; nothing for all other nodes. -/
def valueType? : Kind → Option ValueType
  | expression type | binaryExpression type | stringExpression type | term type _
  | operator _ type => some type
  | numericValue => some .number
  | stringValue => some .string
  | boolean _ => some .boolean
  | _ => none

/-- Whether the node is a whole operand. -/
def isExpression : Kind → Bool
  | expression _ | binaryExpression _ | stringExpression _ | term _ _ => true
  | _ => false

/-- The name of the command that a node was written as. -/
def commandName? : Kind → Option String
  | command name | standardCommand name | flowCommand name => some name
  | setCommand byReference => some (if byReference then "setref" else "set")
  | randCommand => some "rand"
  | choiceCommand fake => some (if fake then "fake_choice" else "choice")
  | variableDeclaration declaration => some declaration.keyword
  | labelDeclaration => some "label"
  | _ => none

/-- What a node of this kind refers to by its text. -/
def referenceType : Kind → ReferenceType
  | var => .var
  | label => .label
  | _ => .unknown

/-- How a truth value is written. -/
def renderBool (b : Bool) : String := if b then "true" else "false"

/-- The data of the kind in short. -/
def detail? : Kind → Option String
  | scene name _ => name
  | line number indent type => some s!"#{number} {type.name} indent={indent}"
  | indentation depth unit => some s!"{depth} {unit.name}"
  | boolean value => some (renderBool value)
  | operator op _ => some op.symbol
  | term type form => some (form.render ++ " " ++ type.name)
  | choiceOption none false => none
  | choiceOption reuse conditional =>
    let shown := match reuse with
      | none => "None"
      | some reuse => "Some(" ++ reuse.name ++ ")"
    some ("reuse=" ++ shown ++ " conditional=" ++ renderBool conditional)
  | variableReplacement fold => some fold.name
  | kind => if kind.isExpression then kind.valueType?.map (·.name) else kind.commandName?

/-- The kind as it is shown, its data in parentheses. -/
def render (kind : Kind) : String :=
  match kind.detail? with
  | some detail => kind.name ++ "(" ++ detail ++ ")"
  | none => kind.name

end Kind

end Gamebook
