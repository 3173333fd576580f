import Gamebook.Position

/-!
Problems found in a scene. Reading a scene never fails: a problem becomes a marker on the node
where it was found. A marker applies one of a closed list of rules to a range; shown by line and
column it is a diagnostic.
-/

namespace Gamebook

/-- How serious a problem is; `ignore` switches a rule off. -/
inductive Level where
  | ignore
  | error
  | warning
  | information
  | hint
  deriving DecidableEq, Repr, Inhabited

namespace Level

def all : List Level := [ignore, error, warning, information, hint]

/-- The name in settings and in serialized form. -/
def key : Level → String
  | ignore => "ignore"
  | error => "error"
  | warning => "warning"
  | information => "information"
  | hint => "hint"

/-- The name in messages. -/
def render : Level → String
  | information => "info"
  | level => level.key

end Level

/-- The kinds of problems. -/
inductive Rule where
  | unknownCommand
  | variableNameExpected
  | labelNameExpected
  | sceneNameExpected
  | expressionExpected
  | termExpected
  | rightParenthesisExpected
  | rightBracketExpected
  | rightCurlyExpected
  | missingClosingQuote
  | notEnoughMultireplaceOptions
  | mixedIndentation
  | choiceOptionExpected
  | noChoiceOptions
  | optionOutsideChoice
  | unexpectedToken
  | deprecatedModulo
  deriving DecidableEq, Repr, Inhabited

namespace Rule

def all : List Rule :=
  [unknownCommand, variableNameExpected, labelNameExpected, sceneNameExpected, expressionExpected,
   termExpected, rightParenthesisExpected, rightBracketExpected, rightCurlyExpected,
   missingClosingQuote, notEnoughMultireplaceOptions, mixedIndentation, choiceOptionExpected,
   noChoiceOptions, optionOutsideChoice, unexpectedToken, deprecatedModulo]

/-- The stable name of a rule. -/
def id : Rule → String
  | unknownCommand => "unknown-command"
  | variableNameExpected => "variable-name-expected"
  | labelNameExpected => "label-name-expected"
  | sceneNameExpected => "scene-name-expected"
  | expressionExpected => "expression-expected"
  | termExpected => "term-expected"
  | rightParenthesisExpected => "right-parenthesis-expected"
  | rightBracketExpected => "right-bracket-expected"
  | rightCurlyExpected => "right-curly-expected"
  | missingClosingQuote => "missing-closing-quote"
  | notEnoughMultireplaceOptions => "not-enough-multireplace-options"
  | mixedIndentation => "mixed-indentation"
  | choiceOptionExpected => "choice-option-expected"
  | noChoiceOptions => "no-choice-options"
  | optionOutsideChoice => "option-outside-choice"
  | unexpectedToken => "unexpected-token"
  | deprecatedModulo => "deprecated-modulo"

/-- What a marker of the rule says. -/
def message : Rule → String
  | unknownCommand => "Unknown command"
  | variableNameExpected => "Variable name expected"
  | labelNameExpected => "Label name expected"
  | sceneNameExpected => "Scene name expected"
  | expressionExpected => "Expression expected"
  | termExpected => "Term expected"
  | rightParenthesisExpected => "')' expected"
  | rightBracketExpected => "']' expected"
  | rightCurlyExpected => "'\x7d' expected"
  | missingClosingQuote => "String is missing its closing quote"
  | notEnoughMultireplaceOptions => "Multireplace needs at least two options separated by '|'"
  | mixedIndentation => "Tabs and spaces are mixed in indentation"
  | choiceOptionExpected => "Choice option ('#') expected"
  | noChoiceOptions => "Choice has no options"
  | optionOutsideChoice => "Option is not inside a *choice or *fake_choice"
  | unexpectedToken => "Unexpected input"
  | deprecatedModulo => "The '%' operator is deprecated, use 'modulo'"

/-- The rule with the given name. -/
def ofId? (name : String) : Option Rule := all.find? (·.id == name)

end Rule

/-- The levels of the rules that can be set; every other problem is an error. -/
structure Levels where
  mixedIndentation : Level := .warning
  deprecatedModulo : Level := .warning
  deriving DecidableEq, Repr, Inhabited

namespace Levels

/-- The level at which a rule is reported. -/
def of (levels : Levels) : Rule → Level
  | .mixedIndentation => levels.mixedIndentation
  | .deprecatedModulo => levels.deprecatedModulo
  | _ => .error

end Levels

/-- A marker shown by line and column. -/
structure Diagnostic where
  start : Position
  stop : Position
  level : Level
  code : String
  message : String
  deriving DecidableEq, Repr, Inhabited

namespace Diagnostic

/-- The diagnostic on one line. -/
def render (d : Diagnostic) : String :=
  d.level.render ++ " [" ++ d.code ++ "]: " ++ d.message ++ " at " ++ d.start.render

end Diagnostic

/-- A problem on a node of a tree. -/
structure Marker where
  rule : Rule
  level : Level
  /-- The node that owns the marker. -/
  node : Nat
  offset : Nat
  length : Nat
  message : String
  deriving DecidableEq, Repr, Inhabited

namespace Marker

/-- A marker with the message of its rule. -/
def ofRule (rule : Rule) (level : Level) (node offset length : Nat) : Marker :=
  ⟨rule, level, node, offset, length, rule.message⟩

/-- The end of the marked range, whether or not there is such an offset. -/
def stop (marker : Marker) : Nat := marker.offset + marker.length

/-- The offset that counts as the end of the marked range in a text of `size` bytes. -/
def wrappedStop (marker : Marker) (size : Nat) : Nat := offsetWrap size marker.offset marker.length

/-- A range that ends at an offset of the text counts as ending there. -/
theorem wrappedStop_eq {marker : Marker} {size : Nat} (h : marker.stop ≤ lastOffset size) :
    marker.wrappedStop size = marker.stop := offsetWrap_eq h

/-- The marker by line and column. -/
def diagnostic (marker : Marker) (index : LineIndex) : Diagnostic where
  start := index.position marker.offset
  stop := index.position (marker.wrappedStop index.size)
  level := marker.level
  code := marker.rule.id
  message := marker.message

end Marker

end Gamebook
