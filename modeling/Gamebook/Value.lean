import Gamebook.Text.Basic

/-!
The values that expressions compute with: their types, the operators in order of precedence, and
the functions. The type of a result follows from the operator alone; which operands an operator
takes decides whether the result has a type at all.
-/

namespace Gamebook

/-- The type of a value; `unknown` where no type can be decided. -/
inductive ValueType where
  | number
  | string
  | boolean
  | unknown
  deriving DecidableEq, Repr, Inhabited

namespace ValueType

def name : ValueType → String
  | number => "number"
  | string => "string"
  | boolean => "boolean"
  | unknown => "unknown"

def isKnown (type : ValueType) : Bool := type != .unknown

def all : List ValueType := [number, string, boolean, unknown]

end ValueType

/-- Operators that give results of the same sort. -/
inductive OperatorFamily where
  | boolean
  | comparison
  | concatenation
  | arithmetic
  | fairMath
  deriving DecidableEq, Repr, Inhabited

namespace OperatorFamily

def name : OperatorFamily → String
  | boolean => "Boolean"
  | comparison => "Comparison"
  | concatenation => "Concatenation"
  | arithmetic => "Arithmetic"
  | fairMath => "FairMath"

end OperatorFamily

/-- The levels of precedence, the loosest first. -/
inductive Precedence where
  | boolean
  | comparison
  | concatenation
  | additive
  | multiplicative
  | fairMath
  deriving DecidableEq, Repr, Inhabited

/-- The binary operators. -/
inductive Operator where
  | and
  | or
  | equal
  | notEqual
  | less
  | greater
  | lessEqual
  | greaterEqual
  | concat
  | add
  | subtract
  | multiply
  | divide
  | modulo
  /-- A lone percent sign, the older spelling of `modulo`. -/
  | deprecatedModulo
  | fairAdd
  | fairSubtract
  deriving DecidableEq, Repr, Inhabited

namespace Operator

def all : List Operator :=
  [and, or, equal, notEqual, less, greater, lessEqual, greaterEqual, concat, add, subtract,
   multiply, divide, modulo, deprecatedModulo, fairAdd, fairSubtract]

def name : Operator → String
  | and => "And"
  | or => "Or"
  | equal => "Equal"
  | notEqual => "NotEqual"
  | less => "Less"
  | greater => "Greater"
  | lessEqual => "LessEqual"
  | greaterEqual => "GreaterEqual"
  | concat => "Concat"
  | add => "Add"
  | subtract => "Subtract"
  | multiply => "Multiply"
  | divide => "Divide"
  | modulo => "Modulo"
  | deprecatedModulo => "DeprecatedModulo"
  | fairAdd => "FairAdd"
  | fairSubtract => "FairSubtract"

/-- How the operator is written. -/
def symbol : Operator → String
  | and => "and"
  | or => "or"
  | equal => "="
  | notEqual => "!="
  | less => "<"
  | greater => ">"
  | lessEqual => "<="
  | greaterEqual => ">="
  | concat => "&"
  | add => "+"
  | subtract => "-"
  | multiply => "*"
  | divide => "/"
  | modulo => "modulo"
  | deprecatedModulo => "%"
  | fairAdd => "%+"
  | fairSubtract => "%-"

def precedence : Operator → Precedence
  | and | or => .boolean
  | equal | notEqual | less | greater | lessEqual | greaterEqual => .comparison
  | concat => .concatenation
  | add | subtract => .additive
  | multiply | divide | modulo | deprecatedModulo => .multiplicative
  | fairAdd | fairSubtract => .fairMath

def family (op : Operator) : OperatorFamily :=
  match op.precedence with
  | .boolean => .boolean
  | .comparison => .comparison
  | .concatenation => .concatenation
  | .additive | .multiplicative => .arithmetic
  | .fairMath => .fairMath

/-- The type of a well-formed operation. -/
def resultType (op : Operator) : ValueType :=
  match op.family with
  | .boolean | .comparison => .boolean
  | .concatenation => .string
  | .arithmetic | .fairMath => .number

/-- Whether an operand of the given type is taken. Equality takes every type, and so does
concatenation, which makes a string of whatever it is given. -/
def accepts (op : Operator) (operand : ValueType) : Bool :=
  match op with
  | and | or => operand == .boolean
  | equal | notEqual | concat => true
  | _ => operand == .number

/-- The operators that may open the value of an assignment, which then applies them to the
variable that is assigned. -/
def opensAssignment (op : Operator) : Bool :=
  match op.family with
  | .boolean | .comparison => false
  | .concatenation | .arithmetic | .fairMath => true

end Operator

/-- The functions of the language. -/
inductive Function where
  | not
  | round
  | length
  | log
  | timestamp
  deriving DecidableEq, Repr, Inhabited

namespace Function

def all : List Function := [not, round, length, log, timestamp]

/-- How a function is called in a scene. -/
def keyword : Function → String
  | not => "not"
  | round => "round"
  | length => "length"
  | log => "log"
  | timestamp => "timestamp"

def name : Function → String
  | not => "Not"
  | round => "Round"
  | length => "Length"
  | log => "Log"
  | timestamp => "Timestamp"

/-- The function with the given keyword. -/
def ofKeyword? (word : String) : Option Function := all.find? (·.keyword == word)

def resultType : Function → ValueType
  | not => .boolean
  | _ => .number

end Function

end Gamebook
