import Gamebook.Line
import Gamebook.Position
import Gamebook.Text.Quoted

/-!
Tokens. A token is a kind and the exact text it covers, located in the scene. Blanks between
tokens are not tokens; the leading blanks of a line are one token, which tells their number and
what they are made of.
-/

namespace Gamebook

/-- What a run of leading blanks is made of. -/
inductive IndentUnit where
  | spaces
  | tabs
  | mixed
  deriving DecidableEq, Repr, Inhabited

namespace IndentUnit

/-- The unit of a run of blanks. -/
def ofRun (run : Text) : IndentUnit :=
  if run.contains '\t' then (if run.contains ' ' then .mixed else .tabs) else .spaces

def name : IndentUnit → String
  | spaces => "Spaces"
  | tabs => "Tabs"
  | mixed => "Mixed"

/-- The name in serialized form. -/
def key : IndentUnit → String
  | spaces => "spaces"
  | tabs => "tabs"
  | mixed => "mixed"

end IndentUnit

/-- The kinds of tokens. -/
inductive TokenKind where
  | colon
  | curlyL
  | curlyR
  | bracketL
  | bracketR
  | parenL
  | parenR
  | semiColon
  | comma
  /-- An asterisk opens a command, and multiplies inside an expression. -/
  | asterisk
  /-- A number sign opens an option. -/
  | hash
  /-- A dollar sign opens a replacement. -/
  | dollar
  /-- An at sign opens a multireplace. -/
  | atSign
  | pipe
  | num
  | string
  /-- A run up to the next blank, read on demand. -/
  | unquotedString
  /-- A string without its closing quote. -/
  | badString
  /-- A name on a command line or in an expression. -/
  | ident
  /-- A word of prose. -/
  | word
  | fairMathAdd
  | fairMathSub
  | lessEq
  | greaterEq
  | notEq
  | indentation (width : Nat) (unit : IndentUnit)
  /-- A line break. -/
  | eol
  /-- The whole content of a comment line. -/
  | singleLineComment
  /-- A character that no other kind takes. -/
  | delim (c : Char)
  /-- The end of the scene. -/
  | eof
  deriving DecidableEq, Repr, Inhabited

namespace TokenKind

/-- The name of the kind, without its data. -/
def name : TokenKind → String
  | colon => "Colon"
  | curlyL => "CurlyL"
  | curlyR => "CurlyR"
  | bracketL => "BracketL"
  | bracketR => "BracketR"
  | parenL => "ParenL"
  | parenR => "ParenR"
  | semiColon => "SemiColon"
  | comma => "Comma"
  | asterisk => "Asterisk"
  | hash => "Hash"
  | dollar => "Dollar"
  | atSign => "At"
  | pipe => "Pipe"
  | num => "Num"
  | string => "String"
  | unquotedString => "UnquotedString"
  | badString => "BadString"
  | ident => "Ident"
  | word => "Word"
  | fairMathAdd => "FairMathAdd"
  | fairMathSub => "FairMathSub"
  | lessEq => "LessEq"
  | greaterEq => "GreaterEq"
  | notEq => "NotEq"
  | indentation _ _ => "Indentation"
  | eol => "EOL"
  | singleLineComment => "SingleLineComment"
  | delim _ => "Delim"
  | eof => "EOF"

/-- The kind as it is shown, its data in parentheses. -/
def render : TokenKind → String
  | delim c => "Delim(" ++ String.singleton c ++ ")"
  | indentation width unit => s!"Indentation({width}, {unit.name})"
  | kind => kind.name

/-- Layout is what lies between the contents of the lines: indentation, line breaks, the end. -/
def isLayout : TokenKind → Bool
  | indentation _ _ | eol | eof => true
  | _ => false

end TokenKind

/-- A token and where it stands. -/
structure Token where
  kind : TokenKind
  text : Text
  offset : Nat
  position : Position
  deriving DecidableEq, Repr, Inhabited

namespace Token

/-- The size of the token. -/
def length (token : Token) : Nat := Text.bytes token.text

/-- Offset behind the token. -/
def stop (token : Token) : Nat := token.offset + token.length

/-- The token on one line: kind, quoted text and position. -/
def render (token : Token) : String :=
  token.kind.render ++ " " ++ String.ofList (Text.quoted token.text) ++ " @" ++
    token.position.render

end Token

end Gamebook
