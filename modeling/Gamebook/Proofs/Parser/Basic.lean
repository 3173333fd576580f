import Gamebook.Expression
import Gamebook.Scanner

/-!
Parsers. A parser works on the tokens of a scene: it looks at one token, remembers the one that it took
last, and puts nodes into a tree as soon as it meets them. To try something out it marks where it is; going
back to a mark puts the scanner and both tokens back and drops the nodes that were made since, but undoes
nothing that was done to older nodes.
-/

namespace Gamebook

namespace TokenKind

def endsLine : TokenKind → Bool
  | eol | eof => true
  | _ => false

/-- Whether a lexeme of the kind is cut in the given mode only. -/
def isCutIn (mode : Mode) : TokenKind → Bool
  | word => mode == .text
  | ident | string | badString => mode == .command
  | _ => false

end TokenKind

/-- A parser at work. -/
structure Parser where
  scanner : Scanner
  tree : Tree
  /-- The token that comes next. -/
  token : Token
  /-- The token that was taken last. -/
  previous : Option Token
  levels : Levels

namespace Parser

/-- A place that a parser can go back to. -/
structure Mark where
  cursor : Cursor
  size : Nat
  token : Token
  previous : Option Token

/-- A parser before the first token of a scene. -/
def ofText (source : Text) (levels : Levels) : Parser :=
  let (token, scanner) := (Scanner.ofText source).scan
  ⟨scanner, .ofSource source, token, none, levels⟩

def mark (p : Parser) : Mark := ⟨p.scanner.cursor, p.tree.size, p.token, p.previous⟩

def restore (p : Parser) (mark : Mark) : Parser :=
  { p with
    scanner := p.scanner.moveTo mark.cursor
    tree := p.tree.truncate mark.size
    token := mark.token
    previous := mark.previous }

/-! ### Tokens -/

def sees (p : Parser) (kind : TokenKind) : Bool := p.token.kind == kind

def word (p : Parser) : String := String.ofList p.token.text

def atEnd (p : Parser) : Bool := p.token.kind.endsLine

/-- Whether the next token stands right behind the one that was taken last. -/
def followsDirectly (p : Parser) : Bool := p.previous.any (·.stop == p.token.offset)

/-- Offset behind the token that was taken last, or the given one when none was taken. -/
def lastEnd (p : Parser) (offset : Nat) : Nat := (p.previous.map Token.stop).getD offset

/-- The text of the line from the next token on. -/
def ahead (p : Parser) : Text :=
  if p.atEnd then []
  else
    match p.scanner.lines[p.token.position.line]? with
    | none => []
    | some line => (Text.drop? (p.token.offset - line.contentStart) line.content).getD []

def next (p : Parser) : Parser :=
  let (token, scanner) := p.scanner.scan
  { p with scanner, token, previous := some p.token }

def accept (p : Parser) (kind : TokenKind) : Bool × Parser :=
  if p.sees kind then (true, p.next) else (false, p)

/-- Has the rest of the line cut in another mode. The next token is cut again unless it is of a kind that
tells that this was done already. -/
def switch (p : Parser) (mode : Mode) : Parser :=
  if p.token.kind.isLayout then { p with scanner := p.scanner.switchTo mode }
  else if p.scanner.cursor.mode = mode ∧ p.token.kind.isCutIn mode then p
  else
    let (token, scanner) := (p.scanner.rewind p.token mode).scan
    { p with scanner, token }

/-- Has the next token cut again as the run up to the next blank, unless the line is at its end. -/
def recut (p : Parser) : Bool × Parser :=
  if p.atEnd then (false, p)
  else
    let (token, scanner) := (p.scanner.rewind p.token p.scanner.cursor.mode).scanRun
    (token.kind == .unquotedString, { p with scanner, token })

/-! ### Nodes -/

/-- Makes a node at the given place. -/
def createAt (p : Parser) (kind : Kind) (offset : Nat) : Nat × Parser :=
  let (id, tree) := p.tree.create kind offset
  (id, { p with tree })

def create (p : Parser) (kind : Kind) : Nat × Parser := p.createAt kind p.token.offset

def adopt (p : Parser) (parent child : Nat) : Parser := { p with tree := p.tree.adopt parent child none }

/-- Extends a node over the token that was taken last. -/
def finish (p : Parser) (id : Nat) : Parser :=
  match p.previous with
  | none => p
  | some token => { p with tree := p.tree.reach id token.stop }

/-- Takes the next token as a node of its own. -/
def leaf (p : Parser) (kind : Kind) : Nat × Parser :=
  let (id, p) := p.create kind
  (id, p.next.finish id)

def setKind (p : Parser) (id : Nat) (kind : Kind) : Parser :=
  { p with tree := p.tree.modify id fun node => { node with kind } }

/-- Marks a range on a node, unless the rule is switched off. -/
def flag (p : Parser) (id : Nat) (rule : Rule) (offset length : Nat) : Parser :=
  if p.levels.of rule = .ignore then p
  else { p with tree := p.tree.mark id (.ofRule rule (p.levels.of rule) id offset length) }

/-- Marks the whole range of a node. -/
def flagWhole (p : Parser) (id : Nat) (rule : Rule) : Parser :=
  match p.tree.node? id with
  | none => p
  | some node => p.flag id rule node.offset node.length

/-- Marks the next token, or the end of the line. -/
def complain (p : Parser) (id : Nat) (rule : Rule) : Parser :=
  p.flag id rule p.token.offset (if p.atEnd then 0 else p.token.length)

/-- Puts a node below another one, or marks that it is missing. -/
def adoptOr (p : Parser) (parent : Nat) (child : Option Nat) (rule : Rule) : Parser :=
  match child with
  | some child => p.adopt parent child
  | none => p.complain parent rule

/-- What a node contributes to the type of an operation; at most `budget` groups are looked into. -/
def operandWithin (tree : Tree) : Nat → Nat → Operand
  | 0, _ => .malformed
  | budget + 1, id =>
    match tree.kind? id with
    | some .var => .untyped
    | some (.term _ .var) => .untyped
    | some (.term _ .arrayIndex) => .untyped
    | some (.term _ .computedReference) => .untyped
    | some (.term _ .group) =>
      match (tree.children id).head? with
      | some inner => operandWithin tree budget inner
      | none => .malformed
    | some kind => .ofKind kind
    | none => .malformed

def operand? (p : Parser) : Option Nat → Operand
  | some id => operandWithin p.tree p.tree.size id
  | none => .malformed

end Parser

end Gamebook
