import Gamebook.Token

/-!
Lexemes. The content of a line is read in one of two modes, each with its own patterns: commands
and expressions are made of names, numbers, strings and operators, prose of words and the signs
that interrupt it. In both modes the lexeme at the front of a text is the longest part that some
pattern matches, and a character that no pattern matches stands for itself.
-/

namespace Gamebook

/-- How the content of a line is cut into lexemes. -/
inductive Mode where
  | command
  | text
  deriving DecidableEq, Repr, Inhabited

namespace Mode

/-- The mode in which a line of the given type begins. -/
def ofLineType : LineType → Mode
  | .command | .comment => .command
  | .option | .text => .text

def name : Mode → String
  | command => "Command"
  | text => "Text"

end Mode

/-- A kind of lexeme with the length, in characters, of the longest leading part of a text that
the kind matches; zero stands for no match. -/
structure Pattern where
  kind : TokenKind
  longest : Text → Nat

namespace Pattern

/-- How many digits a text begins with. -/
def digits (text : Text) : Nat := (text.takeWhile Text.isDigit).length

/-- Digits with an optional fraction, or a point and digits. -/
def numberLength (text : Text) : Nat :=
  let whole := digits text
  match text.drop whole with
  | '.' :: rest =>
    let fraction := digits rest
    if whole = 0 ∧ fraction = 0 then 0 else whole + 1 + fraction
  | _ => whole

/-- The characters up to the closing quote and the quote itself, behind an opening quote. A
backslash takes the character behind it along. -/
def closedLength : Text → Option Nat
  | [] => none
  | ['\\'] => none
  | '\\' :: _ :: rest => (closedLength rest).map (· + 2)
  | '"' :: _ => some 1
  | _ :: rest => (closedLength rest).map (· + 1)

/-- The characters before the closing quote, or all of them when there is none. -/
def openLength : Text → Nat
  | [] => 0
  | ['\\'] => 1
  | '\\' :: _ :: rest => openLength rest + 2
  | '"' :: _ => 0
  | _ :: rest => openLength rest + 1

/-- A string from its opening to its closing quote. -/
def stringLength : Text → Nat
  | '"' :: rest => ((closedLength rest).map (· + 1)).getD 0
  | _ => 0

/-- An opening quote and what a string without closing quote holds. -/
def badStringLength : Text → Nat
  | '"' :: rest => openLength rest + 1
  | _ => 0

/-- The characters that open a name: letters and the underscore. -/
def opensName (c : Char) : Bool := Text.isLetter c || c == '_'

/-- The characters that continue a name: letters, numbers and the underscore. -/
def continuesName (c : Char) : Bool := Text.isLetter c || Text.isNumber c || c == '_'

/-- A name. -/
def nameLength : Text → Nat
  | [] => 0
  | c :: rest => if opensName c then (rest.takeWhile continuesName).length + 1 else 0

/-- The straight and the typographic apostrophe. -/
def isApostrophe (c : Char) : Bool := c == '\'' || c == '’'

/-- How far a word goes on behind one of its letters: over letters, and over an apostrophe that
stands between letters. -/
def wordRest : Text → Nat
  | [] => 0
  | c :: rest =>
    if Text.isLetter c then wordRest rest + 1
    else if isApostrophe c then
      match rest with
      | [] => 0
      | d :: more => if Text.isLetter d then wordRest more + 2 else 0
    else 0

/-- A word of prose. -/
def wordLength : Text → Nat
  | [] => 0
  | c :: rest => if Text.isLetter c then wordRest rest + 1 else 0

/-- The pattern of a fixed spelling. -/
def fixed (kind : TokenKind) (spelling : Text) : Pattern where
  kind := kind
  longest text := if spelling.isPrefixOf text then spelling.length else 0

/-- The single signs, which both modes know. -/
def signs : List Pattern :=
  [fixed .colon [':'], fixed .curlyL ['\x7b'], fixed .curlyR ['\x7d'], fixed .bracketL ['['],
   fixed .bracketR [']'], fixed .parenL ['('], fixed .parenR [')'], fixed .semiColon [';'],
   fixed .comma [','], fixed .asterisk ['*'], fixed .hash ['#'], fixed .dollar ['$'],
   fixed .atSign ['@'], fixed .pipe ['|']]

/-- The patterns of commands and expressions. -/
def ofCommands : List Pattern :=
  [⟨.num, numberLength⟩, ⟨.string, stringLength⟩, ⟨.badString, badStringLength⟩,
   ⟨.ident, nameLength⟩, fixed .fairMathAdd ['%', '+'], fixed .fairMathSub ['%', '-'],
   fixed .lessEq ['<', '='], fixed .greaterEq ['>', '='], fixed .notEq ['!', '=']] ++ signs

/-- The patterns of prose. -/
def ofProse : List Pattern := [⟨.word, wordLength⟩, ⟨.num, numberLength⟩] ++ signs

/-- The longest match among some patterns, the first of them where several are longest. -/
def longestOf (text : Text) : List Pattern → Option (TokenKind × Nat)
  | [] => none
  | pattern :: more =>
    let length := pattern.longest text
    match longestOf text more with
    | none => if length = 0 then none else some (pattern.kind, length)
    | some (kind, other) =>
      if length < other then some (kind, other) else some (pattern.kind, length)

/-- A match is never empty. -/
theorem longestOf_pos {text : Text} {patterns : List Pattern} {kind : TokenKind} {length : Nat}
    (found : longestOf text patterns = some (kind, length)) : 0 < length := by
  induction patterns generalizing kind length with
  | nil => simp [longestOf] at found
  | cons pattern more ih =>
    simp only [longestOf] at found
    split at found
    · split at found
      · simp at found
      · simp only [Option.some.injEq, Prod.mk.injEq] at found
        omega
    · rename_i other size rest
      have positive := ih rest
      split at found <;> simp only [Option.some.injEq, Prod.mk.injEq] at found <;> omega

end Pattern

/-- The patterns of a mode. -/
def Mode.patterns : Mode → List Pattern
  | .command => Pattern.ofCommands
  | .text => Pattern.ofProse

/-- A piece of a line's content with its kind. -/
structure Lexeme where
  kind : TokenKind
  text : Text
  deriving DecidableEq, Repr, Inhabited

namespace Lexeme

/-- The lexeme at the front of a text, and the text behind it; nothing at the end. -/
def first? (mode : Mode) : Text → Option (Lexeme × Text)
  | [] => none
  | c :: rest =>
    match Pattern.longestOf (c :: rest) mode.patterns with
    | some (kind, length) => some (⟨kind, (c :: rest).take length⟩, (c :: rest).drop length)
    | none => some (⟨.delim c, [c]⟩, rest)

/-- A lexeme and the text behind it make up the text before which it was found. -/
theorem append_of_first? {mode : Mode} {text rest : Text} {lexeme : Lexeme}
    (found : first? mode text = some (lexeme, rest)) : lexeme.text ++ rest = text := by
  cases text with
  | nil => simp [first?] at found
  | cons c cs =>
    simp only [first?] at found
    split at found <;> simp only [Option.some.injEq, Prod.mk.injEq] at found <;>
      obtain ⟨rfl, rfl⟩ := found
    · exact List.take_append_drop _ _
    · rfl

/-- A lexeme has at least one character. -/
theorem ne_nil_of_first? {mode : Mode} {text rest : Text} {lexeme : Lexeme}
    (found : first? mode text = some (lexeme, rest)) : lexeme.text ≠ [] := by
  cases text with
  | nil => simp [first?] at found
  | cons c cs =>
    simp only [first?] at found
    split at found <;> simp only [Option.some.injEq, Prod.mk.injEq] at found <;>
      obtain ⟨rfl, rfl⟩ := found
    · rename_i kind length longest
      have positive := Pattern.longestOf_pos longest
      cases length with
      | zero => omega
      | succ length => simp
    · simp

/-- Only at the end of a text there is no lexeme. -/
theorem first?_eq_none_iff {mode : Mode} {text : Text} : first? mode text = none ↔ text = [] := by
  cases text with
  | nil => simp [first?]
  | cons c cs =>
    simp only [first?]
    split <;> simp

end Lexeme

end Gamebook
