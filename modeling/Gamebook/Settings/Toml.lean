import Gamebook.Settings.Basic
import Gamebook.Text.Percent

/-!
Files of settings. A file is read line by line: a line is blank, or it heads a table, or it gives
a plain value to a key. A comment may stand at the end of every line. Keys are dotted names, and
neither a key nor a table may be given twice. Names count in lower case once the file is read.
-/

namespace Gamebook.Toml

/-- A text without the blanks at its beginning. -/
def skipBlanks (text : Text) : Text := text.dropWhile Text.isBlank

/-- Whether nothing but blanks and a comment is left of a line. -/
def isLineEnd (text : Text) : Bool :=
  match skipBlanks text with
  | [] => true
  | '#' :: comment => comment.all fun c => c == '\t' || (' ' ≤ c && c != '\x7f')
  | _ => false

/-- Characters of a name that is not quoted. -/
def isNameChar (c : Char) : Bool := c.isAlphanum || c == '_' || c == '-'

/-- The number with the given digits in base sixteen. -/
def hexNumber? (digits : Text) : Option Nat :=
  digits.foldlM (fun number digit => (Text.hexValue? digit).map (16 * number + ·)) 0

/-- The character with a number given in base sixteen. -/
def charOf? (digits : Text) : Option Char :=
  (hexNumber? digits).bind fun number =>
    if number < 0xd800 || (0xdfff < number && number < 0x110000) then some (Char.ofNat number)
    else none

/-- The characters that are escaped by a letter behind a backslash. -/
def escapes : List (Char × Char) :=
  [('b', '\x08'), ('t', '\t'), ('n', '\n'), ('f', '\x0c'), ('r', '\r'), ('"', '"'), ('\\', '\\')]

/-- The value of a string behind its opening quote, and what follows the closing one. -/
def quotedText? : Text → Option (Text × Text)
  | [] => none
  | '"' :: rest => some ([], rest)
  | '\\' :: 'u' :: a :: b :: c :: d :: rest => do
    let char ← charOf? [a, b, c, d]
    let (value, rest) ← quotedText? rest
    return (char :: value, rest)
  | '\\' :: 'U' :: a :: b :: c :: d :: e :: f :: g :: h :: rest => do
    let char ← charOf? [a, b, c, d, e, f, g, h]
    let (value, rest) ← quotedText? rest
    return (char :: value, rest)
  | '\\' :: letter :: rest => do
    let char ← escapes.lookup letter
    let (value, rest) ← quotedText? rest
    return (char :: value, rest)
  | c :: rest =>
    if (c < ' ' && c != '\t') || c == '\\' || c == '\x7f' then none
    else do
      let (value, rest) ← quotedText? rest
      return (c :: value, rest)

/-- The value of a string without escapes behind its opening apostrophe, and what follows the
closing one. -/
def literalText? (text : Text) : Option (Text × Text) :=
  match text.dropWhile (· != '\x27') with
  | [] => none
  | _ :: rest =>
    let value := text.takeWhile (· != '\x27')
    if value.all fun c => c == '\t' || (' ' ≤ c && c != '\x7f') then some (value, rest) else none

/-- Groups of digits with single underscores between them. -/
def digitGroups? (text : Text) : Option Text :=
  let groups := Text.splitOn '_' text
  if groups.all fun group => !group.isEmpty && group.all Text.isDigit then some groups.flatten
  else none

/-- One more than the greatest whole number. -/
def integerBound : Nat := 0x8000000000000000

/-- The value of a whole number in 64 bits with its sign, written without leading zeros. -/
def integer? (text : Text) : Option Int := do
  let (negative, rest) := match text with
    | '-' :: rest => (true, rest)
    | '+' :: rest => (false, rest)
    | rest => (false, rest)
  let digits ← digitGroups? rest
  let size ← (String.ofList digits).toNat?
  if digits.head? == some '0' && digits.length != 1 then none
  else if negative then (if size ≤ integerBound then some (-(size : Int)) else none)
  else if size < integerBound then some size
  else none

/-- A plain value, and what follows it on the line. -/
def scalar? (text : Text) : Option (Scalar × Text) :=
  match text with
  | '"' :: rest => (quotedText? rest).map fun (value, rest) => (.text (String.ofList value), rest)
  | '\x27' :: rest =>
    (literalText? rest).map fun (value, rest) => (.text (String.ofList value), rest)
  | text =>
    let ends := fun c => Text.isBlank c || c == '#'
    let word := text.takeWhile fun c => !ends c
    let rest := text.dropWhile fun c => !ends c
    if word == "true".toList then some (.flag true, rest)
    else if word == "false".toList then some (.flag false, rest)
    else (integer? word).map fun value => (.integer value, rest)

/-- A dotted key; blanks may stand around its names. -/
def key? (text : Text) : Option SettingPath :=
  (Text.splitOn '.' text).mapM fun name =>
    let name := (skipBlanks (skipBlanks name).reverse).reverse
    if name.isEmpty || !name.all isNameChar then none else some (String.ofList name)

/-- What a line says. -/
inductive Entry where
  | blank
  | table (path : SettingPath)
  | value (assignment : Assignment)
  deriving DecidableEq, Repr, Inhabited

/-- Reads a line. -/
def statement? (line : Text) : Option Entry :=
  if isLineEnd line then some .blank
  else
    match skipBlanks line with
    | '[' :: rest =>
      match Text.cutAt ']' rest with
      | (name, some behind) =>
        if isLineEnd behind then (key? name).map .table else none
      | (_, none) => none
    | line =>
      match Text.cutAt '=' line with
      | (name, some behind) => do
        let path ← key? name
        let (value, behind) ← scalar? (skipBlanks behind)
        if isLineEnd behind then some (.value ⟨path, value⟩) else none
      | (_, none) => none

/-- What was read of a file. -/
structure Progress where
  /-- The table that keys now belong to. -/
  table : SettingPath := []
  tables : List SettingPath := []
  assignments : List Assignment := []
  deriving Repr, Inhabited

namespace Progress

/-- Whether a path ends at a value or goes through one. -/
def isTaken (progress : Progress) (path : SettingPath) : Bool :=
  progress.assignments.any (·.path.isPrefixOf path)

/-- Goes on with an entry, unless it repeats or contradicts an earlier one. -/
def add? (progress : Progress) : Entry → Option Progress
  | .blank => some progress
  | .table path =>
    if progress.isTaken path || progress.tables.contains path then none
    else some { progress with table := path, tables := progress.tables ++ [path] }
  | .value ⟨key, value⟩ =>
    let path := progress.table ++ key
    let isSection := progress.tables.any (path.isPrefixOf ·) ||
      progress.assignments.any (path.isPrefixOf ·.path)
    if progress.isTaken path || isSection then none
    else some { progress with assignments := progress.assignments ++ [⟨path, value⟩] }

end Progress

/-- The lines of a text, without their line breaks. -/
def lines (text : Text) : List Text :=
  (Text.splitOn '\n' text).map fun line => (Text.dropEnding? ['\r'] line).getD line

/-- Reads a file of settings. -/
def parse (text : Text) : Except SettingsError (List Assignment) :=
  let read := (lines text).foldlM
    (fun (progress : Progress) line => (statement? line).bind progress.add?) {}
  match read with
  | none => .error .fileMalformed
  | some progress =>
    let lower := fun name : String => String.ofList (Text.lower name.toList)
    .ok (progress.assignments.map fun ⟨path, value⟩ => ⟨path.map lower, value⟩)

end Gamebook.Toml
