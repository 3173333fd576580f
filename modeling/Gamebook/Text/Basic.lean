/-!
Texts and their measure. A text is the list of its characters; every offset, length and column
of this library counts the bytes of the UTF-8 encoding, so a cut is only defined between two
characters.
-/

namespace Gamebook

/-- A text, character by character. -/
abbrev Text := List Char

namespace Text

/-- The number of bytes of a text. -/
def bytes : Text → Nat
  | [] => 0
  | c :: cs => c.utf8Size + bytes cs

/-- What follows the first `n` bytes; nothing when `n` is not the size of a leading part. -/
def drop? : Nat → Text → Option Text
  | 0, cs => some cs
  | _ + 1, [] => none
  | n + 1, c :: cs => if c.utf8Size ≤ n + 1 then drop? (n + 1 - c.utf8Size) cs else none

/-- The first `n` bytes; nothing when `n` is not the size of a leading part. -/
def take? : Nat → Text → Option Text
  | 0, _ => some []
  | _ + 1, [] => none
  | n + 1, c :: cs =>
    if c.utf8Size ≤ n + 1 then (take? (n + 1 - c.utf8Size) cs).map (c :: ·) else none

/-- The bytes from `start` up to `stop`, when both lie between characters of the text. -/
def slice? (start stop : Nat) (text : Text) : Option Text :=
  (drop? start text).bind (take? (stop - start))

/-- The part before a given ending, when the text has that ending. -/
def dropEnding? (ending text : Text) : Option Text :=
  if ending.isSuffixOf text then some (text.take (text.length - ending.length)) else none

/-- The parts between the separators; one more part than there are separators. -/
def splitOn (separator : Char) (text : Text) : List Text :=
  text.foldr
    (fun c parts =>
      match parts with
      | [] => [[c]]
      | part :: more => if c = separator then [] :: part :: more else (c :: part) :: more)
    [[]]

/-- Cuts a text at the first of the given characters, which is dropped; without one the whole text
comes first and nothing second. -/
def cutAt (mark : Char) (text : Text) : Text × Option Text :=
  match text.dropWhile (· != mark) with
  | [] => (text, none)
  | _ :: rest => (text.takeWhile (· != mark), some rest)

/-- The text with its ASCII letters in lower case. -/
def lower (text : Text) : Text := text.map Char.toLower

/-- The parts of a list joined by a separator. -/
def join (separator : Text) (parts : List Text) : Text :=
  List.intercalate separator parts

@[simp] theorem bytes_nil : bytes [] = 0 := rfl

@[simp] theorem bytes_cons (c : Char) (cs : Text) : bytes (c :: cs) = c.utf8Size + bytes cs := rfl

/-- The measure of a text is the sum of the measures of its parts. -/
@[simp] theorem bytes_append (left right : Text) :
    bytes (left ++ right) = bytes left + bytes right := by
  induction left with
  | nil => simp
  | cons c cs ih => simp [ih, Nat.add_assoc]

end Text

end Gamebook
