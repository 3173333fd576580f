import Gamebook.Text.Basic
import Gamebook.Text.Letters
import Gamebook.Text.Numbers
import Gamebook.Text.Alphabetic
import Gamebook.Text.Unprintable

/-!
Classes of characters. Names are written with letters and numbers of every script, commands are
told from prose by an alphabetic character, and indentation is made of spaces and tabs only.
-/

namespace Gamebook.Text

/-- Whether a code point lies in one of the ranges, which are given in increasing order: the
search ends at the first range that starts behind the code point. -/
def inRanges : List (Nat × Nat) → Nat → Bool
  | [], _ => false
  | (first, last) :: ranges, code =>
    if code < first then false else if code ≤ last then true else inRanges ranges code

/-- A letter of any script. -/
def isLetter (c : Char) : Bool := inRanges letterRanges c.toNat

/-- A number of any script: digits, letter-like numbers, superscripts, fractions. -/
def isNumber (c : Char) : Bool := inRanges numberRanges c.toNat

/-- A character with the property Alphabetic, a wider class than the letters. -/
def isAlphabetic (c : Char) : Bool := inRanges alphabeticRanges c.toNat

/-- The decimal digits `0` to `9`. -/
def isDigit (c : Char) : Bool := '0' ≤ c && c ≤ '9'

/-- A digit of a hexadecimal number. -/
def isHexDigit (c : Char) : Bool :=
  isDigit c || ('a' ≤ c && c ≤ 'f') || ('A' ≤ c && c ≤ 'F')

/-- Indentation and the space between tokens: a space or a tab. -/
def isBlank (c : Char) : Bool := c == ' ' || c == '\t'

/-- The code points with the property White_Space. -/
def whiteSpaceRanges : List (Nat × Nat) :=
  [(0x9, 0xD), (0x20, 0x20), (0x85, 0x85), (0xA0, 0xA0), (0x1680, 0x1680), (0x2000, 0x200A),
   (0x2028, 0x2029), (0x202F, 0x202F), (0x205F, 0x205F), (0x3000, 0x3000)]

/-- White space in the wide sense, line breaks and the spaces of every script included. -/
def isWhiteSpace (c : Char) : Bool := inRanges whiteSpaceRanges c.toNat

/-- A character with a glyph of its own. -/
def isPrintable (c : Char) : Bool := !inRanges unprintableRanges c.toNat

/-- The text without white space at its end. -/
def trimEnd (text : Text) : Text := (text.reverse.dropWhile isWhiteSpace).reverse

example : isLetter 'é' ∧ isLetter '日' ∧ !isLetter '_' ∧ !isLetter 'ⅷ' := by decide +kernel
example : isNumber '²' ∧ isNumber 'Ⅷ' ∧ isAlphabetic 'Ⅷ' ∧ isAlphabetic 'ⓐ' := by decide +kernel
example : !isPrintable '\u0301' ∧ isPrintable ' ' ∧ !isPrintable '\u00a0' := by decide +kernel

end Gamebook.Text
