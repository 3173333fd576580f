import Gamebook.Text.Class

/-!
Percent encoding. A character that may not stand in some part of an identifier is written as its
bytes, each as a percent sign and two digits in base sixteen. Decoding yields bytes, which need
not be those of a text.
-/

namespace Gamebook.Text

/-- The text with the given UTF-8 encoding, if it is one. -/
def ofBytes? (bytes : List UInt8) : Option Text :=
  (String.fromUTF8? ⟨bytes.toArray⟩).map String.toList

/-- A digit in base sixteen, in upper case. -/
def upperHexDigit (n : Nat) : Char :=
  if n < 10 then Char.ofNat ('0'.toNat + n) else Char.ofNat ('A'.toNat + (n - 10))

/-- The value of a digit in base sixteen. -/
def hexValue? (c : Char) : Option Nat :=
  if isDigit c then some (c.toNat - '0'.toNat)
  else if 'a' ≤ c && c ≤ 'f' then some (c.toNat - 'a'.toNat + 10)
  else if 'A' ≤ c && c ≤ 'F' then some (c.toNat - 'A'.toNat + 10)
  else none

/-- A byte as a percent sign and two digits. -/
def percentByte (byte : UInt8) : Text :=
  ['%', upperHexDigit (byte.toNat / 16), upperHexDigit (byte.toNat % 16)]

/-- The text with every character percent encoded that is not to be kept. -/
def percentEncode (keep : Char → Bool) (text : Text) : Text :=
  text.flatMap fun c => if keep c then [c] else (String.utf8EncodeChar c).flatMap percentByte

/-- The bytes of a text after its percent signs are decoded; a percent sign that two digits do not
follow stands for itself. -/
def percentDecode : Text → List UInt8
  | [] => []
  | '%' :: high :: low :: rest =>
    match hexValue? high, hexValue? low with
    | some high, some low => UInt8.ofNat (16 * high + low) :: percentDecode rest
    | _, _ => String.utf8EncodeChar '%' ++ percentDecode (high :: low :: rest)
  | c :: rest => String.utf8EncodeChar c ++ percentDecode rest

/-- A graphic ASCII character, the space excluded. -/
def isGraphic (c : Char) : Bool := '!' ≤ c && c ≤ '~'

/-- The characters of a fragment that stand for themselves. -/
def keptInFragment (c : Char) : Bool := isGraphic c && !"\"<>`".toList.contains c

/-- The characters of a query that stand for themselves. -/
def keptInQuery (c : Char) : Bool := isGraphic c && !"\"<>#".toList.contains c

/-- The same for an identifier with a host or of a file, where an apostrophe does not stand for
itself either. -/
def keptInHostedQuery (c : Char) : Bool := keptInQuery c && c != '\x27'

/-- The characters of a path that stand for themselves. -/
def keptInPath (c : Char) : Bool := keptInFragment c && !"#?\x7b\x7d".toList.contains c

/-- The characters of a file name that stand for themselves in a path. -/
def keptInFileName (c : Char) : Bool := keptInPath c && !"/%\\".toList.contains c

end Gamebook.Text
