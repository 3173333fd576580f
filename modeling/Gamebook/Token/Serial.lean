import Gamebook.Json
import Gamebook.Token

/-!
Tokens as structured data: kind, text, range and position, in this order.
-/

namespace Gamebook

namespace Position

/-- The position as structured data. -/
def toJson (position : Position) : Json :=
  .obj [("line", .ofNat position.line), ("column", .ofNat position.column)]

end Position

namespace TokenKind

/-- The kind as structured data: its name, above the data that it carries. -/
def toJson : TokenKind → Json
  | indentation width unit =>
    .obj [("Indentation", .obj [("width", .ofNat width), ("unit", .str unit.key)])]
  | delim c => .obj [("Delim", .str (String.singleton c))]
  | kind => .str kind.name

end TokenKind

namespace Token

/-- The token as structured data. -/
def toJson (token : Token) : Json :=
  .obj
    [("type", token.kind.toJson), ("text", .str (String.ofList token.text)),
     ("offset", .ofNat token.offset), ("length", .ofNat token.length),
     ("position", token.position.toJson)]

end Token

end Gamebook
