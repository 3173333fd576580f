import Gamebook.Position
import Gamebook.Uri

/-!
Documents: a text and the identifier it goes by. A document holds a scene when the last segment of
its identifier is a name with the extension of scenes.
-/

namespace Gamebook

/-- A text and its identifier. -/
structure Document where
  uri : Uri
  text : Text
  deriving DecidableEq, Repr, Inhabited

namespace Uri

/-- The name of the scene at an identifier: the last segment of its path without the extension. -/
def sceneName? [Addressing] (uri : Uri) (extension : String) : Option String :=
  let file := (Addressing.segments? uri).bind List.getLast?
  let stem := (file.bind (Text.dropEnding? extension.toList)).bind (Text.dropEnding? ['.'])
  (stem.filter (!·.isEmpty)).map String.ofList

end Uri

namespace Document

/-- The name of the scene that a document holds, if it holds one. -/
def sceneName? [Addressing] (document : Document) (extension : String) : Option String :=
  document.uri.sceneName? extension

def lineIndex (document : Document) : LineIndex := .ofText document.text

/-- The position of an offset. -/
def positionAt (document : Document) (offset : Nat) : Position :=
  document.lineIndex.position offset

/-- The offset of a position. -/
def offsetAt (document : Document) (position : Position) : Nat :=
  document.lineIndex.offset position

end Document

end Gamebook
