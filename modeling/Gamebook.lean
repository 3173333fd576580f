import Gamebook.Main
import Gamebook.Project.Navigation
import Gamebook.Proofs.Tree.Forest
import Gamebook.Proofs.Scene.Spans
import Gamebook.Proofs.Scene.Lines
import Gamebook.Proofs.Scene.Blocks
import Gamebook.Proofs.Phrase.Order
import Gamebook.Proofs.Scene.Cursor
import Gamebook.Proofs.Line.Append
import Gamebook.Proofs.Phrase.Alike
import Gamebook.Proofs.Line.Alike
import Gamebook.Proofs.Tree.Alike
import Gamebook.Proofs.Scene.Append
import Gamebook.Proofs.Scope.Declared
import Gamebook.Proofs.Scene.Replace
import Gamebook.Proofs.Reader.Sequence
import Gamebook.Proofs.Grammar.Derivation
import Gamebook.Proofs.Phrase.Shape
import Gamebook.Proofs.Grammar.Sound
import Gamebook.Proofs.Grammar.Complete
import Gamebook.Proofs.Tree.Shape
import Gamebook.Proofs.Scene.Print
import Gamebook.Proofs.Scene.Scopes
import Gamebook.Proofs.Scene.Lookup
import Gamebook.Proofs.Project.References
import Gamebook.Proofs.Project.Declaration
import Gamebook.Proofs.Project.Identifiers
import Gamebook.Proofs.Project.History
import Gamebook.Proofs.Project.Failure
import Gamebook.Proofs.Project.Isolation
import Gamebook.Proofs.Project.Temporary
import Gamebook.Proofs.Project.Ordering
import Gamebook.Proofs.Scanner.Tokens
import Gamebook.Proofs.Scene.Levels
import Gamebook.Proofs.Parser.Traceless
import Gamebook.Proofs.Parser.Prose
import Gamebook.Proofs.Parser.Command
import Gamebook.Proofs.Parser.Content
import Gamebook.Proofs.Parser.Hung
import Gamebook.Proofs.Parser.Layout
import Gamebook.Proofs.Parser.Lines
import Gamebook.Proofs.Parser.Margin
import Gamebook.Proofs.Parser.Scene
import Gamebook.Proofs.Lexeme.Munch
import Gamebook.Proofs.Scene.Markers
import Gamebook.Proofs.Grammar.Typed
import Gamebook.Proofs.Scene.Types
import Gamebook.Proofs.Checked.Command
import Gamebook.Proofs.Checked.Content
import Gamebook.Proofs.Checked.Layout
import Gamebook.Proofs.Checked.Scene
import Gamebook.Proofs.Scene.Options
import Gamebook.Proofs.Project.Naming
import Gamebook.Proofs.Scene.Modifiers
import Gamebook.Proofs.Scene.Siblings
import Gamebook.Proofs.Scene.Indentation
import Gamebook.Proofs.Scene.Words
import Gamebook.Proofs.Scene.Items
import Gamebook.Proofs.Scene.Visible
import Gamebook.Proofs.Scene.Literals
import Gamebook.Proofs.Tree.Building
import Gamebook.Proofs.Tree.Outline
import Gamebook.Proofs.Position.Bytes
import Gamebook.Proofs.Position.Lines
import Gamebook.Proofs.Scope.Innermost
