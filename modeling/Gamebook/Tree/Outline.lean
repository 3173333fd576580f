import Gamebook.Tree.Query

/-!
Trees as drawings: one line for each node, its kind, the beginning of its text and the number of
its markers, hung below its parent with box characters.
-/

namespace Gamebook.Tree

/-- The longest excerpt of a text that a drawing shows, in characters. -/
def excerptLimit : Nat := 30

/-- What a drawing shows of a text: its first line, without white space at the end. -/
def excerpt (text : Text) : Text :=
  let line := Text.trimEnd (text.takeWhile (· != '\n'))
  if excerptLimit < line.length then line.take excerptLimit ++ ['.', '.', '.'] else line

/-- The number of markers in brackets; nothing when there are none. -/
def issueCount : Nat → String
  | 0 => ""
  | 1 => " [1 issue]"
  | n => s!" [{n} issues]"

/-- A node on one line. The text of the root is left out. -/
def caption (tree : Tree) (id : Nat) : String :=
  let kind := ((tree.kind? id).map (·.render)).getD ""
  let shown := if id = root then [] else excerpt (tree.text id)
  let quoted := if shown.isEmpty then "" else " \"" ++ String.ofList shown ++ "\""
  kind ++ quoted ++ issueCount (tree.issues id).length

mutual

/-- The lines of the nodes below a node, to a depth of at most `budget`. -/
def branches (tree : Tree) (margin : String) : Nat → Nat → List String
  | 0, _ => []
  | budget + 1, id => branchList tree margin budget (tree.children id)
termination_by budget => (budget, 0)

/-- The lines of siblings and of what is below them. -/
def branchList (tree : Tree) (margin : String) (budget : Nat) : List Nat → List String
  | [] => []
  | id :: more =>
    let corner := if more.isEmpty then "└─ " else "├─ "
    let below := if more.isEmpty then "  " else "│ "
    (margin ++ corner ++ caption tree id) ::
      (branches tree (margin ++ below) budget id ++ branchList tree margin budget more)
termination_by ids => (budget, ids.length + 1)

end

/-- The drawing of the whole tree, every line ended by a line feed. -/
def outline (tree : Tree) : String :=
  let lines := tree.caption root :: branches tree "" tree.size root
  String.join (lines.map (· ++ "\n"))

end Gamebook.Tree
