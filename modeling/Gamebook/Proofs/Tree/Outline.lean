import Gamebook.Tree.Outline
import Gamebook.Proofs.Tree.Walk

/-!
Drawings. A drawing has a line for each node, in the order of a walk from the root. The margin of a line has
two characters for every node between the root and the parent of the node, then the line turns to the node.
As long as no name holds a line feed the lines are just those of the nodes, for a caption shows no more than
one line of the text.
-/

namespace Gamebook

/-- Where a node stands in a drawing: for the node and for each of those above it but the root whether it is
the last child of its parent, from the top down. -/
structure Spot where
  id : Nat
  trail : List Bool

def Spot.depth (spot : Spot) : Nat := spot.trail.length

namespace Rose

def parts : Rose → List Rose
  | node _ below => below

mutual

/-- The nodes and where they stand, parents first. -/
def spots (trail : List Bool) : Rose → List Spot
  | node id below => ⟨id, trail⟩ :: spotsOf trail below

def spotsOf (trail : List Bool) : List Rose → List Spot
  | [] => []
  | rose :: more => rose.spots (trail ++ [more.isEmpty]) ++ spotsOf trail more

end

theorem spots_eq (trail : List Bool) (rose : Rose) :
    rose.spots trail = ⟨rose.id, trail⟩ :: spotsOf trail rose.parts := by
  cases rose
  rfl

mutual

theorem map_id_spots (trail : List Bool) : (rose : Rose) → (rose.spots trail).map Spot.id = rose.ids
  | node id below => by rw [spots, List.map_cons, map_id_spotsOf trail below, ids_node]

theorem map_id_spotsOf (trail : List Bool) : (roses : List Rose) →
    (spotsOf trail roses).map Spot.id = roses.flatMap ids
  | [] => rfl
  | rose :: more => by
      rw [spotsOf, List.map_append, map_id_spots _ rose, map_id_spotsOf trail more, List.flatMap_cons]

end

end Rose

namespace Tree

/-- What stands in front of a line, by whether the nodes above are last children: nothing goes on below
those that are. -/
def margin (trail : List Bool) : String := String.join (trail.map fun last => if last then "  " else "│ ")

def corner (last : Bool) : String := if last then "└─" else "├─"

def draw (tree : Tree) (spot : Spot) : String :=
  match spot.trail.getLast? with
  | none => tree.caption spot.id
  | some last => margin spot.trail.dropLast ++ corner last ++ " " ++ tree.caption spot.id

theorem margin_snoc (trail : List Bool) (last : Bool) :
    margin (trail ++ [last]) = margin trail ++ if last then "  " else "│ " := by
  rw [margin, List.map_append, String.join_append, List.map_singleton, String.join_cons, String.join_nil,
    String.append_empty]
  rfl

theorem length_margin (trail : List Bool) : (margin trail).length = 2 * trail.length := by
  induction trail with
  | nil => rfl
  | cons last more ih =>
      have hfirst : (if last then "  " else "│ ").length = 2 := by cases last <;> rfl
      rw [margin, List.map_cons, String.join_cons, String.length_append, hfirst, ← margin, ih, List.length_cons]
      omega

theorem draw_snoc (tree : Tree) (id : Nat) (trail : List Bool) (last : Bool) :
    tree.draw ⟨id, trail ++ [last]⟩ = margin trail ++ corner last ++ " " ++ tree.caption id := by
  rw [draw, List.getLast?_concat, List.dropLast_concat]

/-- The lines below a node are those of the spots below it. -/
theorem branches_eq (tree : Tree) (depth id : Nat) (trail : List Bool) :
    branches tree (margin trail) depth id = (Rose.spotsOf trail (tree.unfold depth id).parts).map tree.draw := by
  induction depth generalizing id trail with
  | zero =>
      rw [branches]
      rfl
  | succ depth ih =>
      have hlist : ∀ ids, branchList tree (margin trail) depth ids =
          (Rose.spotsOf trail (ids.map (tree.unfold depth))).map tree.draw := by
        intro ids
        induction ids with
        | nil =>
            rw [branchList]
            rfl
        | cons child more ihMore =>
            have hbelow := ih child (trail ++ [more.isEmpty])
            rw [margin_snoc] at hbelow
            rw [branchList, ihMore, hbelow, List.map_cons, Rose.spotsOf, Rose.spots_eq, List.isEmpty_map, id_unfold,
              List.map_append, List.map_cons, draw_snoc]
            cases more <;> simp [corner, String.append_assoc]
      rw [branches, hlist]
      rfl

theorem outline_eq (tree : Tree) : tree.outline =
    String.join (((tree.unfold tree.size root).spots []).map fun spot => tree.draw spot ++ "\n") := by
  have hbranches := tree.branches_eq tree.size root []
  have hlines : tree.caption root :: branches tree "" tree.size root =
      ((tree.unfold tree.size root).spots []).map tree.draw := by
    rw [Rose.spots_eq, id_unfold, List.map_cons, ← hbranches]
    rfl
  rw [outline, hlines, List.map_map]
  rfl

end Tree

/-! ### Line feeds -/

namespace Text

variable {separator : Char} {text part line : Text} {parts : List Text}

theorem splitOn_cons (h : splitOn separator text = part :: parts) (c : Char) : splitOn separator (c :: text) =
    if c = separator then [] :: part :: parts else (c :: part) :: parts := by
  rw [splitOn] at h ⊢
  rw [List.foldr_cons, h]

theorem exists_splitOn (separator : Char) (text : Text) : ∃ part parts, splitOn separator text = part :: parts := by
  induction text with
  | nil => exact ⟨[], [], rfl⟩
  | cons c more ih =>
      obtain ⟨part, parts, hmore⟩ := ih
      rw [splitOn_cons hmore]
      split
      · exact ⟨[], part :: parts, rfl⟩
      · exact ⟨c :: part, parts, rfl⟩

theorem splitOn_line (h : separator ∉ line) (rest : Text) :
    splitOn separator (line ++ separator :: rest) = line :: splitOn separator rest := by
  induction line with
  | nil =>
      obtain ⟨part, parts, hrest⟩ := exists_splitOn separator rest
      rw [List.nil_append, splitOn_cons hrest, if_pos rfl, hrest]
  | cons c more ih =>
      rw [List.mem_cons, not_or] at h
      rw [List.cons_append, splitOn_cons (ih h.2), if_neg (Ne.symm h.1)]

theorem splitOn_lines {lines : List Text} (h : ∀ line ∈ lines, separator ∉ line) :
    splitOn separator (lines.flatMap fun line => line ++ [separator]) = lines ++ [[]] := by
  induction lines with
  | nil => rfl
  | cons line more ih =>
      rw [List.forall_mem_cons] at h
      rw [List.flatMap_cons, List.append_assoc, List.singleton_append, splitOn_line h.1, ih h.2, List.cons_append]

end Text

def OneLine (s : String) : Prop := '\n' ∉ s.toList

instance (s : String) : Decidable (OneLine s) := inferInstanceAs (Decidable (¬_))

theorem oneLine_append {left right : String} : OneLine (left ++ right) ↔ OneLine left ∧ OneLine right := by
  rw [OneLine, String.toList_append, List.mem_append, not_or]
  rfl

theorem oneLine_toString (n : Nat) : OneLine (toString n) := by
  rw [OneLine, Nat.toString_eq_ofList_toDigits, String.toList_ofList]
  intro hmem
  exact absurd (Nat.isDigit_of_mem_toDigits (by decide) (by decide) hmem) (by decide)

namespace Kind

/-- The name that a node of a kind carries along. -/
def payload? : Kind → Option String
  | scene name _ => name
  | command name | standardCommand name | flowCommand name => some name
  | _ => none

theorem oneLine_name (kind : Kind) : OneLine kind.name := by
  cases kind <;> (rw [name]; decide)

theorem oneLine_commandName {kind : Kind} (h : ∀ name ∈ kind.payload?, OneLine name) :
    ∀ name ∈ kind.commandName?, OneLine name := by
  intro name hname
  cases kind with
  | command own | standardCommand own | flowCommand own => exact h name hname
  | setCommand byReference => cases byReference <;> (cases hname; decide)
  | choiceCommand fake => cases fake <;> (cases hname; decide)
  | variableDeclaration declaration => cases declaration <;> (cases hname; decide)
  | randCommand | labelDeclaration =>
      cases hname
      decide
  | _ => cases hname

theorem oneLine_detail {kind : Kind} (h : ∀ name ∈ kind.payload?, OneLine name) :
    ∀ detail ∈ kind.detail?, OneLine detail := by
  intro detail hdetail
  cases kind with
  | scene name uri => exact h detail hdetail
  | line number indent type =>
      have hname : OneLine type.name := by cases type <;> decide
      cases hdetail
      simp only [oneLine_append]
      exact ⟨⟨⟨⟨⟨by decide, oneLine_toString number⟩, by decide⟩, hname⟩, by decide⟩, oneLine_toString indent⟩
  | indentation depth unit =>
      have hname : OneLine unit.name := by cases unit <;> decide
      cases hdetail
      simp only [oneLine_append]
      exact ⟨⟨oneLine_toString depth, by decide⟩, hname⟩
  | boolean value => cases value <;> (cases hdetail; decide)
  | operator op type => cases op <;> (cases hdetail; decide)
  | term type form =>
      have hform : OneLine form.render := by
        cases form with
        | call function => cases function <;> decide
        | _ => decide
      have hname : OneLine type.name := by cases type <;> decide
      cases hdetail
      exact oneLine_append.mpr ⟨oneLine_append.mpr ⟨hform, by decide⟩, hname⟩
  | choiceOption reuse conditional =>
      have hall : (choiceOption reuse conditional).detail?.all (fun detail => decide (OneLine detail)) = true := by
        rcases reuse with _ | _ | _ | _ <;> cases conditional <;> decide
      rw [Option.mem_def] at hdetail
      rw [hdetail] at hall
      exact of_decide_eq_true hall
  | variableReplacement fold => cases fold <;> (cases hdetail; decide)
  | expression type | binaryExpression type | stringExpression type => cases type <;> (cases hdetail; decide)
  | _ => exact oneLine_commandName h detail hdetail

/-- A kind is shown on one line unless its name takes more. -/
theorem oneLine_render {kind : Kind} (h : ∀ name ∈ kind.payload?, OneLine name) : OneLine kind.render := by
  have hname := oneLine_name kind
  rw [render]
  split
  · rename_i detail hdetail
    have hinside := oneLine_detail h detail hdetail
    simp only [oneLine_append]
    exact ⟨⟨⟨hname, by decide⟩, hinside⟩, by decide⟩
  · exact hname

end Kind

namespace Tree

theorem oneLine_excerpt (text : Text) : '\n' ∉ excerpt text := by
  intro hmem
  have hline : '\n' ∈ Text.trimEnd (text.takeWhile (· != '\n')) := by
    rw [excerpt] at hmem
    split at hmem
    · rcases List.mem_append.mp hmem with hshown | hdots
      · exact List.mem_of_mem_take hshown
      · simp at hdots
    · exact hmem
  rw [Text.trimEnd, List.mem_reverse] at hline
  have hkept := List.all_eq_true.mp List.all_takeWhile _ (List.mem_reverse.mp ((List.dropWhile_sublist _).mem hline))
  simp at hkept

theorem oneLine_caption {tree : Tree} {id : Nat} (h : ∀ kind ∈ tree.kind? id, ∀ name ∈ kind.payload?, OneLine name) :
    OneLine (tree.caption id) := by
  have hkind : OneLine (((tree.kind? id).map (·.render)).getD "") := by
    cases hkind : tree.kind? id with
    | none => decide
    | some kind => exact Kind.oneLine_render (h kind hkind)
  have hissues : OneLine (issueCount (tree.issues id).length) := by
    unfold issueCount
    split
    · decide
    · decide
    · simp only [oneLine_append]
      exact ⟨⟨by decide, oneLine_toString _⟩, by decide⟩
  have hquoted : ∀ shown : Text, '\n' ∉ shown →
      OneLine (if shown.isEmpty then "" else " \"" ++ String.ofList shown ++ "\"") := by
    intro shown hshown
    split
    · decide
    · refine oneLine_append.mpr ⟨oneLine_append.mpr ⟨by decide, ?_⟩, by decide⟩
      rwa [OneLine, String.toList_ofList]
  refine oneLine_append.mpr ⟨oneLine_append.mpr ⟨hkind, hquoted _ ?_⟩, hissues⟩
  split
  · exact List.not_mem_nil
  · exact oneLine_excerpt _

theorem oneLine_margin (trail : List Bool) : OneLine (margin trail) := by
  induction trail with
  | nil => decide
  | cons last more ih =>
      rw [margin, List.map_cons, String.join_cons]
      exact oneLine_append.mpr ⟨by cases last <;> decide, ih⟩

theorem oneLine_draw {tree : Tree} {spot : Spot}
    (h : ∀ kind ∈ tree.kind? spot.id, ∀ name ∈ kind.payload?, OneLine name) : OneLine (tree.draw spot) := by
  have hcaption := oneLine_caption h
  rw [draw]
  split
  · exact hcaption
  · rename_i last _
    simp only [oneLine_append]
    exact ⟨⟨⟨oneLine_margin _, by cases last <;> decide⟩, by decide⟩, hcaption⟩

/-- A drawing goes through the rose below the root. -/
structure Draws (tree : Tree) (rose : Rose) : Prop where
  /-- One line for each spot, and a line feed behind it. -/
  lines : tree.outline = String.join ((rose.spots []).map fun spot => tree.draw spot ++ "\n")
  order : (rose.spots []).map Spot.id = rose.ids
  /-- The root has no margin; a node below it has two characters of margin for each level between. -/
  top : ∀ spot ∈ rose.spots [], spot.depth = 0 → tree.draw spot = tree.caption spot.id
  hung : ∀ spot ∈ rose.spots [], 0 < spot.depth → ∃ front last, front.length = 2 * (spot.depth - 1) ∧
    tree.draw spot = front ++ corner last ++ " " ++ tree.caption spot.id
  /-- The lines cannot be told otherwise when no name goes over more than one. -/
  split : (∀ id ∈ rose.ids, ∀ kind ∈ tree.kind? id, ∀ name ∈ kind.payload?, OneLine name) →
    Text.splitOn '\n' tree.outline.toList = (rose.spots []).map (fun spot => (tree.draw spot).toList) ++ [[]]

theorem draws_unfold (tree : Tree) : tree.Draws (tree.unfold tree.size root) where
  lines := tree.outline_eq
  order := Rose.map_id_spots [] _
  top := by
    intro spot _ hdepth
    obtain ⟨id, trail⟩ := spot
    obtain rfl : trail = [] := List.length_eq_zero_iff.mp hdepth
    rfl
  hung := by
    intro spot _ hdepth
    obtain ⟨id, trail⟩ := spot
    have hne : trail ≠ [] := List.length_pos_iff.mp hdepth
    refine ⟨margin trail.dropLast, trail.getLast hne, ?_, ?_⟩
    · rw [length_margin, List.length_dropLast]
      rfl
    · rw [← draw_snoc, List.dropLast_concat_getLast]
  split := by
    intro hnames
    have hlines : ∀ line ∈ ((tree.unfold tree.size root).spots []).map (fun spot => (tree.draw spot).toList),
        '\n' ∉ line := by
      intro line hline
      obtain ⟨spot, hspot, rfl⟩ := List.mem_map.mp hline
      refine oneLine_draw (hnames spot.id ?_)
      rw [← Rose.map_id_spots []]
      exact List.mem_map_of_mem hspot
    rw [outline_eq, String.toList_join, List.flatMap_map, ← Text.splitOn_lines hlines, List.flatMap_map]
    simp only [String.toList_append]
    rfl

/-- Where no node stands below itself, what hangs below a node is a rose, and walks, tours and drawings go
through it as the recursion does. -/
theorem Acyclic.follows_roses {tree : Tree} (h : tree.Acyclic) (start : Nat) :
    ∃ rose : Rose, rose.id = start ∧ rose.Mirrors tree ∧ tree.Follows rose ∧ (start = root → tree.Draws rose) := by
  have hmirrors := h.mirrors_unfold start
  refine ⟨tree.unfold tree.size start, tree.id_unfold _ start, hmirrors, follows_unfold hmirrors, ?_⟩
  rintro rfl
  exact tree.draws_unfold

/-- A word that hangs below two others. -/
def shared : Tree := ⟨"ab".toList, #[{ kind := .textLine, offset := 0, length := 2, children := [1, 2] },
  { kind := .realWord, offset := 0, length := 1, children := [3] },
  { kind := .realWord, offset := 1, length := 1, children := [3] },
  { kind := .realWord, offset := 0, length := 2, parent := some 1 }]⟩

theorem follows_shared : shared.Acyclic ∧ (∃ rose : Rose, rose.id = root ∧ rose.Mirrors shared ∧
    Follows.{0} shared rose ∧ (root = root → shared.Draws rose)) ∧ shared.preorder root = [0, 1, 3, 2, 3] := by
  have hlt : ∀ above < 4, ∀ id ∈ shared.children above, above < id := by decide
  have hacyclic := acyclic_of_lt fun above id (h : shared.Descends above id) => hlt above h.lt_size id h
  exact ⟨hacyclic, hacyclic.follows_roses root, by decide⟩

end Tree

end Gamebook
