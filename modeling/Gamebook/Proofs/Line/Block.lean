import Gamebook.Scene

/-!
Blocks. A line that opens a block takes the lines below it as long as they go on with it, and lines that
open nothing take none; both are the same step, with a block that may be empty. Whatever is shown of the
phrases of some lines follows this step: it is shown of the block and of the lines behind it.
-/

namespace Gamebook.Line

/-- What is read on a line. -/
abbrev reading (context : Context) (line : Line) : Option Statement × Reader :=
  (Reader.ofLine line).statement context line.type

/-- The context of the block that the line opens, if it opens one. -/
def opened? (context : Context) (line : Line) : Option Context :=
  (line.reading context).1.bind (·.opens)

def inner (context : Context) (line : Line) : Context := (line.opened? context).getD context

/-- The lines of the block of a line, and the lines behind the block. -/
def below (context : Context) (line : Line) (more : List Line) : List Line × List Line :=
  if (line.opened? context).isSome then splitBlock line.width more else ([], more)

theorem phrases_cons (unit : Option IndentUnit) (context : Context) (line : Line) (more : List Line) :
    phrases unit context (line :: more) =
      line.phrase unit (line.reading context)
          (phrases unit (line.inner context) (line.below context more).1) ::
        phrases unit context (line.below context more).2 := by
  rw [phrases]
  cases hopened : line.opened? context with
  | none =>
      have hnone : (line.reading context).1.bind (·.opens) = none := hopened
      rw [hnone, below, hopened, if_neg (by simp), phrases]
  | some opens =>
      have hsome : (line.reading context).1.bind (·.opens) = some opens := hopened
      rw [hsome, below, inner, hopened]
      rfl

theorem splitBlock_append (width : Nat) (lines : List Line) :
    (splitBlock width lines).1 ++ (splitBlock width lines).2 = lines := by
  induction lines with
  | nil => rfl
  | cons line more ih =>
      unfold splitBlock
      split
      · exact congrArg (line :: ·) ih
      · rfl

theorem below_append (context : Context) (line : Line) (more : List Line) :
    (line.below context more).1 ++ (line.below context more).2 = more := by
  unfold below
  split
  · exact splitBlock_append line.width more
  · rfl

theorem length_below (context : Context) (line : Line) (more : List Line) :
    (line.below context more).1.length + (line.below context more).2.length = more.length := by
  rw [← List.length_append, below_append]

theorem block_sublist (context : Context) (line : Line) (more : List Line) :
    (line.below context more).1.Sublist (line :: more) := by
  have happend := List.sublist_append_left (line.below context more).1 (line.below context more).2
  rw [below_append] at happend
  exact happend.cons line

theorem rest_sublist (context : Context) (line : Line) (more : List Line) :
    (line.below context more).2.Sublist (line :: more) := by
  have happend := List.sublist_append_right (line.below context more).1 (line.below context more).2
  rw [below_append] at happend
  exact happend.cons line

/-- What holds of no lines, and of a line with more below it whenever it holds of the block of the line
and of the lines behind the block, holds of all lines. -/
theorem below_induction {motive : Context → List Line → Prop} (nil : ∀ context, motive context [])
    (cons : ∀ context line more, motive (line.inner context) (line.below context more).1 →
      motive context (line.below context more).2 → motive context (line :: more))
    (context : Context) (lines : List Line) : motive context lines := by
  induction hlength : lines.length using Nat.strongRecOn generalizing context lines with
  | ind size ih =>
      cases lines with
      | nil => exact nil context
      | cons line more =>
          have hbelow := length_below context line more
          rw [List.length_cons] at hlength
          exact cons context line more (ih _ (by omega) _ _ rfl) (ih _ (by omega) _ _ rfl)

/-! ### Where a block ends -/

theorem nextWidth?_eq (lines : List Line) :
    nextWidth? lines = (lines.find? fun line => !line.isBlank).map width := by
  induction lines with
  | nil => rfl
  | cons line more ih =>
      rw [nextWidth?, List.find?_cons]
      cases line.isBlank with
      | true => exact ih
      | false => rfl

theorem nextWidth?_append {lines : List Line} {width : Nat} (h : nextWidth? lines = some width)
    (more : List Line) : nextWidth? (lines ++ more) = some width := by
  induction lines with
  | nil => cases h
  | cons line rest ih =>
      rw [List.cons_append, nextWidth?]
      rw [nextWidth?] at h
      split
      · rename_i hblank
        rw [if_pos hblank] at h
        exact ih h
      · rename_i hblank
        rwa [if_neg hblank] at h

theorem continues_iff {width : Nat} {lines : List Line} :
    continues width lines = true ↔ ∃ next, nextWidth? lines = some next ∧ width < next := by
  rw [continues, Option.any_eq_true]
  simp only [decide_eq_true_eq]

theorem splitBlock_ne_nil {width : Nat} {lines : List Line} (h : continues width lines = true) :
    (splitBlock width lines).1 ≠ [] := by
  cases lines with
  | nil => cases h
  | cons line more =>
      rw [splitBlock, if_pos h]
      exact List.cons_ne_nil _ _

/-- Wherever a block is entered, a deeper line of the block comes next. -/
theorem continues_of_suffix {width : Nat} {lines suffix : List Line}
    (hsuffix : suffix <:+ (splitBlock width lines).1) (hne : suffix ≠ []) :
    continues width suffix = true := by
  induction lines generalizing suffix with
  | nil => exact absurd (List.suffix_nil.mp hsuffix) hne
  | cons line more ih =>
      rw [splitBlock] at hsuffix
      split at hsuffix
      · rename_i hgoes
        rcases List.suffix_cons_iff.mp hsuffix with rfl | hsuffix
        · rw [continues, nextWidth?] at hgoes ⊢
          split
          · rename_i hblank
            -- The block goes on below a blank line, where the next line is the same.
            rw [if_pos hblank] at hgoes
            exact ih List.suffix_rfl (splitBlock_ne_nil hgoes)
          · rename_i hblank
            rwa [if_neg hblank] at hgoes
        · exact ih hsuffix hne
      · exact absurd (List.suffix_nil.mp hsuffix) hne

theorem not_continues_splitBlock (width : Nat) (lines : List Line) :
    continues width (splitBlock width lines).2 = false := by
  induction lines with
  | nil => rfl
  | cons line more ih =>
      unfold splitBlock
      split
      · exact ih
      · rename_i hstop
        exact Bool.eq_false_iff.mpr hstop

end Gamebook.Line
