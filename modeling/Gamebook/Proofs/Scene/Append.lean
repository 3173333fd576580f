import Gamebook.Proofs.Line.Alike
import Gamebook.Proofs.Tree.Alike

/-!
Scenes put together. Where a text ends with a line break and what follows begins on the left margin, the
tree of the whole holds the lines of the front as they are and then those of the back, moved: nothing that
is read in front has an effect behind, apart from the unit of indentation.
-/

namespace Gamebook

/-- Everything is moved by the same distance, and so are the numbers of lines. -/
def Correspondence.moved (distance lines : Nat) (shown : Rule → Bool) : Correspondence where
  lines := lines
  range start stop start' stop' := start' = start + distance ∧ stop' = stop + distance
  ends stop stop' := stop' = stop + distance
  shown := shown
  ends_of_range h := h.2
  ends_max := by
    rintro left _ right _ rfl rfl
    exact Nat.add_max_add_right left right distance

open Correspondence (moved)

/-- What is below a node of one tree is below a node of the other tree, moved by a distance and by a number
of lines, with the markers of the rules that count. -/
def Tree.Moved (left right : Tree) (distance lines : Nat) (shown : Rule → Bool) : Nat → Nat → Prop :=
  left.Alike right (Tree.Agrees (moved distance lines shown) left right) fun _ _ => False

theorem Phrase.alike_self {property : Phrase → Prop} {gap : Phrase → Phrase → Prop} {shown : Rule → Bool}
    {phrase : Phrase} (h : phrase.Everywhere property) : phrase.Alike (moved 0 0 shown) gap phrase := by
  induction h with
  | intro _ _ ih =>
      refine alike_of_forall₂ ⟨(Kind.renumber_zero _).symm, ⟨rfl, rfl⟩, rfl, fun _ => ⟨rfl, rfl⟩, ?_⟩
        (List.forall₂_same.mpr ih)
      exact List.forall₂_same.mpr fun issue _ => ⟨rfl, rfl, rfl, rfl⟩

namespace Line

variable {front back : List Line} {unit unit' : Option IndentUnit}

/-! ### Blocks end at the left margin -/

theorem continues_append (hback : ∀ width, continues width back = false) (width : Nat) (front : List Line) :
    continues width (front ++ back) = continues width front := by
  induction front with
  | nil => exact hback width
  | cons line more ih =>
      rw [continues, continues] at ih ⊢
      rw [List.cons_append, nextWidth?, nextWidth?]
      split
      · exact ih
      · rfl

theorem splitBlock_append_back (hback : ∀ width, continues width back = false) (width : Nat)
    (front : List Line) : splitBlock width (front ++ back) =
      ((splitBlock width front).1, (splitBlock width front).2 ++ back) := by
  induction front with
  | nil =>
      cases back with
      | nil => rfl
      | cons line more =>
          show splitBlock width (line :: more) = ([], line :: more)
          rw [splitBlock, hback, if_neg Bool.false_ne_true]
  | cons line more ih =>
      have hcontinues := continues_append hback width (line :: more)
      rw [List.cons_append] at hcontinues ⊢
      rw [splitBlock, hcontinues, splitBlock, ih]
      split <;> rfl

theorem phrases_append (hback : ∀ width, continues width back = false) (unit : Option IndentUnit)
    (context : Context) (front : List Line) :
    phrases unit context (front ++ back) = phrases unit context front ++ phrases unit context back := by
  induction context, front using below_induction with
  | nil context =>
      rw [phrases, List.nil_append, List.nil_append]
  | cons context line more _ ih =>
      have hbelow : line.below context (more ++ back) =
          ((line.below context more).1, (line.below context more).2 ++ back) := by
        rw [below, below]
        split
        · exact splitBlock_append_back hback line.width more
        · rfl
      rw [List.cons_append, phrases_cons, hbelow, phrases_cons, ih, List.cons_append]

/-! ### The unit of indentation -/

theorem phrases_congr (context : Context) {lines : List Line}
    (h : ∀ line ∈ lines, line.indentation? unit = line.indentation? unit') :
    phrases unit context lines = phrases unit' context lines := by
  induction context, lines using below_induction with
  | nil context => rw [phrases, phrases]
  | cons context line more ihblock ihrest =>
      have hphrase : ∀ found block, line.phrase unit found block = line.phrase unit' found block := by
        intro found block
        rw [phrase, phrase, bare, bare, h line List.mem_cons_self]
      rw [phrases_cons, phrases_cons, hphrase,
        ihblock fun lower hlower => h lower ((block_sublist context line more).subset hlower),
        ihrest fun lower hlower => h lower ((rest_sublist context line more).subset hlower)]

theorem establishedUnit?_ne_mixed (lines : List Line) : establishedUnit? lines ≠ some .mixed := by
  intro h
  obtain ⟨line, _, hline⟩ := List.exists_of_findSome?_eq_some h
  simp only at hline
  split at hline
  · cases hline
  · rename_i hnot
    rw [Option.some.inj hline] at hnot
    simp at hnot

/-- Lines that establish no unit are marked or not whatever the unit is. -/
theorem indentation?_eq_of_none {lines : List Line} (hnone : establishedUnit? lines = none)
    (hunit : unit ≠ some .mixed) (hunit' : unit' ≠ some .mixed) {line : Line} (hline : line ∈ lines) :
    line.indentation? unit = line.indentation? unit' := by
  have hown : line.isBlank = false → line.isIndented = true → IndentUnit.ofRun line.indent = .mixed := by
    simpa using List.findSome?_eq_none_iff.mp hnone line hline
  rw [indentation?_eq, indentation?_eq]
  cases hblank : line.isBlank with
  | true => rw [Bool.true_or, Bool.true_or]
  | false =>
      cases hindented : line.isIndented with
      | false => rw [if_neg Bool.false_ne_true, if_neg Bool.false_ne_true]
      | true => rw [hown hblank hindented, decide_eq_false hunit, decide_eq_false hunit']

/-- The lines in front are marked as they would be without those behind. -/
theorem phrases_front (context : Context) (front back : List Line) :
    phrases (establishedUnit? (front ++ back)) context front = phrases (establishedUnit? front) context front := by
  refine phrases_congr context fun line hline => ?_
  have happend : establishedUnit? (front ++ back) = (establishedUnit? front).or (establishedUnit? back) :=
    List.findSome?_append
  cases hfront : establishedUnit? front with
  | some unit => rw [happend, hfront, Option.some_or]
  | none =>
      exact indentation?_eq_of_none hfront (establishedUnit?_ne_mixed _) (by simp) hline

theorem continues_eq_false {lines : List Line} (h : (lines.find? (!·.isBlank)).all (!·.isIndented) = true)
    (width : Nat) : continues width lines = false := by
  rw [continues, nextWidth?_eq]
  cases hfound : lines.find? (!·.isBlank) with
  | none => rfl
  | some line =>
      rw [hfound, Option.all_some, isIndented, Bool.not_not, List.isEmpty_iff] at h
      rw [Option.map_some, Option.any_some, Line.width, h]
      exact decide_eq_false (Nat.not_lt_zero _)

end Line

namespace Scene

variable (front back : Text) (name uri : Option String)

/-- The lines of a scene that is put together: those of the front, and those of the back further down. -/
theorem phrase_append {front back : Text} (hfront : Line.EndsLine front)
    (hback : ((Line.split back).find? (!·.isBlank)).all (!·.isIndented) = true) :
    ∃ behind, (phrase (front ++ back) name uri).parts = (phrase front name uri).parts ++ behind ∧
      List.Forall₂ (Phrase.Alike (moved (Text.bytes front) (front.count '\n') (· != .mixedIndentation))
        fun _ _ => False) (phrase back name uri).parts behind := by
  have hflush : ∀ width, Line.continues width (Line.lines back) = false := by
    refine Line.continues_eq_false ?_
    by_cases hnil : back = []
    · rw [hnil]
      rfl
    · rwa [Line.split_eq_lines hnil] at hback
  have hlines : List.Forall₂
      (Line.Alike (moved (Text.bytes front) (front.count '\n') (· != .mixedIndentation))) (Line.lines back)
      (Line.layOut (front.count '\n') (Text.bytes front) (Line.cut back)) := by
    refine Line.forall₂_layOut (Nat.zero_add _).symm ?_
    intro first last _ _
    exact ⟨rfl, rfl⟩
  have hcontinues : ∀ width, Line.continues width
      (Line.layOut (front.count '\n') (Text.bytes front) (Line.cut back)) = false := by
    intro width
    have hnext := Line.nextWidth?_forall₂ (fun _ _ halike => ⟨halike.width_eq, halike.isBlank_eq⟩) hlines
    rw [Line.continues, hnext]
    exact hflush width
  have harranged := Line.arranged_lines (front ++ back)
  rw [Line.lines_append hfront] at harranged
  refine ⟨Line.phrases (Line.establishedUnit? (Line.lines (front ++ back))) .scene
    (Line.layOut (front.count '\n') (Text.bytes front) (Line.cut back)), ?_, ?_⟩
  · rw [parts_phrase, parts_phrase, Line.lines_append hfront, Line.phrases_append hcontinues,
      Line.phrases_front]
  · rw [parts_phrase]
    have hbehind := harranged.sublist (List.sublist_append_right _ _)
    have hgaps : Phrase.Gaps (moved (Text.bytes front) (front.count '\n') (· != .mixedIndentation)) fun _ _ => False :=
      ⟨False.elim, False.elim⟩
    refine Line.phrases_alike (fun _ _ => False) (fun _ => True) (fun _ => True) hgaps (.inr rfl) (fun _ _ => False.elim)
      (fun _ _ _ _ _ => False.elim) (fun _ _ _ => False.elim) .scene (Line.arranged_lines back) hbehind
      (hlines.imp fun _ _ => .inl) ?_ ?_
    · exact fun part hpart =>
        (Line.phrases_built .scene (Line.arranged_lines back) part hpart).sound.mono fun _ _ => trivial
    · exact fun part hpart => (Line.phrases_built .scene hbehind part hpart).sound.mono fun _ _ => trivial

variable {front back}

/-- The nodes below the root of a scene that is put together at a line break, with the left margin behind
it: those of the front, and those of the back moved by the front. Only the marks for mixed indentation
behind depend on what is in front. -/
theorem parse_append (hfront : Line.EndsLine front)
    (hback : ((Line.split back).find? (!·.isBlank)).all (!·.isIndented) = true) (levels : Levels) :
    ∃ left right, (parse (front ++ back) name uri levels).children Tree.root = left ++ right ∧
      List.Forall₂ ((parse front name uri levels).Moved (parse (front ++ back) name uri levels) 0 0
        fun _ => true) ((parse front name uri levels).children Tree.root) left ∧
      List.Forall₂ ((parse back name uri levels).Moved (parse (front ++ back) name uri levels)
        (Text.bytes front) (front.count '\n') (· != .mixedIndentation))
        ((parse back name uri levels).children Tree.root) right := by
  obtain ⟨behind, hparts, hbehind⟩ := phrase_append name uri hfront hback
  have hsub := fun text => Phrase.parts_subset_entries none 0 (phrase text name uri) _
    (Phrase.mem_entries_self none 0 _)
  have hentries := TreeEntry.map_phrase_parts ⟨0, none, phrase (front ++ back) name uri⟩
  rw [hparts] at hentries
  obtain ⟨left, right, hsplit, hleft, hright⟩ := List.map_eq_append_iff.mp hentries
  have hwhole := hsub (front ++ back)
  rw [hsplit] at hwhole
  refine ⟨left.map TreeEntry.id, right.map TreeEntry.id, ?_, ?_, ?_⟩
  · rw [children_root, hsplit, List.map_append]
  · rw [children_root]
    have hsame : List.Forall₂ (Phrase.Alike (moved 0 0 fun _ => true) fun _ _ => False)
        ((TreeEntry.parts ⟨0, none, phrase front name uri⟩).map TreeEntry.phrase) (left.map TreeEntry.phrase) := by
      rw [TreeEntry.map_phrase_parts, hleft]
      exact List.forall₂_same.mpr fun part hpart =>
        Phrase.alike_self ((phrase_built front name uri).sound.part hpart)
    exact Phrase.forall₂_toTree (fun _ hentry _ hentry' hagrees _ => agrees_toTree _ _ _ _ hentry hentry' hagrees)
      (by exact fun _ _ _ _ => id)
      (hsub front) (List.Subset.trans (List.subset_append_left _ _) hwhole) hsame
  · rw [children_root]
    rw [← TreeEntry.map_phrase_parts ⟨0, none, phrase back name uri⟩, ← hright] at hbehind
    exact Phrase.forall₂_toTree (fun _ hentry _ hentry' hagrees _ => agrees_toTree _ _ _ _ hentry hentry' hagrees)
      (by exact fun _ _ _ _ => id)
      (hsub back) (List.Subset.trans (List.subset_append_right _ _) hwhole) hbehind

theorem parse_append_block : Line.EndsLine "*if x\n  a\n".toList ∧
    ∃ left right, (parse ("*if x\n  a\n".toList ++ "b\n\tc\n".toList) none none {}).children Tree.root =
        left ++ right ∧
      List.Forall₂ ((parse "*if x\n  a\n".toList none none {}).Moved
        (parse ("*if x\n  a\n".toList ++ "b\n\tc\n".toList) none none {}) 0 0 fun _ => true)
        ((parse "*if x\n  a\n".toList none none {}).children Tree.root) left ∧
      List.Forall₂ ((parse "b\n\tc\n".toList none none {}).Moved
        (parse ("*if x\n  a\n".toList ++ "b\n\tc\n".toList) none none {}) (Text.bytes "*if x\n  a\n".toList)
        ("*if x\n  a\n".toList.count '\n') (· != .mixedIndentation))
        ((parse "b\n\tc\n".toList none none {}).children Tree.root) right := by
  have hfront : Line.EndsLine "*if x\n  a\n".toList := .inr ⟨"*if x\n  a".toList, by decide +kernel⟩
  exact ⟨hfront, parse_append none none hfront (by decide +kernel) {}⟩

end Scene

end Gamebook
