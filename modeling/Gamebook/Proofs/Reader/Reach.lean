import Gamebook.Reader
import Gamebook.Proofs.Phrase.Built
import Gamebook.Proofs.Text.Cut

/-!
Where a reader can get to. Whatever a rule does, its reader only takes the front of what is left and
changes its mode; all that holds of every reader which one reader can reach is derived from this. In
particular the places of a line, the ends of what can be taken, are never left, and the reader never goes
back.
-/

namespace Gamebook

namespace Reader

/-- The readers that a reader can become by taking what is in front of it and changing its mode. -/
inductive Reaches (r : Reader) : Reader → Prop
  | refl : Reaches r r
  | advance {behind : Reader} {taken left : Text} (h : Reaches r behind)
      (hsplit : behind.rest = taken ++ left) : Reaches r (behind.advance taken left)
  | switch {behind : Reader} (h : Reaches r behind) (mode : Mode) : Reaches r (behind.switch mode)

theorem Reaches.trans {r middle behind : Reader} (hfirst : r.Reaches middle)
    (hsecond : middle.Reaches behind) : r.Reaches behind := by
  induction hsecond with
  | refl => exact hfirst
  | advance _ hsplit ih => exact .advance ih hsplit
  | switch _ mode ih => exact .switch ih mode

theorem reaches_next (r : Reader) : r.Reaches r.next := by
  unfold next
  split
  · exact .refl
  · rename_i lexeme left hfirst
    exact .advance .refl (Lexeme.append_of_first? hfirst).symm

theorem reaches_nextRun (r : Reader) : r.Reaches r.nextRun :=
  .advance .refl (List.takeWhile_append_dropWhile).symm

theorem reaches_accept (r : Reader) (kind : TokenKind) : r.Reaches (r.accept kind).2 := by
  unfold accept
  split
  · exact r.reaches_next
  · exact .refl

theorem reaches_skipWithin (test : TokenKind → Bool) (budget : Nat) (r : Reader) :
    r.Reaches (skipWithin test budget r) := by
  induction budget generalizing r with
  | zero => exact .refl
  | succ budget ih =>
      unfold skipWithin
      split
      · exact .refl
      · split
        · exact .refl
        · exact r.reaches_next.trans (ih r.next)

theorem reaches_skipTo (r : Reader) (test : TokenKind → Bool) : r.Reaches (r.skipTo test) :=
  reaches_skipWithin test _ r

theorem reaches_skipLine (r : Reader) : r.Reaches r.skipLine := r.reaches_skipTo _

/-! ### What every reached reader keeps -/

def Trimmed (r : Reader) : Prop := ∀ c ∈ r.rest.head?, Text.isBlank c = false

theorem Reaches.trimmed {r behind : Reader} (h : r.Reaches behind) (htrimmed : r.Trimmed) :
    behind.Trimmed := by
  induction h with
  | refl => exact htrimmed
  | advance _ _ _ => exact Text.trimmed_dropWhile _
  | switch _ _ ih => exact ih

theorem Reaches.length_le {r behind : Reader} (h : r.Reaches behind) :
    behind.rest.length ≤ r.rest.length := by
  induction h with
  | refl => exact Nat.le_refl _
  | advance _ hsplit ih =>
      rename_i middle taken left _
      have hdrop : (left.dropWhile Text.isBlank).length ≤ left.length :=
        (List.dropWhile_sublist _).length_le
      have hlength : middle.rest.length = taken.length + left.length := by
        rw [hsplit, List.length_append]
      exact Nat.le_trans (by show (left.dropWhile Text.isBlank).length ≤ middle.rest.length; omega) ih
  | switch _ _ ih => exact ih

theorem Reaches.offset_le {r behind : Reader} (h : r.Reaches behind) : r.offset ≤ behind.offset := by
  induction h with
  | refl => exact Nat.le_refl _
  | advance _ _ ih => exact Nat.le_trans ih (Nat.le_trans (Nat.le_add_right _ _) (Nat.le_add_right _ _))
  | switch _ _ ih => exact ih

/-- What is left for a reader ends what was left before. -/
theorem Reaches.exists_front {r behind : Reader} (h : r.Reaches behind) :
    ∃ front, r.rest = front ++ behind.rest ∧ behind.offset = r.offset + Text.bytes front := by
  induction h with
  | refl => exact ⟨[], rfl, rfl⟩
  | @advance middle taken left _ hsplit ih =>
      obtain ⟨front, hrest, hoffset⟩ := ih
      refine ⟨front ++ taken ++ left.takeWhile Text.isBlank, ?_, ?_⟩
      · rw [hrest, hsplit, List.append_assoc, List.append_assoc]
        exact congrArg (fun left => front ++ (taken ++ left)) List.takeWhile_append_dropWhile.symm
      · rw [Text.bytes_append, Text.bytes_append, Text.bytes_takeWhile_isBlank, ← Nat.add_assoc, ← Nat.add_assoc, ← hoffset]
        rfl
  | switch _ _ ih => exact ih

/-- Where a reader stands tells what is left for it. -/
theorem Reaches.rest_eq {r behind : Reader} (h : r.Reaches behind) {taken left : Text} (hsplit : r.rest = taken ++ left)
    (hoffset : behind.offset = r.offset + Text.bytes taken) : behind.rest = left := by
  obtain ⟨front, hrest, hbehind⟩ := h.exists_front
  exact Text.left_inj (hrest.symm.trans hsplit) (Nat.add_left_cancel (hbehind.symm.trans hoffset))

def Ordered (r : Reader) : Prop := r.lastEnd ≤ r.offset

theorem Reaches.ordered {r behind : Reader} (h : r.Reaches behind) (hordered : r.Ordered) :
    behind.Ordered := by
  induction h with
  | refl => exact hordered
  | advance _ _ _ => exact Nat.le_add_right _ _
  | switch _ _ ih => exact ih

/-! ### Places -/

/-- An offset between the characters of what is left, or at one of its ends. -/
def Ahead (r : Reader) (offset : Nat) : Prop :=
  ∃ taken left, r.rest = taken ++ left ∧ offset = r.offset + Text.bytes taken

/-- The places of a reader: every offset at which something can begin or end, as far as the reader
can get, and the end of what was taken last. -/
def Site (r : Reader) (offset : Nat) : Prop := offset = r.lastEnd ∨ r.Ahead offset

theorem ahead_offset (r : Reader) : r.Ahead r.offset := ⟨[], r.rest, rfl, rfl⟩

theorem Ahead.offset_le {r : Reader} {offset : Nat} (h : r.Ahead offset) : r.offset ≤ offset := by
  obtain ⟨taken, _, _, rfl⟩ := h
  exact Nat.le_add_right _ _

theorem ahead_textEnd (r : Reader) : r.Ahead (r.offset + Text.bytes r.text) := by
  unfold text lexeme?
  cases hfirst : Lexeme.first? r.mode r.rest with
  | none => exact r.ahead_offset
  | some found => exact ⟨found.1.text, found.2, (Lexeme.append_of_first? hfirst).symm, rfl⟩

/-- What lies ahead of a reader lay ahead of it before. -/
theorem Reaches.ahead {r behind : Reader} {offset : Nat} (h : r.Reaches behind)
    (hahead : behind.Ahead offset) : r.Ahead offset := by
  induction h generalizing offset with
  | refl => exact hahead
  | advance _ hsplit ih =>
      rename_i middle taken left _
      obtain ⟨more, rest, hrest, rfl⟩ := hahead
      have hleft : left = left.takeWhile Text.isBlank ++ (more ++ rest) := by
        rw [← show left.dropWhile Text.isBlank = more ++ rest from hrest]
        exact (List.takeWhile_append_dropWhile).symm
      refine ih ⟨taken ++ left.takeWhile Text.isBlank ++ more, rest, ?_, ?_⟩
      · rw [hsplit, List.append_assoc, List.append_assoc, ← hleft]
      · rw [Text.bytes_append, Text.bytes_append, Text.bytes_takeWhile_isBlank, ← Nat.add_assoc,
          ← Nat.add_assoc]
        rfl
  | switch _ _ ih => exact ih hahead

theorem Reaches.site_lastEnd {r behind : Reader} (h : r.Reaches behind) : r.Site behind.lastEnd := by
  induction h with
  | refl => exact .inl rfl
  | advance h hsplit _ => exact .inr (h.ahead ⟨_, _, hsplit, rfl⟩)
  | switch _ _ ih => exact ih

theorem Reaches.site {r behind : Reader} {offset : Nat} (h : r.Reaches behind)
    (hsite : behind.Site offset) : r.Site offset := by
  rcases hsite with rfl | hahead
  · exact h.site_lastEnd
  · exact .inr (h.ahead hahead)

/-! ### The end of the line -/

theorem atEnd_iff {r : Reader} : r.atEnd = true ↔ r.rest = [] := List.isEmpty_iff

theorem kind?_eq_none_iff {r : Reader} : r.kind? = none ↔ r.rest = [] := by
  rw [kind?, lexeme?, Option.map_eq_none_iff, Option.map_eq_none_iff, Lexeme.first?_eq_none_iff]

theorem rest_ne_nil_of_kind? {r : Reader} {kind : TokenKind} (h : r.kind? = some kind) :
    r.rest ≠ [] := by
  intro hnil
  rw [kind?_eq_none_iff.mpr hnil] at h
  cases h

theorem rest_ne_nil_of_sees {r : Reader} {kind : TokenKind} (h : r.sees kind = true) : r.rest ≠ [] :=
  rest_ne_nil_of_kind? (eq_of_beq h)

theorem advance_length_lt {r : Reader} {taken left : Text} (hsplit : r.rest = taken ++ left)
    (htaken : taken ≠ []) : (r.advance taken left).rest.length < r.rest.length := by
  have hdrop : (left.dropWhile Text.isBlank).length ≤ left.length :=
    (List.dropWhile_sublist _).length_le
  have hpos : 0 < taken.length := List.length_pos_iff.mpr htaken
  have hlength : r.rest.length = taken.length + left.length := by rw [hsplit, List.length_append]
  show (left.dropWhile Text.isBlank).length < r.rest.length
  omega

theorem next_length_lt {r : Reader} (hrest : r.rest ≠ []) :
    r.next.rest.length < r.rest.length := by
  unfold next
  split
  · rename_i hfirst
    exact absurd (Lexeme.first?_eq_none_iff.mp hfirst) hrest
  · rename_i hfirst
    exact advance_length_lt (Lexeme.append_of_first? hfirst).symm (Lexeme.ne_nil_of_first? hfirst)

theorem textEnd_le_next (r : Reader) : r.offset + Text.bytes r.text ≤ r.next.offset := by
  unfold text lexeme? next
  cases Lexeme.first? r.mode r.rest with
  | none => exact Nat.le_refl _
  | some found => exact Nat.le_add_right _ _

/-- What is skipped includes the next lexeme, unless the skipping ends there. -/
theorem textEnd_le_skipTo {r : Reader} {test : TokenKind → Bool} (h : ∀ kind ∈ r.kind?, test kind = false) :
    r.offset + Text.bytes r.text ≤ (r.skipTo test).offset := by
  unfold skipTo
  cases hlength : r.rest.length with
  | zero =>
      have hnone : r.kind? = none := kind?_eq_none_iff.mpr (List.eq_nil_of_length_eq_zero hlength)
      have htext : r.text = [] := by
        unfold text
        rw [Option.map_eq_none_iff.mp hnone]
        rfl
      rw [htext]
      exact Nat.le_refl _
  | succ budget =>
      unfold skipWithin
      cases hkind : r.kind? with
      | none =>
          rw [kind?_eq_none_iff.mp hkind] at hlength
          cases hlength
      | some kind =>
          simp only [h kind hkind, Bool.false_eq_true, if_false]
          exact Nat.le_trans r.textEnd_le_next (reaches_skipWithin test budget r.next).offset_le

theorem run_ne_nil {r : Reader} (htrimmed : r.Trimmed) (hrest : r.rest ≠ []) : r.run ≠ [] := by
  obtain ⟨c, more, hcons⟩ := List.exists_cons_of_ne_nil hrest
  have hblank : Text.isBlank c = false := htrimmed c (by rw [hcons]; rfl)
  rw [run, hcons, List.takeWhile_cons, hblank]
  simp

theorem nextRun_length_lt {r : Reader} (htrimmed : r.Trimmed) (hrest : r.rest ≠ []) :
    r.nextRun.rest.length < r.rest.length :=
  advance_length_lt (List.takeWhile_append_dropWhile).symm (run_ne_nil htrimmed hrest)

theorem run_append (r : Reader) : r.rest = r.run ++ r.rest.dropWhile (!Text.isBlank ·) :=
  List.takeWhile_append_dropWhile.symm

theorem head?_behind_run (r : Reader) : ∀ c ∈ (r.rest.dropWhile (!Text.isBlank ·)).head?, Text.isBlank c = true := by
  intro c hc
  have hhead := List.head?_dropWhile_not (!Text.isBlank ·) r.rest
  rw [Option.mem_def.mp hc] at hhead
  simpa using hhead

theorem leafRun_range (r : Reader) (kind : Kind) :
    (r.leafRun kind).1.start = r.offset ∧ (r.leafRun kind).1.stop = r.offset + Text.bytes r.run :=
  ⟨Phrase.reach_start _ _, Nat.max_eq_right (Nat.le_add_right _ _)⟩

theorem skipWithin_rest {budget : Nat} {r : Reader} (hbudget : r.rest.length ≤ budget) :
    (skipWithin (fun _ => false) budget r).rest = [] := by
  induction budget generalizing r with
  | zero => exact List.eq_nil_of_length_eq_zero (Nat.le_zero.mp hbudget)
  | succ budget ih =>
      unfold skipWithin
      split
      · rename_i hkind
        exact kind?_eq_none_iff.mp hkind
      · rename_i kind hkind
        have hlt := next_length_lt (rest_ne_nil_of_kind? hkind)
        rw [if_neg Bool.false_ne_true]
        exact ih (by omega)

theorem skipLine_rest (r : Reader) : r.skipLine.rest = [] := skipWithin_rest (Nat.le_refl _)

end Reader

end Gamebook
