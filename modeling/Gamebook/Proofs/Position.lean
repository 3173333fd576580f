import Gamebook.Proofs.Line.Cutting

/-!
Positions and lines. The index of a text holds the starts of its lines, and one place more where the text
ends with a line break; so the line of a position is the line in which the offset stands.
-/

namespace Gamebook

namespace Line

/-- The starts that an index finds are those of the lines, and the end of a text that ends with a line
break or is empty. -/
theorem starts_cut (number start : Nat) (text : Text) :
    start :: LineIndex.startsFrom start text = (layOut number start (cut text)).map Line.start ++
      if text.getLast?.all (· == '\n') then [start + Text.bytes text] else [] := by
  induction text using cut_induction generalizing number start with
  | nil => rfl
  | feed text cuts ih =>
      have hlast : ('\n' :: text).getLast?.all (· == '\n') = text.getLast?.all (· == '\n') := by
        rw [List.getLast?_cons]
        cases text.getLast? <;> rfl
      have hrest := ih (number + 1) (start + 1)
      rw [Nat.add_assoc start 1] at hrest
      rw [LineIndex.startsFrom, if_pos rfl, layOut, List.map_cons, hlast, Text.bytes_cons, List.cons_append]
      exact congrArg (start :: ·) hrest
  | single c hfeed => simp [layOut, ofBody, LineIndex.startsFrom, hfeed]
  | carriage text more hne ih =>
      have hrest := ih number (start + 1)
      have hbehind : start + Text.bytes [] + Text.bytes LineEnding.crlf.text =
        start + 1 + Text.bytes [] + Text.bytes LineEnding.lf.text := rfl
      have hend : start + Text.bytes ('\r' :: text) = start + 1 + Text.bytes text := (Nat.add_assoc start 1 _).symm
      rw [layOut, List.map_cons, List.cons_append, List.cons.injEq] at hrest
      rw [LineIndex.startsFrom, if_neg (by decide), layOut, List.map_cons, List.cons_append, hbehind, hend,
        List.getLast?_cons_of_ne_nil hne]
      exact congrArg (start :: ·) hrest.2
  | char c text body ending more hne hfeed hreturn ih =>
      have hrest := ih number (start + c.utf8Size)
      rw [layOut, List.map_cons, List.cons_append, List.cons.injEq] at hrest
      rw [LineIndex.startsFrom, if_neg hfeed, layOut, List.map_cons, List.cons_append, Text.bytes_cons,
        Text.bytes_cons, ← Nat.add_assoc start, ← Nat.add_assoc start, List.getLast?_cons_of_ne_nil hne]
      exact congrArg (start :: ·) hrest.2

theorem ending_ne_nil {line : Line} (h : line.hasBreak = true) : line.ending.text ≠ [] := by
  cases hending : line.ending <;> simp [hasBreak, hending, LineEnding.text] at h ⊢

/-- A source that ends with a line without break does not end with a line feed. -/
theorem getLast?_ne_of_noBreak {source : Text} {line : Line} (h : line ∈ split source) (hbreak : ¬line.hasBreak = true) :
    source.getLast? ≠ some '\n' := by
  by_cases hsource : source = []
  · simp [hsource]
  · obtain ⟨front, back, hsplit⟩ := List.append_of_mem h
    obtain rfl := nil_of_noBreak hsplit hbreak
    have hending : line.ending = .none := by simpa [hasBreak] using hbreak
    have hwhole : line.whole = line.indent ++ line.content := by simp [whole, hending, LineEnding.text]
    have hne : line.indent ++ line.content ≠ [] := by
      intro hnil
      have hlt := start_lt_stop hsource h
      rw [← bytes_whole, hwhole, hnil] at hlt
      exact Nat.lt_irrefl _ hlt
    have hflat := flatMap_split source
    rw [hsplit, List.flatMap_append, List.flatMap_singleton, hwhole] at hflat
    have hclean := clean_of_mem_split h
    obtain ⟨c, hc⟩ := Option.isSome_iff_exists.mp (List.getLast?_isSome.mpr hne)
    intro hlast
    rw [← hflat, List.getLast?_append, hc, Option.some_or, ← hc] at hlast
    rcases List.mem_append.mp (List.mem_of_getLast? hlast) with hmem | hmem
    · exact absurd (hclean.indent _ hmem) (by decide)
    · exact hclean.feed hmem

/-- The index starts a line where each line starts, and one more behind a line feed that ends the source. -/
theorem starts_ofText (source : Text) : (LineIndex.ofText source).starts.toList =
    (split source).map start ++ if source.getLast? = some '\n' then [Text.bytes source] else [] := by
  by_cases hsource : source = []
  · subst hsource
    rfl
  · obtain ⟨c, hlast⟩ := Option.isSome_iff_exists.mp (List.getLast?_isSome.mpr hsource)
    have hstarts := starts_cut 0 0 source
    rw [← lines, ← split_eq_lines hsource, Nat.zero_add] at hstarts
    simpa [LineIndex.ofText, hlast] using hstarts

end Line

/-- A weaker test holds at least as long. -/
theorem length_takeWhile_mono {test weaker : α → Bool} (h : ∀ element, test element = true → weaker element = true)
    (elements : List α) : (elements.takeWhile test).length ≤ (elements.takeWhile weaker).length := by
  induction elements with
  | nil => exact Nat.le_refl _
  | cons element more ih =>
      rw [List.takeWhile_cons, List.takeWhile_cons]
      split
      · rename_i hpass
        rw [if_pos (h element hpass)]
        exact Nat.succ_le_succ ih
      · exact Nat.zero_le _

namespace LineIndex

variable {source : Text} {index offset : Nat} {line : Line}

/-- The position of an offset in front of the end of a line's content, or at that end, names the line. -/
theorem line_position_content (hline : (Line.split source)[index]? = some line) (hfrom : line.start ≤ offset)
    (hto : offset < line.stop ∨ offset ≤ line.contentEnd) : ((ofText source).position offset).line = index := by
  have harranged := Line.arranged_split source
  have hmem := List.mem_of_getElem? hline
  obtain ⟨front, back, hsplit, rfl, habove, hbelow⟩ := harranged.getElem? hline
  have hstarts := Line.starts_ofText source
  have hsize := (harranged.within line hmem).stop_le
  -- Either the next start lies behind the offset, or there is none.
  have hlast : offset < line.stop ∨ (offset ≤ line.stop ∧ back = [] ∧ source.getLast? ≠ some '\n') := by
    by_cases hbreak : line.hasBreak = true
    · left
      rcases hto with hto | hto
      · exact hto
      · exact Nat.lt_of_le_of_lt hto (Nat.lt_add_of_pos_right (Text.bytes_pos (Line.ending_ne_nil hbreak)))
    · have hle : line.contentEnd ≤ line.stop := Nat.le_add_right _ _
      exact .inr ⟨by omega, Line.nil_of_noBreak hsplit hbreak, Line.getLast?_ne_of_noBreak hmem hbreak⟩
  have hoffset : min offset (ofText source).size = offset :=
    Nat.min_eq_left (Nat.le_trans (by omega) hsize)
  rw [hsplit, List.map_append, List.map_cons, List.append_assoc, List.cons_append, ← List.singleton_append,
    ← List.append_assoc] at hstarts
  have hborder := @partitionPoint_eq Nat (fun start => decide (start ≤ offset)) _ _ _ hstarts ?_ ?_
  · simp only [position, hoffset, hborder]
    simp
  · intro start hstart
    rcases List.mem_append.mp hstart with hstart | hstart
    · obtain ⟨upper, hupper, rfl⟩ := List.mem_map.mp hstart
      have hle := upper.start_le_stop
      have hstop := habove upper hupper
      simp only [decide_eq_true_eq]
      omega
    · rw [List.mem_singleton.mp hstart]
      simpa using hfrom
  · intro start hstart
    rw [decide_eq_false_iff_not]
    rcases hlast with hlast | ⟨-, rfl, hopen⟩
    · rcases List.mem_append.mp hstart with hstart | hstart
      · obtain ⟨lower, hlower, rfl⟩ := List.mem_map.mp hstart
        have hstart := hbelow lower hlower
        omega
      · have hend : start = Text.bytes source := by
          split at hstart <;> simp at hstart
          exact hstart
        omega
    · simp [hopen] at hstart

/-- The position of an offset names the line in which it stands. -/
theorem line_position (hline : (Line.split source)[index]? = some line) (hfrom : line.start ≤ offset)
    (hto : offset < line.stop) : ((ofText source).position offset).line = index :=
  line_position_content hline hfrom (.inl hto)

/-! ### Offsets in order -/

theorem lt_of_mem_startsFrom {offset start : Nat} {text : Text} (h : start ∈ startsFrom offset text) :
    offset < start := by
  induction text generalizing offset with
  | nil => cases h
  | cons c more ih =>
      rw [startsFrom] at h
      split at h
      · rcases List.mem_cons.mp h with rfl | h
        · exact Nat.lt_succ_self _
        · exact Nat.lt_of_succ_lt (ih h)
      · exact Nat.lt_of_le_of_lt (Nat.le_add_right _ _) (ih h)

theorem pairwise_startsFrom (offset : Nat) (text : Text) : (startsFrom offset text).Pairwise (· < ·) := by
  induction text generalizing offset with
  | nil => exact .nil
  | cons c more ih =>
      rw [startsFrom]
      split
      · exact .cons (fun _ => lt_of_mem_startsFrom) (ih _)
      · exact ih _

theorem pairwise_starts (text : Text) : (ofText text).starts.toList.Pairwise (· < ·) :=
  .cons (fun _ => lt_of_mem_startsFrom) (pairwise_startsFrom 0 text)

/-- The line of an offset is told by how many lines start at it or in front of it. -/
theorem line_position_eq (text : Text) (offset : Nat) : ((ofText text).position offset).line =
    ((ofText text).starts.toList.takeWhile (· ≤ min offset (ofText text).size)).length - 1 := by
  have hborder : partitionPoint (· ≤ min offset (ofText text).size) (ofText text).starts =
      ((ofText text).starts.toList.takeWhile (· ≤ min offset (ofText text).size)).length := by
    apply partitionPoint_eq_takeWhile (pairwise_starts text)
    intro start later hlt hlater
    rw [decide_eq_true_eq] at hlater ⊢
    omega
  simp only [position, hborder]

/-- A later offset is on the same line or on a later one. -/
theorem line_position_mono (text : Text) {offset later : Nat} (h : offset ≤ later) :
    ((ofText text).position offset).line ≤ ((ofText text).position later).line := by
  rw [line_position_eq, line_position_eq]
  refine Nat.sub_le_sub_right (length_takeWhile_mono (fun start hstart => ?_) _) 1
  rw [decide_eq_true_eq] at hstart ⊢
  omega

end LineIndex

end Gamebook
