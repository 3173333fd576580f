import Gamebook.Line
import Gamebook.Proofs.Reader.Reach

/-!
The lines of a source. Every line is a part of its source, where it says that it is; lines follow each
other without overlapping, are numbered from zero, and leave nothing out. The places of a line, the
offsets between the characters of its content, are cuts of the source.
-/

namespace Gamebook.Line

def whole (line : Line) : Text := line.indent ++ line.content ++ line.ending.text

/-- The line stands in the source where it says, and its content begins with no blank. -/
structure Within (source : Text) (line : Line) : Prop where
  split : ∃ front back, source = front ++ line.whole ++ back ∧ Text.bytes front = line.start
  trimmed : ∀ c ∈ line.content.head?, Text.isBlank c = false

@[simp] theorem whole_ofBody (number start : Nat) (body : Text) (ending : LineEnding) :
    (ofBody number start body ending).whole = body ++ ending.text := by
  rw [whole, ofBody, List.takeWhile_append_dropWhile]

theorem bytes_whole (line : Line) : line.start + Text.bytes line.whole = line.stop := by
  rw [whole, Text.bytes_append, Text.bytes_append, stop, contentEnd, contentStart]
  omega

theorem stop_ofBody (number start : Nat) (body : Text) (ending : LineEnding) :
    (ofBody number start body ending).stop = start + Text.bytes body + Text.bytes ending.text := by
  rw [← bytes_whole, whole_ofBody, Text.bytes_append, Nat.add_assoc]
  rfl

theorem within_of_mem_layOut {number : Nat} (front : Text) {cuts : List (Text × LineEnding)} {line : Line}
    (h : line ∈ layOut number (Text.bytes front) cuts) :
    line.Within (front ++ cuts.flatMap fun part => part.1 ++ part.2.text) := by
  induction cuts generalizing number front with
  | nil => cases h
  | cons part more ih =>
      obtain ⟨body, ending⟩ := part
      rw [List.flatMap_cons, ← List.append_assoc]
      rcases List.mem_cons.mp h with rfl | h
      · exact ⟨⟨front, _, by rw [whole_ofBody], rfl⟩, Text.trimmed_dropWhile body⟩
      · have hmore : line ∈ layOut (number + 1) (Text.bytes (front ++ (body ++ ending.text))) more := by
          rwa [Text.bytes_append, Text.bytes_append, ← Nat.add_assoc]
        exact ih _ hmore

theorem within_of_mem_lines {source : Text} {line : Line} (h : line ∈ lines source) : line.Within source := by
  have hwithin := within_of_mem_layOut [] h
  rwa [List.nil_append, flatMap_cut] at hwithin

/-- No line begins before the one above it ends. -/
theorem layOut_sorted (number start : Nat) (cuts : List (Text × LineEnding)) :
    (layOut number start cuts).Pairwise (fun upper lower => upper.stop ≤ lower.start) ∧
      ∀ line ∈ layOut number start cuts, start ≤ line.start := by
  induction cuts generalizing number start with
  | nil => exact ⟨.nil, fun _ h => nomatch h⟩
  | cons part more ih =>
      obtain ⟨body, ending⟩ := part
      obtain ⟨hsorted, hbehind⟩ := ih (number + 1) (start + Text.bytes body + Text.bytes ending.text)
      refine ⟨.cons (fun line hline => ?_) hsorted, ?_⟩
      · rw [stop_ofBody]
        exact hbehind line hline
      · intro line hline
        rcases List.mem_cons.mp hline with rfl | hline
        · exact Nat.le_refl _
        · have := hbehind line hline
          omega

/-- Lines of the source one below the other, though not all of them. -/
structure Arranged (source : Text) (lines : List Line) : Prop where
  within : ∀ line ∈ lines, line.Within source
  sorted : lines.Pairwise fun upper lower => upper.stop ≤ lower.start

theorem arranged_lines (source : Text) : Arranged source (lines source) :=
  ⟨fun _ => within_of_mem_lines, (layOut_sorted 0 0 (cut source)).1⟩

theorem Arranged.sublist {source : Text} {lines some : List Line} (h : Arranged source lines)
    (hsublist : some.Sublist lines) : Arranged source some :=
  ⟨fun line hline => h.within line (hsublist.subset hline), h.sorted.sublist hsublist⟩

theorem number_of_getElem?_layOut {number start index : Nat} {cuts : List (Text × LineEnding)} {line : Line}
    (h : (layOut number start cuts)[index]? = some line) : line.number = number + index := by
  induction cuts generalizing number start index with
  | nil => cases h
  | cons part more ih =>
      obtain ⟨body, ending⟩ := part
      cases index with
      | zero =>
          cases h
          rfl
      | succ index =>
          rw [ih h]
          omega

theorem number_of_getElem?_lines {source : Text} {index : Nat} {line : Line}
    (h : (lines source)[index]? = some line) : line.number = index := by
  rw [number_of_getElem?_layOut h, Nat.zero_add]

theorem cut_ne_nil {text : Text} (hne : text ≠ []) : cut text ≠ [] := by
  intro hnil
  have hflat := flatMap_cut text
  rw [hnil] at hflat
  exact hne hflat.symm

/-- A source that is not empty has lines, so that none needs to be made up. -/
theorem split_eq_lines {source : Text} (hsource : source ≠ []) : split source = lines source := by
  unfold split
  split
  · rename_i hlines
    obtain ⟨part, more, hcons⟩ := List.exists_cons_of_ne_nil (cut_ne_nil hsource)
    rw [lines, hcons] at hlines
    cases hlines
  · rfl

/-! ### Places -/

/-- An offset from the start of the line that lies between characters of its content, or at an end of
it. -/
def Place (line : Line) (offset : Nat) : Prop :=
  ∃ taken left, line.content = taken ++ left ∧ offset = Text.bytes line.indent + Text.bytes taken

variable {line : Line} {source : Text} {offset : Nat}

theorem place_indent (line : Line) : line.Place (Text.bytes line.indent) :=
  ⟨[], line.content, rfl, rfl⟩

theorem place_of_site (h : (Reader.ofLine line).Site offset) : line.Place offset := by
  rcases h with rfl | hahead
  · exact line.place_indent
  · exact hahead

theorem Within.trimmed_ofLine (h : line.Within source) : (Reader.ofLine line).Trimmed := h.trimmed

theorem Place.within_content (h : line.Place offset) :
    line.contentStart ≤ offset + line.start ∧ offset + line.start ≤ line.contentEnd := by
  obtain ⟨taken, left, hsplit, rfl⟩ := h
  rw [contentEnd, contentStart, hsplit, Text.bytes_append]
  omega

theorem Place.le_stop (h : line.Place offset) : offset + line.start ≤ line.stop :=
  Nat.le_trans h.within_content.2 (Nat.le_add_right _ _)

/-- The places of a line are cuts of its source. -/
theorem Within.isCut (h : line.Within source) (hplace : line.Place offset) :
    Text.IsCut source (offset + line.start) := by
  obtain ⟨front, back, hsource, hfront⟩ := h.split
  obtain ⟨taken, left, hsplit, rfl⟩ := hplace
  refine ⟨front ++ line.indent ++ taken, left ++ line.ending.text ++ back, ?_, ?_⟩
  · rw [hsource, whole, hsplit]
    simp only [List.append_assoc]
  · rw [Text.bytes_append, Text.bytes_append, hfront]
    omega

theorem Within.isCut_start (h : line.Within source) : Text.IsCut source line.start := by
  obtain ⟨front, back, hsource, hfront⟩ := h.split
  exact ⟨front, line.whole ++ back, by rw [hsource, List.append_assoc], hfront⟩

/-! ### Parts -/

/-- A part of a line is the slice of the source at its place. -/
theorem Within.slice?_part (h : line.Within source) {before part behind : Text}
    (hsplit : line.whole = before ++ part ++ behind) :
    Text.slice? (line.start + Text.bytes before) (line.start + Text.bytes before + Text.bytes part) source = some part := by
  obtain ⟨front, back, hsource, hfront⟩ := h.split
  have hparts : source = (front ++ before) ++ part ++ (behind ++ back) := by
    rw [hsource, hsplit]
    simp only [List.append_assoc]
  rw [hparts, ← hfront, ← Text.bytes_append]
  exact Text.slice?_middle (front ++ before) part (behind ++ back)

theorem Within.slice?_content (h : line.Within source) {taken part left : Text}
    (hsplit : line.content = taken ++ part ++ left) :
    Text.slice? (line.contentStart + Text.bytes taken) (line.contentStart + Text.bytes taken + Text.bytes part) source =
      some part := by
  have hwhole : line.whole = line.indent ++ taken ++ part ++ (left ++ line.ending.text) := by
    rw [whole, hsplit]
    simp only [List.append_assoc]
  have hslice := h.slice?_part hwhole
  rw [Text.bytes_append, ← Nat.add_assoc] at hslice
  exact hslice

theorem Within.slice?_ending (h : line.Within source) :
    Text.slice? line.contentEnd line.stop source = some line.ending.text := by
  have hwhole : line.whole = line.indent ++ line.content ++ line.ending.text ++ [] := (List.append_nil _).symm
  have hslice := h.slice?_part hwhole
  rw [Text.bytes_append, ← Nat.add_assoc] at hslice
  exact hslice

/-- The indentation of a line is what the source has from its start to its content. -/
theorem Within.slice?_indent (h : line.Within source) :
    Text.slice? line.start line.contentStart source = some line.indent := by
  have hwhole : line.whole = [] ++ line.indent ++ (line.content ++ line.ending.text) := by simp [whole]
  exact h.slice?_part hwhole

end Gamebook.Line
