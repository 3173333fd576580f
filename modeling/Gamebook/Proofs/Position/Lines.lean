import Gamebook.Proofs.Position
import Mathlib.Data.List.Chain

/-!
Two ways to the lines of a source. The lines are cut out behind its line feeds, each with its indentation, its
content and its break; the index runs over its characters and keeps the offsets at which lines start. Both
tell the same lines in the same order, so that a line number from the index can be looked up among the lines;
only behind a line feed that ends the source does the index start a line that holds nothing and is not cut.
-/

namespace Gamebook

namespace Line

/-- The parts of a line follow each other in its source: spaces and tabs, a content that begins with neither
and holds no line feed, and the break, which takes a carriage return before its line feed with it. -/
structure Parted (source : Text) (line : Line) : Prop where
  ordered : line.start ≤ line.contentStart ∧ line.contentStart ≤ line.contentEnd ∧ line.contentEnd ≤ line.stop
  indent : Text.slice? line.start line.contentStart source = some line.indent ∧ ∀ c ∈ line.indent, c = ' ' ∨ c = '\t'
  content : Text.slice? line.contentStart line.contentEnd source = some line.content ∧
    (∀ c ∈ line.content.head?, c ≠ ' ' ∧ c ≠ '\t') ∧ '\n' ∉ line.content
  ending : Text.slice? line.contentEnd line.stop source = some line.ending.text
  carriage : line.ending.text = ['\n'] → line.content.getLast? ≠ some '\r'

/-- Lines make up a source: the first starts with it, each other one where the line above stops, the last
stops with it, and all but the last end with a line break. -/
structure Tile (source : Text) (lines : List Line) : Prop where
  filled : lines ≠ []
  first : ∀ line ∈ lines.head?, line.start = 0
  joined : lines.IsChain fun upper lower => upper.stop = lower.start
  last : ∀ line ∈ lines.getLast?, line.stop = Text.bytes source
  parted : ∀ line ∈ lines, line.Parted source
  broken : ∀ line ∈ lines.dropLast, line.ending.text = ['\n'] ∨ line.ending.text = ['\r', '\n']
  final : ∀ line ∈ lines.getLast?, line.ending.text = [] ∨ line.ending.text = ['\n'] ∨ line.ending.text = ['\r', '\n']

end Line

/-- An index finds the lines of a source under their numbers, and one line more where a line feed ends the
source: it starts where the source stops. -/
structure LineIndex.Finds (index : LineIndex) (source : Text) (lines : List Line) : Prop where
  starts : index.starts.toList =
    lines.map Line.start ++ if source.getLast? = some '\n' then [Text.bytes source] else []
  position : ∀ number line, lines[number]? = some line → ∀ offset, line.start ≤ offset → offset < line.stop →
    index.position offset = ⟨number, offset - line.start⟩

theorem Text.isBlank_iff {c : Char} : Text.isBlank c = true ↔ c = ' ' ∨ c = '\t' := by simp [Text.isBlank]

theorem LineEnding.text_cases (ending : LineEnding) :
    ending.text = [] ∨ ending.text = ['\n'] ∨ ending.text = ['\r', '\n'] := by
  cases ending <;> simp [LineEnding.text]

namespace Line

variable {source : Text} {line : Line} {number start : Nat} {cuts : List (Text × LineEnding)}

/-! ### The parts of a line -/

theorem Clean.parted (h : line.Clean) (hwithin : line.Within source) : line.Parted source where
  ordered := by
    simp only [stop, contentEnd, contentStart]
    omega
  indent := ⟨hwithin.slice?_indent, fun c hc => Text.isBlank_iff.mp (h.indent c hc)⟩
  content := by
    have hsplit : line.content = [] ++ line.content ++ [] := by simp
    refine ⟨hwithin.slice?_content hsplit, fun c hc => ?_, h.feed⟩
    have hblank := h.trimmed c hc
    rw [Bool.eq_false_iff, Ne, Text.isBlank_iff, not_or] at hblank
    exact hblank
  ending := hwithin.slice?_ending
  carriage := by
    intro hlf
    apply h.carriage
    cases hending : line.ending <;> simp [hending, LineEnding.text] at hlf ⊢

theorem parted_of_mem_split (h : line ∈ split source) : line.Parted source :=
  (clean_of_mem_split h).parted ((arranged_split source).within line h)

/-! ### One line behind the other -/

theorem start_of_head?_layOut (h : line ∈ (layOut number start cuts).head?) : line.start = start := by
  cases cuts with
  | nil => cases h
  | cons part more =>
      cases h
      rfl

/-- A line starts where the line above stops. -/
theorem joined_layOut (number start : Nat) (cuts : List (Text × LineEnding)) :
    (layOut number start cuts).IsChain fun upper lower => upper.stop = lower.start := by
  induction cuts generalizing number start with
  | nil => exact .nil
  | cons part more ih =>
      obtain ⟨body, ending⟩ := part
      refine List.isChain_cons.mpr ⟨fun lower hlower => ?_, ih _ _⟩
      rw [stop_ofBody, start_of_head?_layOut hlower]

theorem stop_of_getLast?_layOut (h : line ∈ (layOut number start cuts).getLast?) :
    line.stop = start + Text.bytes (cuts.flatMap fun part => part.1 ++ part.2.text) := by
  induction cuts generalizing number start with
  | nil => cases h
  | cons part more ih =>
      obtain ⟨body, ending⟩ := part
      have hstop := stop_ofBody number start body ending
      rw [List.flatMap_cons, Text.bytes_append, Text.bytes_append]
      dsimp only
      cases more with
      | nil =>
          obtain rfl : ofBody number start body ending = line := Option.some.inj h
          simp only [List.flatMap_nil, Text.bytes_nil]
          omega
      | cons next more =>
          have hrest := @ih (number + 1) (start + Text.bytes body + Text.bytes ending.text) h
          omega

/-- The empty source is laid out as one line as well, from a cutting in which nothing stands before its end. -/
theorem exists_cuts (source : Text) : ∃ cuts, cuts ≠ [] ∧ split source = layOut 0 0 cuts ∧
    (cuts.flatMap fun part => part.1 ++ part.2.text) = source := by
  by_cases hsource : source = []
  · subst hsource
    exact ⟨[([], .none)], by simp, rfl, rfl⟩
  · exact ⟨cut source, cut_ne_nil hsource, split_eq_lines hsource, flatMap_cut source⟩

theorem broken_of_mem_dropLast (h : line ∈ (split source).dropLast) : line.hasBreak = true := by
  have hne : split source ≠ [] := by
    intro hnil
    simp [hnil] at h
  have hbroken := broken_split source
  rw [← List.dropLast_append_getLast hne, List.pairwise_append] at hbroken
  exact hbroken.2.2 line h _ List.mem_cons_self

/-- The lines of a source make it up. -/
theorem tile_split (source : Text) : Tile source (split source) := by
  obtain ⟨cuts, hne, hsplit, hsource⟩ := exists_cuts source
  refine ⟨?_, fun line hline => ?_, ?_, fun line hline => ?_, fun _ => parted_of_mem_split, fun line hline => ?_,
    fun line _ => LineEnding.text_cases line.ending⟩
  · obtain ⟨part, more, rfl⟩ := List.exists_cons_of_ne_nil hne
    simp [hsplit, layOut]
  · rw [hsplit] at hline
    exact start_of_head?_layOut hline
  · rw [hsplit]
    exact joined_layOut 0 0 cuts
  · rw [hsplit] at hline
    rw [stop_of_getLast?_layOut hline, hsource, Nat.zero_add]
  · have hbreak := ending_ne_nil (broken_of_mem_dropLast hline)
    simpa [hbreak] using LineEnding.text_cases line.ending

/-! ### The starts of the lines -/

theorem lineStart?_ofText (hline : (split source)[number]? = some line) :
    (LineIndex.ofText source).starts[number]? = some line.start := by
  have hnumber : number < (split source).length := (List.getElem?_eq_some_iff.mp hline).1
  rw [← Array.getElem?_toList, starts_ofText, List.getElem?_append_left (by simpa using hnumber), List.getElem?_map,
    hline, Option.map_some]

/-- The position of an offset is told by the line on which it stands. -/
theorem position_ofText {offset : Nat} (hline : (split source)[number]? = some line) (hfrom : line.start ≤ offset)
    (hto : offset < line.stop) : (LineIndex.ofText source).position offset = ⟨number, offset - line.start⟩ := by
  have hnumber := LineIndex.line_position hline hfrom hto
  have hstop := ((arranged_split source).within line (List.mem_of_getElem? hline)).stop_le
  have hmin : min offset (LineIndex.ofText source).size = offset := Nat.min_eq_left (by simp [LineIndex.ofText]; omega)
  calc (LineIndex.ofText source).position offset
      = ⟨((LineIndex.ofText source).position offset).line, min offset (LineIndex.ofText source).size -
          (LineIndex.ofText source).starts[((LineIndex.ofText source).position offset).line]?.getD 0⟩ := rfl
    _ = ⟨number, offset - line.start⟩ := by rw [hnumber, lineStart?_ofText hline, hmin, Option.getD_some]

/-- Whatever the source, its lines make it up and its index finds them under their numbers. -/
theorem finds_split (source : Text) :
    Tile source (split source) ∧ (LineIndex.ofText source).Finds source (split source) :=
  ⟨tile_split source, starts_ofText source, fun _ _ hline _ => position_ofText hline⟩

example : (split "a\r\n\r\n".toList).map Line.start = [0, 3] ∧ (LineIndex.ofText "a\r\n\r\n".toList).starts = #[0, 3, 5] := by
  decide

end Line

end Gamebook
