import Gamebook.Proofs.Line.Alike
import Gamebook.Proofs.Line.Append
import Gamebook.Proofs.Tree.Alike
import Gamebook.Proofs.Tree.Shape

/-!
Scenes of a single line that is not indented and opens no block. The scene holds the line and the line its
statement, so that the statement alone decides whether the scene is without errors.
-/

namespace Gamebook

/-- The text is a single line, and is read as the statement, which opens no block. -/
structure Scene.Single (source : Text) (statement : Statement) : Prop where
  lines : Line.lines source = [Line.ofBody 0 0 source .none]
  /-- The line is not indented. -/
  trimmed : ∀ c ∈ source.head?, Text.isBlank c = false
  reading : ((Line.ofBody 0 0 source .none).reading .scene).1 = some statement
  plain : statement.opens = none

namespace Scene

variable {source : Text} {statement : Statement} (name uri : Option String)

theorem parts_single (h : Single source statement) : ∃ line : Phrase,
    (phrase source name uri).parts = [line] ∧ line.issues = [] ∧ line.parts = [statement.phrase] := by
  let line := Line.ofBody 0 0 source .none
  have hwithin : line.Within source := Line.within_of_mem_lines (by rw [h.lines]; exact List.mem_singleton_self _)
  have hopened : line.opened? .scene = none := by
    rw [Line.opened?, h.reading, Option.bind_some, h.plain]
  have hmargin (unit : Option IndentUnit) : line.margin unit = [] := by
    have hindent : ¬line.isIndented = true := by
      show ¬(!(source.takeWhile Text.isBlank).isEmpty) = true
      rw [(Text.trimmed_iff.mp h.trimmed).1]
      decide
    rw [Line.margin, Line.indentation?, if_neg hindent]
    rfl
  have hstated : line.stated [] statement = statement.phrase := by
    rw [Line.stated, h.plain, if_neg (by decide)]
    show (statement.phrase.shift 0).addAll [] = _
    rw [Phrase.shift_zero, Phrase.addAll_nil]
  have hphrases : (phrase source name uri).parts =
      [line.phrase (Line.establishedUnit? [line]) (line.reading .scene) []] := by
    rw [parts_phrase, h.lines, Line.phrases_cons, Line.below_of_opened?_eq_none hopened, Line.phrases, Line.phrases]
  refine ⟨_, hphrases, ?_⟩
  rw [Line.phrase_eq (Line.reading_rest hwithin), hmargin, h.reading, Option.map_some, hstated]
  exact ⟨rfl, rfl⟩

theorem clean_single (h : Single source statement) :
    (phrase source name uri).Clean ↔ statement.phrase.Clean := by
  obtain ⟨line, hscene, hissues, hline⟩ := parts_single name uri h
  have hnone : (phrase source name uri).issues = [] := rfl
  rw [Phrase.clean_iff (phrase _ name uri), hnone, hscene, List.forall_mem_singleton, Phrase.clean_iff line, hissues,
    hline, List.forall_mem_singleton]
  simp

/-- The statement is the only child of the line, which is the only child of the root. -/
theorem exists_statement (h : Single source statement) (levels : Levels) :
    ∃ line, ∃ entry ∈ (phrase source name uri).entries none 0, entry.phrase = statement.phrase ∧
      (parse source name uri levels).children Tree.root = [line] ∧
      (parse source name uri levels).children line = [entry.id] := by
  obtain ⟨line, hscene, _, hline⟩ := parts_single name uri h
  have hroot := Phrase.mem_entries_self none 0 (phrase source name uri)
  obtain ⟨lineEntry, hlineEntry, rfl, hlines⟩ := Phrase.exists_child hroot hscene
  obtain ⟨entry, hentry, hstatement, hstatements⟩ := Phrase.exists_child hlineEntry hline
  exact ⟨lineEntry.id, entry, hentry, hstatement, hlines, hstatements⟩

end Scene

end Gamebook
