import Gamebook.Proofs.Reader.Reach

/-!
The lexemes ahead of a reader. A text has one sequence of lexemes in each mode, blanks between them apart,
and a reader that keeps its mode takes them one by one.
-/

namespace Gamebook

/-- A lexeme and where it stands. -/
structure Located where
  lexeme : Lexeme
  offset : Nat
  deriving DecidableEq, Repr

def Located.stop (sign : Located) : Nat := sign.offset + Text.bytes sign.lexeme.text

namespace Lexeme

theorem length_lt_of_first? {mode : Mode} {text rest : Text} {lexeme : Lexeme}
    (hfirst : first? mode (text.dropWhile Text.isBlank) = some (lexeme, rest)) : rest.length < text.length := by
  have hdrop : (text.dropWhile Text.isBlank).length ≤ text.length := (List.dropWhile_sublist _).length_le
  have hpos := List.length_pos_iff.mpr (ne_nil_of_first? hfirst)
  rw [← append_of_first? hfirst, List.length_append] at hdrop
  omega

def sequence (mode : Mode) (offset : Nat) (text : Text) : List Located :=
  match _hfirst : first? mode (text.dropWhile Text.isBlank) with
  | none => []
  | some (lexeme, rest) =>
    let start := offset + (text.takeWhile Text.isBlank).length
    ⟨lexeme, start⟩ :: sequence mode (start + Text.bytes lexeme.text) rest
termination_by text.length
decreasing_by exact length_lt_of_first? _hfirst

theorem sequence_nil (mode : Mode) (offset : Nat) : sequence mode offset [] = [] := by
  rw [sequence]
  rfl

theorem sequence_of_first? {mode : Mode} {text rest : Text} {lexeme : Lexeme}
    (hfirst : first? mode (text.dropWhile Text.isBlank) = some (lexeme, rest)) (offset : Nat) :
    sequence mode offset text = ⟨lexeme, offset + (text.takeWhile Text.isBlank).length⟩ ::
      sequence mode (offset + (text.takeWhile Text.isBlank).length + Text.bytes lexeme.text) rest := by
  rw [sequence]
  split
  · rename_i hnone
    rw [hfirst] at hnone
    cases hnone
  · rename_i lexeme' rest' hsome
    rw [hfirst] at hsome
    cases hsome
    rfl

theorem sequence_of_first?_eq_none {mode : Mode} {text : Text}
    (hfirst : first? mode (text.dropWhile Text.isBlank) = none) (offset : Nat) : sequence mode offset text = [] := by
  rw [sequence]
  split
  · rfl
  · rename_i hsome
    rw [hfirst] at hsome
    cases hsome

/-- Blanks in front only move the lexemes. -/
theorem sequence_dropWhile (mode : Mode) (offset : Nat) (text : Text) :
    sequence mode (offset + (text.takeWhile Text.isBlank).length) (text.dropWhile Text.isBlank) =
      sequence mode offset text := by
  obtain ⟨htake, hdrop⟩ := Text.trimmed_iff.mp (Text.trimmed_dropWhile text)
  cases hfirst : first? mode (text.dropWhile Text.isBlank) with
  | none => rw [first?_eq_none_iff.mp hfirst, sequence_nil, sequence_of_first?_eq_none hfirst]
  | some found =>
      rw [sequence_of_first? hfirst, sequence_of_first? (hdrop.symm ▸ hfirst), htake]
      rfl

theorem sequence_blanks {mode : Mode} {gap : Text} (hgap : ∀ c ∈ gap, Text.isBlank c = true) (offset : Nat)
    (text : Text) : sequence mode offset (gap ++ text) = sequence mode (offset + gap.length) text := by
  rw [← sequence_dropWhile, Text.dropWhile_blanks hgap, List.takeWhile_append_of_pos hgap, List.length_append,
    ← Nat.add_assoc, sequence_dropWhile]

end Lexeme

namespace Reader

def lexemes (r : Reader) : List Located := Lexeme.sequence r.mode r.offset r.rest

/-- The reader stands before a lexeme that is followed by some others. -/
structure Before (r : Reader) (sign : Located) (more : List Located) : Prop where
  lexeme : r.lexeme? = some sign.lexeme
  offset : r.offset = sign.offset
  lastEnd : r.next.lastEnd = sign.stop
  next : r.next.lexemes = more

variable {r : Reader} {sign : Located} {more : List Located}

theorem lexemes_advance (r : Reader) (taken left : Text) :
    (r.advance taken left).lexemes = Lexeme.sequence r.mode (r.offset + Text.bytes taken) left :=
  Lexeme.sequence_dropWhile r.mode (r.offset + Text.bytes taken) left

theorem next_of_first? {lexeme : Lexeme} {left : Text} (hfirst : Lexeme.first? r.mode r.rest = some (lexeme, left)) :
    r.next = r.advance lexeme.text left := by
  rw [next, hfirst]

theorem exists_of_kind? {kind : TokenKind} (h : r.kind? = some kind) :
    ∃ lexeme left, Lexeme.first? r.mode r.rest = some (lexeme, left) ∧ lexeme.kind = kind ∧
      r.next = r.advance lexeme.text left := by
  obtain ⟨lexeme, hlexeme, hkind⟩ := Option.map_eq_some_iff.mp h
  obtain ⟨⟨_, left⟩, hfirst, rfl⟩ := Option.map_eq_some_iff.mp hlexeme
  exact ⟨_, left, hfirst, hkind, next_of_first? hfirst⟩

theorem lexemes_of_first? (htrimmed : r.Trimmed) {lexeme : Lexeme} {left : Text}
    (hfirst : Lexeme.first? r.mode r.rest = some (lexeme, left)) :
    r.lexemes = ⟨lexeme, r.offset⟩ :: r.next.lexemes := by
  obtain ⟨htake, hdrop⟩ := Text.trimmed_iff.mp htrimmed
  rw [next_of_first? hfirst, lexemes_advance, lexemes, Lexeme.sequence_of_first? (hdrop.symm ▸ hfirst), htake]
  rfl

theorem lexemes_of_lexeme? (htrimmed : r.Trimmed) {lexeme : Lexeme} (h : r.lexeme? = some lexeme) :
    r.Before ⟨lexeme, r.offset⟩ r.next.lexemes ∧ r.lexemes = ⟨lexeme, r.offset⟩ :: r.next.lexemes := by
  obtain ⟨⟨_, left⟩, hfirst, rfl⟩ := Option.map_eq_some_iff.mp h
  refine ⟨⟨h, rfl, ?_, rfl⟩, lexemes_of_first? htrimmed hfirst⟩
  rw [next, hfirst]
  rfl

theorem lexemes_eq_nil_iff (htrimmed : r.Trimmed) : r.lexemes = [] ↔ r.rest = [] := by
  constructor
  · intro hnil
    rw [← kind?_eq_none_iff, kind?, Option.map_eq_none_iff]
    cases hlexeme : r.lexeme? with
    | none => rfl
    | some lexeme =>
        rw [(lexemes_of_lexeme? htrimmed hlexeme).2] at hnil
        cases hnil
  · intro hrest
    rw [lexemes, hrest, Lexeme.sequence_nil]

theorem before_of_lexemes (htrimmed : r.Trimmed) (h : r.lexemes = sign :: more) : r.Before sign more := by
  cases hlexeme : r.lexeme? with
  | none =>
      have hnil : r.rest = [] := by rw [← kind?_eq_none_iff, kind?, hlexeme, Option.map_none]
      rw [(lexemes_eq_nil_iff htrimmed).mpr hnil] at h
      cases h
  | some lexeme =>
      obtain ⟨hbefore, hcons⟩ := lexemes_of_lexeme? htrimmed hlexeme
      rw [hcons] at h
      cases h
      exact hbefore

/-- A reader that sees something stands before a lexeme. -/
theorem exists_before (htrimmed : r.Trimmed) {kind : TokenKind} (h : r.kind? = some kind) :
    ∃ sign : Located, sign.lexeme.kind = kind ∧ r.Before sign r.next.lexemes ∧
      r.lexemes = sign :: r.next.lexemes := by
  obtain ⟨lexeme, hlexeme, hkind⟩ := Option.map_eq_some_iff.mp h
  obtain ⟨hbefore, hcons⟩ := lexemes_of_lexeme? htrimmed hlexeme
  exact ⟨_, hkind, hbefore, hcons⟩

theorem Trimmed.next (htrimmed : r.Trimmed) : r.next.Trimmed := r.reaches_next.trimmed htrimmed

section Before

variable (h : r.Before sign more)
include h

theorem Before.kind? : r.kind? = some sign.lexeme.kind := by rw [Reader.kind?, h.lexeme, Option.map_some]

theorem Before.word : r.word = String.ofList sign.lexeme.text := by rw [Reader.word, text, h.lexeme]; rfl

theorem Before.sees (kind : TokenKind) : r.sees kind = true ↔ sign.lexeme.kind = kind := by
  rw [Reader.sees, h.kind?, beq_iff_eq, Option.some.injEq]

theorem Before.rest_ne_nil : r.rest ≠ [] := rest_ne_nil_of_kind? h.kind?

end Before

end Reader

end Gamebook
