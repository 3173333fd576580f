import Gamebook.Proofs.Lexeme.Apart

/-!
Lexemes of prose. A word begins with a letter and nothing else does, so that there are no letters in whatever is
no word; and what is no word and more than one character long is a number.
-/

namespace Gamebook

namespace Text

def isNumeral (c : Char) : Bool := isDigit c || c == '.'

/-- No letter is in the text, and so no word. -/
def Wordless (text : Text) : Prop := ∀ c ∈ text, isLetter c = false

theorem isLetter_of_isNumeral {c : Char} (h : isNumeral c = true) : isLetter c = false := by
  by_contra hletter
  have hopens : Pattern.opensName c = true := Bool.or_eq_true_iff.mpr (.inl (Bool.eq_true_of_not_eq_false hletter))
  rw [isNumeral, (Pattern.apart_of_opensName hopens).1] at h
  cases h

theorem isLetter_of_isBlank {c : Char} (h : isBlank c = true) : isLetter c = false := by
  rcases Bool.or_eq_true_iff.mp h with hc | hc <;> rw [beq_iff_eq.mp hc] <;> decide +kernel

theorem Wordless.append {front back : Text} (hfront : front.Wordless) (hback : back.Wordless) :
    (front ++ back).Wordless := List.forall_mem_append.mpr ⟨hfront, hback⟩

theorem wordless_of_blank {text : Text} (h : ∀ c ∈ text, isBlank c = true) : text.Wordless :=
  fun c hc => isLetter_of_isBlank (h c hc)

/-- A number is made of numerals. -/
theorem isNumeral_of_mem_number {text : Text} (h : text ∈ LexemeForm.number.language) :
    ∀ c ∈ text, isNumeral c = true := by
  obtain ⟨run, hrun, ⟨rfl, -⟩ | ⟨fraction, rfl, hfraction, -⟩⟩ := Pattern.mem_number.mp h
  · exact fun c hc => Bool.or_eq_true_iff.mpr (.inl (hrun c hc))
  · intro c hc
    rcases List.mem_append.mp hc with hc | hc
    · exact Bool.or_eq_true_iff.mpr (.inl (hrun c hc))
    · rcases List.mem_cons.mp hc with rfl | hc
      · rfl
      · exact Bool.or_eq_true_iff.mpr (.inl (hfraction c hc))

end Text

namespace Lexeme

theorem exists_first? (mode : Mode) {text : Text} (hne : text ≠ []) :
    ∃ lexeme left, first? mode text = some (lexeme, left) := by
  cases hfirst : first? mode text with
  | none => exact absurd (first?_eq_none_iff.mp hfirst) hne
  | some found => exact ⟨found.1, found.2, rfl⟩

/-- A letter begins a word. -/
theorem kind_of_isLetter {c : Char} {more left : Text} {lexeme : Lexeme}
    (hfirst : first? .text (c :: more) = some (lexeme, left)) (hletter : Text.isLetter c = true) :
    lexeme.kind = .word := by
  rw [first?_of_longestOf .text (Pattern.longestOf_word hletter more)] at hfirst
  cases hfirst
  rfl

/-- What begins with anything else is no word, and goes on with numerals only. -/
theorem text_of_isLetter {c : Char} {more left : Text} {lexeme : Lexeme}
    (hfirst : first? .text (c :: more) = some (lexeme, left)) (hletter : Text.isLetter c = false) :
    lexeme.kind ≠ .word ∧ ∃ tail, lexeme.text = c :: tail ∧ ∀ d ∈ tail, Text.isNumeral d = true := by
  simp only [first?] at hfirst
  split at hfirst <;> simp only [Option.some.injEq, Prod.mk.injEq] at hfirst <;> obtain ⟨rfl, -⟩ := hfirst
  · rename_i kind length hlongest
    have hpos := Pattern.longestOf_pos hlongest
    obtain ⟨pattern, hmem, rfl, rfl⟩ := Pattern.exists_mem_of_longestOf hlongest
    obtain ⟨length, hlength⟩ := Nat.exists_eq_add_one.mpr hpos
    have hsigns : Pattern.signs = LexemeForm.signs.map Pattern.ofSpelling := rfl
    rw [hlength]
    rcases List.mem_append.mp hmem with hmem | hmem
    · rcases List.mem_cons.mp hmem with rfl | hmem
      · exact absurd (if_neg (by rw [hletter]; exact Bool.false_ne_true)) hpos.ne'
      · obtain rfl := List.mem_singleton.mp hmem
        refine ⟨by simp, more.take length, rfl, fun d hd => ?_⟩
        have hnumber := (Pattern.longest_number (c :: more)).reached hpos
        rw [show Pattern.numberLength (c :: more) = length + 1 from hlength] at hnumber
        exact Text.isNumeral_of_mem_number hnumber d (List.mem_cons_of_mem c hd)
    · rw [hsigns] at hmem
      obtain ⟨entry, hentry, rfl⟩ := List.mem_map.mp hmem
      have hone : ∀ entry ∈ LexemeForm.signs, entry.2.length = 1 ∧ entry.1 ≠ .word := by decide
      obtain ⟨hspelling, hkind⟩ := hone entry hentry
      have hprefix : entry.2.isPrefixOf (c :: more) = true := by
        by_contra hnot
        exact absurd (if_neg hnot) hpos.ne'
      have hlong : (Pattern.ofSpelling entry).longest (c :: more) = entry.2.length := if_pos hprefix
      obtain rfl : length = 0 := by omega
      exact ⟨hkind, [], rfl, List.forall_mem_nil _⟩
  · exact ⟨by simp, [], rfl, List.forall_mem_nil _⟩

theorem letter_of_word {text left : Text} {lexeme : Lexeme} (hfirst : first? .text text = some (lexeme, left))
    (hkind : lexeme.kind = .word) : ∃ c more, text = c :: more ∧ Text.isLetter c = true := by
  rcases text with _ | ⟨c, more⟩
  · cases hfirst
  · refine ⟨c, more, rfl, ?_⟩
    by_contra hletter
    exact (text_of_isLetter hfirst (Bool.eq_false_iff.mpr hletter)).1 hkind

theorem wordless_of_kind {text left : Text} {lexeme : Lexeme} (hfirst : first? .text text = some (lexeme, left))
    (hkind : lexeme.kind ≠ .word) : lexeme.text.Wordless := by
  rcases text with _ | ⟨c, more⟩
  · cases hfirst
  · have hletter : Text.isLetter c = false := Bool.eq_false_iff.mpr fun h => hkind (kind_of_isLetter hfirst h)
    obtain ⟨-, tail, htext, hnumerals⟩ := text_of_isLetter hfirst hletter
    rw [htext]
    exact List.forall_mem_cons.mpr ⟨hletter, fun d hd => Text.isLetter_of_isNumeral (hnumerals d hd)⟩

/-- The sign that opens a construct is no numeral. -/
theorem isNumeral_of_sign {text left : Text} {lexeme : Lexeme} (hfirst : first? .text text = some (lexeme, left))
    (hkind : lexeme.kind = .dollar ∨ lexeme.kind = .atSign) : ∀ c ∈ text.head?, Text.isNumeral c = false := by
  have hspelling : lexeme.text = ['$'] ∨ lexeme.text = ['@'] := by
    refine hkind.imp (fun hkind => text_eq_of_fixed hfirst (by simp [hkind]) ?_)
      (fun hkind => text_eq_of_fixed hfirst (by simp [hkind]) ?_) <;>
    · rw [hkind]
      simp [Mode.patterns, Pattern.ofProse, Pattern.signs, Pattern.fixed]
  rw [← append_of_first? hfirst]
  rcases hspelling with h | h <;> rw [h] <;> simp [Text.isNumeral, Text.isDigit]

/-- What begins in front of something that no numeral begins, and with no letter, ends in front of it. -/
theorem ends_of_isLetter {c : Char} {front left more : Text} {lexeme : Lexeme}
    (hfirst : first? .text (c :: (front ++ left)) = some (lexeme, more)) (hletter : Text.isLetter c = false)
    (hleft : ∀ d ∈ left.head?, Text.isNumeral d = false) :
    lexeme.kind ≠ .word ∧ ∃ rest, c :: front = lexeme.text ++ rest := by
  obtain ⟨hkind, tail, htext, hnumerals⟩ := text_of_isLetter hfirst hletter
  have happend := append_of_first? hfirst
  refine ⟨hkind, ?_⟩
  rw [htext, List.cons_append, List.cons.injEq] at happend
  rw [htext]
  rcases List.append_eq_append_iff.mp happend.2 with ⟨rest, rfl, -⟩ | ⟨extra, rfl, hextra⟩
  · exact ⟨rest, rfl⟩
  · rcases extra with _ | ⟨d, extra⟩
    · exact ⟨[], by rw [List.append_nil, List.append_nil]⟩
    · have hnot := hleft d (by rw [hextra]; rfl)
      rw [hnumerals d (List.mem_append_right _ List.mem_cons_self)] at hnot
      cases hnot

end Lexeme

end Gamebook
