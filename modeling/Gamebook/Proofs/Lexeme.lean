import Gamebook.Reader
import Gamebook.Proofs.Text.Cut

/-!
Lexemes of fixed spelling. The kind of a lexeme tells which pattern matched, so that a sign is known
to be written as its pattern says; and the type of a line tells the signs with which it begins.
-/

namespace Gamebook

/-- The longest match is a match of one of the patterns. -/
theorem Pattern.exists_mem_of_longestOf {text : Text} {patterns : List Pattern} {kind : TokenKind}
    {length : Nat} (hfound : longestOf text patterns = some (kind, length)) :
    ∃ pattern ∈ patterns, pattern.kind = kind ∧ pattern.longest text = length := by
  induction patterns generalizing kind length with
  | nil => cases hfound
  | cons pattern more ih =>
      simp only [longestOf] at hfound
      split at hfound
      · split at hfound
        · cases hfound
        · simp only [Option.some.injEq, Prod.mk.injEq] at hfound
          exact ⟨pattern, by simp, hfound⟩
      · rename_i other size hrest
        split at hfound
        · simp only [Option.some.injEq, Prod.mk.injEq] at hfound
          obtain ⟨rfl, rfl⟩ := hfound
          obtain ⟨found, hmem, hmatch⟩ := ih hrest
          exact ⟨found, by simp [hmem], hmatch⟩
        · simp only [Option.some.injEq, Prod.mk.injEq] at hfound
          exact ⟨pattern, by simp, hfound⟩

namespace Lexeme

theorem first?_of_longestOf (mode : Mode) {c : Char} {cs : Text} {kind : TokenKind} {length : Nat}
    (hlongest : Pattern.longestOf (c :: cs) mode.patterns = some (kind, length)) :
    first? mode (c :: cs) = some (⟨kind, (c :: cs).take length⟩, (c :: cs).drop length) := by
  rw [first?, hlongest]

/-- A lexeme is of the kind of a pattern that matches, or a character that no pattern takes. -/
theorem pattern_cases_of_first? {mode : Mode} {text rest : Text} {lexeme : Lexeme}
    (hfound : first? mode text = some (lexeme, rest)) :
    (∃ pattern ∈ mode.patterns, pattern.kind = lexeme.kind ∧ 0 < pattern.longest text) ∨ ∃ c, lexeme.kind = .delim c := by
  cases text with
  | nil => cases hfound
  | cons c cs =>
      simp only [first?] at hfound
      split at hfound <;> simp only [Option.some.injEq, Prod.mk.injEq] at hfound <;> obtain ⟨rfl, rfl⟩ := hfound
      · rename_i hlongest
        have hpos := Pattern.longestOf_pos hlongest
        obtain ⟨pattern, hmem, hkind, rfl⟩ := Pattern.exists_mem_of_longestOf hlongest
        exact .inl ⟨pattern, hmem, hkind, hpos⟩
      · exact .inr ⟨c, rfl⟩

/-- A lexeme of a kind that only one pattern of fixed spelling has is spelt so. -/
theorem text_eq_of_fixed {mode : Mode} {text rest spelling : Text} {lexeme : Lexeme}
    (hfound : first? mode text = some (lexeme, rest)) (hkind : ∀ c, lexeme.kind ≠ .delim c)
    (honly : ∀ pattern ∈ mode.patterns, pattern.kind = lexeme.kind →
      pattern.longest = (Pattern.fixed lexeme.kind spelling).longest) : lexeme.text = spelling := by
  cases text with
  | nil => cases hfound
  | cons c cs =>
      simp only [first?] at hfound
      split at hfound <;> simp only [Option.some.injEq, Prod.mk.injEq] at hfound <;>
        obtain ⟨rfl, rfl⟩ := hfound
      · rename_i kind length hlongest
        have hpos := Pattern.longestOf_pos hlongest
        obtain ⟨pattern, hmem, hsame, rfl⟩ := Pattern.exists_mem_of_longestOf hlongest
        rw [honly pattern hmem hsame] at hpos ⊢
        simp only [Pattern.fixed] at hpos ⊢
        split at hpos
        · rename_i hprefix
          rw [if_pos hprefix]
          obtain ⟨more, hmore⟩ := List.isPrefixOf_iff_prefix.mp hprefix
          rw [← hmore, List.take_left]
        · omega
      · exact absurd rfl (hkind c)

theorem text_eq_hash {mode : Mode} {text rest : Text} {lexeme : Lexeme}
    (hfound : first? mode text = some (lexeme, rest)) (hkind : lexeme.kind = .hash) :
    lexeme.text = ['#'] := by
  refine text_eq_of_fixed hfound (by simp [hkind]) ?_
  rw [hkind]
  cases mode <;>
    simp [Mode.patterns, Pattern.ofCommands, Pattern.ofProse, Pattern.signs, Pattern.fixed]

theorem text_eq_of_delim {mode : Mode} {text rest : Text} {lexeme : Lexeme} {c : Char}
    (hfound : first? mode text = some (lexeme, rest)) (hkind : lexeme.kind = .delim c) : lexeme.text = [c] := by
  cases text with
  | nil => cases hfound
  | cons d cs =>
      simp only [first?] at hfound
      split at hfound <;> simp only [Option.some.injEq, Prod.mk.injEq] at hfound <;>
        obtain ⟨rfl, rfl⟩ := hfound
      · rename_i kind length hlongest
        obtain ⟨pattern, hmem, hsame, _⟩ := Pattern.exists_mem_of_longestOf hlongest
        have hnone : ∀ pattern ∈ mode.patterns, pattern.kind ≠ .delim c := by
          cases mode <;> simp [Mode.patterns, Pattern.ofCommands, Pattern.ofProse, Pattern.signs, Pattern.fixed]
        exact absurd (hsame.trans hkind) (hnone pattern hmem)
      · cases hkind
        rfl

end Lexeme

theorem Pattern.longestOf_asterisk (rest : Text) :
    longestOf ('*' :: rest) ofCommands = some (.asterisk, 1) := by
  have hname : opensName '*' = false := by decide +kernel
  have hdigit : Text.isDigit '*' = false := by decide
  simp [longestOf, ofCommands, signs, fixed, numberLength, digits, stringLength, badStringLength,
    nameLength, hname, hdigit]

theorem Pattern.longestOf_hash (rest : Text) : longestOf ('#' :: rest) ofProse = some (.hash, 1) := by
  have hletter : Text.isLetter '#' = false := by decide +kernel
  have hdigit : Text.isDigit '#' = false := by decide
  simp [longestOf, ofProse, signs, fixed, wordLength, numberLength, digits, hletter, hdigit]

theorem Text.isBlank_of_isAlphabetic {c : Char} (h : isAlphabetic c = true) : isBlank c = false := by
  cases hblank : isBlank c with
  | false => rfl
  | true =>
      rcases Bool.or_eq_true_iff.mp hblank with hc | hc <;> rw [beq_iff_eq.mp hc] at h <;>
        exact absurd h (by decide +kernel)

namespace LineType

theorem eq_of_ofContent_command {content : Text} (h : ofContent content = .command) :
    ∃ c more, content = '*' :: c :: more ∧ Text.isAlphabetic c = true := by
  unfold ofContent at h
  split at h
  · rename_i rest
    split at h
    · cases h
    · split at h
      · rename_i hany
        cases rest with
        | nil => cases hany
        | cons c more => exact ⟨c, more, rfl, hany⟩
      · cases h
  · cases h
  · cases h

theorem eq_of_ofContent_option {content : Text} (h : ofContent content = .option) :
    ∃ more, content = '#' :: more := by
  unfold ofContent at h
  split at h
  · split at h
    · cases h
    · split at h <;> cases h
  · exact ⟨_, rfl⟩
  · cases h

end LineType

end Gamebook
