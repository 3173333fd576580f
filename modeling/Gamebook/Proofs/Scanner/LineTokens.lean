import Gamebook.Proofs.Reader.Sequence
import Gamebook.Proofs.Scanner.Session

/-!
The tokens of a line: the indentation, the lexemes of the content or the comment that it is, and the line
break. Nothing of the line is lost but blanks in its content.
-/

namespace Gamebook

/-! ### Lexemes in a text -/

/-- Lexemes that stand in a text one behind the other, with blanks around them. -/
inductive Spread : Nat → Text → List Located → Prop
  | blank {offset : Nat} {gap : Text} (hgap : ∀ c ∈ gap, Text.isBlank c = true) : Spread offset gap []
  | lexeme {offset : Nat} {gap rest : Text} {lexeme : Lexeme} {signs : List Located}
      (hgap : ∀ c ∈ gap, Text.isBlank c = true) (hkind : lexeme.kind.isLayout = false) (htext : lexeme.text ≠ [])
      (hrest : Spread (offset + Text.bytes gap + Text.bytes lexeme.text) rest signs) :
      Spread offset (gap ++ lexeme.text ++ rest) (⟨lexeme, offset + Text.bytes gap⟩ :: signs)

theorem Text.bytes_of_blank {gap : Text} (hgap : ∀ c ∈ gap, isBlank c = true) : bytes gap = gap.length := by
  have hall : (gap ++ []).takeWhile isBlank = gap ++ [].takeWhile isBlank := List.takeWhile_append_of_pos hgap
  rw [List.takeWhile_nil, List.append_nil] at hall
  rw [← hall]
  exact bytes_takeWhile_isBlank gap

namespace Spread

variable {offset : Nat} {text : Text} {signs : List Located}

theorem kinds (h : Spread offset text signs) : ∀ sign ∈ signs, sign.lexeme.kind.isLayout = false := by
  induction h with
  | blank _ => simp
  | lexeme _ hkind _ _ ih => exact List.forall_mem_cons.mpr ⟨hkind, ih⟩

theorem length_le (h : Spread offset text signs) : signs.length ≤ text.length := by
  induction h with
  | blank _ => exact Nat.zero_le _
  | lexeme _ _ htext _ ih =>
      have hpos := List.length_pos_iff.mpr htext
      simp only [List.length_cons, List.length_append]
      omega

theorem bounds (h : Spread offset text signs) :
    ∀ sign ∈ signs, offset ≤ sign.offset ∧ sign.stop ≤ offset + Text.bytes text := by
  induction h with
  | blank _ => simp
  | lexeme _ _ _ _ ih =>
      rw [Text.bytes_append, Text.bytes_append]
      refine List.forall_mem_cons.mpr ⟨⟨Nat.le_add_right _ _, ?_⟩, fun sign hsign => ?_⟩
      · simp only [Located.stop]
        omega
      · have hbounds := ih sign hsign
        omega

theorem ordered (h : Spread offset text signs) : signs.Pairwise fun former latter => former.stop ≤ latter.offset := by
  induction h with
  | blank _ => exact .nil
  | lexeme _ _ _ hrest ih => exact .cons (fun sign hsign => (hrest.bounds sign hsign).1) ih

/-- What no lexeme covers is blank. -/
theorem gaps (h : Spread offset text signs) {place : Nat} (hfrom : offset ≤ place) (hto : place < offset + Text.bytes text) :
    (∃ sign ∈ signs, sign.offset ≤ place ∧ place < sign.stop) ∨
      ∃ before c behind, text = before ++ c :: behind ∧ Text.isBlank c = true ∧ place = offset + Text.bytes before := by
  -- a blank takes one byte, so that the place in a gap is the number of blanks before it
  have hblank : ∀ {gap : Text} {start : Nat}, (∀ c ∈ gap, Text.isBlank c = true) → start ≤ place →
      place < start + Text.bytes gap →
        ∃ before c behind, gap = before ++ c :: behind ∧ Text.isBlank c = true ∧ place = start + Text.bytes before := by
    intro gap start hgap hfrom hto
    rw [Text.bytes_of_blank hgap] at hto
    have hindex : place - start < gap.length := by omega
    refine ⟨gap.take (place - start), gap[place - start], gap.drop (place - start + 1), ?_, hgap _ (List.getElem_mem _), ?_⟩
    · rw [← List.drop_eq_getElem_cons hindex, List.take_append_drop]
    · rw [Text.bytes_of_blank fun c hc => hgap c (List.mem_of_mem_take hc), List.length_take]
      omega
  induction h with
  | blank hgap => exact .inr (hblank hgap hfrom hto)
  | lexeme hgap _ _ _ ih =>
      rename_i offset gap rest lexeme signs _ _ _
      rw [Text.bytes_append, Text.bytes_append] at hto
      by_cases hin : place < offset + Text.bytes gap
      · obtain ⟨before, c, behind, rfl, hc, hplace⟩ := hblank hgap hfrom hin
        exact .inr ⟨before, c, behind ++ lexeme.text ++ rest, by simp, hc, hplace⟩
      · by_cases hon : place < offset + Text.bytes gap + Text.bytes lexeme.text
        · exact .inl ⟨_, List.mem_cons_self, Nat.not_lt.mp hin, hon⟩
        · rcases ih (Nat.not_lt.mp hon) (by omega) with ⟨sign, hsign, hcovers⟩ | ⟨before, c, behind, rfl, hc, hplace⟩
          · exact .inl ⟨sign, List.mem_cons_of_mem _ hsign, hcovers⟩
          · refine .inr ⟨gap ++ lexeme.text ++ before, c, behind, by simp, hc, ?_⟩
            rw [hplace, Text.bytes_append, Text.bytes_append]
            omega

end Spread

theorem Lexeme.spread_sequence (mode : Mode) (offset : Nat) (text : Text) :
    Spread offset text (sequence mode offset text) := by
  induction hlength : text.length using Nat.strongRecOn generalizing offset text with
  | ind size ih =>
      have hsplit := List.takeWhile_append_dropWhile (p := Text.isBlank) (l := text)
      have hgap : ∀ c ∈ text.takeWhile Text.isBlank, Text.isBlank c = true := List.all_eq_true.mp List.all_takeWhile
      cases hfirst : first? mode (text.dropWhile Text.isBlank) with
      | none =>
          have hrest := first?_eq_none_iff.mp hfirst
          rw [hrest, List.append_nil] at hsplit
          rw [← sequence_dropWhile, hrest, sequence_nil]
          exact .blank (hsplit ▸ hgap)
      | some found =>
          obtain ⟨lexeme, rest⟩ := found
          have hmore := ih rest.length (hlength ▸ length_lt_of_first? hfirst)
            (offset + Text.bytes (text.takeWhile Text.isBlank) + Text.bytes lexeme.text) rest rfl
          have hspread := Spread.lexeme hgap (isLayout_of_first? hfirst) (ne_nil_of_first? hfirst) hmore
          rw [List.append_assoc, append_of_first? hfirst, hsplit] at hspread
          rw [sequence_of_first? hfirst, ← Text.bytes_takeWhile_isBlank]
          exact hspread

/-! ### The tokens of a line -/

def Located.token (source : Text) (sign : Located) : Token :=
  .inSource source sign.lexeme.kind sign.lexeme.text sign.offset

def TokenKind.isIndentation : TokenKind → Bool
  | .indentation _ _ => true
  | _ => false

namespace Line

def indentToken (source : Text) (line : Line) : Token :=
  .inSource source (.indentation line.width (.ofRun line.indent)) line.indent line.start

def breakToken (source : Text) (line : Line) : Token := .inSource source .eol line.ending.text line.contentEnd

/-- The content of a line in pieces: its lexemes, or all of it in a comment. -/
def signs (line : Line) : List Located :=
  if line.type = .comment then [⟨⟨.singleLineComment, line.content⟩, line.contentStart⟩]
  else Lexeme.sequence (.ofLineType line.type) line.contentStart line.content

/-- The tokens of a line before its break. -/
def inlineTokens (source : Text) (line : Line) : List Token :=
  (if line.isIndented then [line.indentToken source] else []) ++ line.signs.map (Located.token source)

def tokens (source : Text) (line : Line) : List Token :=
  line.inlineTokens source ++ if line.hasBreak then [line.breakToken source] else []

variable {source : Text} {line : Line}

theorem content_ne_nil_of_comment (h : line.type = .comment) : line.content ≠ [] := by
  intro hnil
  rw [type, hnil] at h
  cases h

theorem spread_signs (line : Line) : Spread line.contentStart line.content line.signs := by
  unfold signs
  split
  · rename_i hcomment
    have hspread := @Spread.lexeme line.contentStart [] [] ⟨.singleLineComment, line.content⟩ [] nofun rfl
      (content_ne_nil_of_comment hcomment) (.blank nofun)
    rw [List.nil_append, List.append_nil] at hspread
    exact hspread
  · exact Lexeme.spread_sequence _ _ _

/-- What a line has for tokens, one case for each. -/
theorem mem_tokens {token : Token} (h : token ∈ line.tokens source) :
    (line.isIndented = true ∧ token = line.indentToken source) ∨
      (∃ sign ∈ line.signs, token = sign.token source) ∨ (line.hasBreak = true ∧ token = line.breakToken source) := by
  rcases List.mem_append.mp h with h | h
  · rcases List.mem_append.mp h with h | h
    · split at h
      · rename_i hindented
        exact .inl ⟨hindented, List.mem_singleton.mp h⟩
      · cases h
    · obtain ⟨sign, hsign, rfl⟩ := List.mem_map.mp h
      exact .inr (.inl ⟨sign, hsign, rfl⟩)
  · split at h
    · rename_i hbreak
      exact .inr (.inr ⟨hbreak, List.mem_singleton.mp h⟩)
    · cases h

theorem kind_ne_eof {token : Token} (h : token ∈ line.tokens source) : token.kind ≠ .eof := by
  rcases mem_tokens h with ⟨_, rfl⟩ | ⟨sign, hsign, rfl⟩ | ⟨_, rfl⟩
  · exact TokenKind.noConfusion
  · intro heof
    have hkind := line.spread_signs.kinds sign hsign
    rw [show sign.lexeme.kind = .eof from heof] at hkind
    cases hkind
  · exact TokenKind.noConfusion

theorem token_bounds {token : Token} (h : token ∈ line.tokens source) :
    line.start ≤ token.offset ∧ token.stop ≤ line.stop := by
  obtain ⟨hcontent, hend, hstop⟩ := line.offsets
  rcases mem_tokens h with ⟨_, rfl⟩ | ⟨sign, hsign, rfl⟩ | ⟨_, rfl⟩
  · refine ⟨Nat.le_refl _, ?_⟩
    show line.start + Text.bytes line.indent ≤ line.stop
    omega
  · obtain ⟨hfrom, hto⟩ := line.spread_signs.bounds sign hsign
    refine ⟨?_, ?_⟩
    · show line.start ≤ sign.offset
      omega
    · show sign.stop ≤ line.stop
      omega
  · refine ⟨?_, Nat.le_refl _⟩
    show line.start ≤ line.contentEnd
    omega

theorem tokens_ordered (source : Text) (line : Line) :
    (line.tokens source).Pairwise fun former latter => former.stop ≤ latter.offset := by
  have hspread := line.spread_signs
  obtain ⟨hcontent, hend, hstop⟩ := line.offsets
  rw [tokens, inlineTokens, List.pairwise_append, List.pairwise_append]
  refine ⟨⟨?_, ?_, ?_⟩, ?_, ?_⟩
  · split
    · exact List.pairwise_singleton _ _
    · exact .nil
  · rw [List.pairwise_map]
    exact hspread.ordered
  · intro former hformer latter hlatter
    obtain ⟨sign, hsign, rfl⟩ := List.mem_map.mp hlatter
    split at hformer
    · rw [List.mem_singleton.mp hformer]
      exact (hspread.bounds sign hsign).1
    · cases hformer
  · split
    · exact List.pairwise_singleton _ _
    · exact .nil
  · intro former hformer latter hlatter
    split at hlatter
    · rw [List.mem_singleton.mp hlatter]
      show former.stop ≤ line.contentEnd
      rcases List.mem_append.mp hformer with hformer | hformer
      · split at hformer
        · rw [List.mem_singleton.mp hformer]
          show line.contentStart ≤ line.contentEnd
          omega
        · cases hformer
      · obtain ⟨sign, hsign, rfl⟩ := List.mem_map.mp hformer
        exact hend ▸ (hspread.bounds sign hsign).2
    · cases hlatter

theorem filter_signs {test : Token → Bool} (hlayout : ∀ token, test token = true → token.kind.isLayout = true) :
    (line.signs.map (Located.token source)).filter test = [] := by
  rw [List.filter_eq_nil_iff]
  intro token htoken htest
  obtain ⟨sign, hsign, rfl⟩ := List.mem_map.mp htoken
  have hkind := line.spread_signs.kinds sign hsign
  rw [show sign.lexeme.kind.isLayout = true from hlayout _ htest] at hkind
  cases hkind

theorem filter_isIndentation (source : Text) (line : Line) : (line.tokens source).filter (·.kind.isIndentation) =
    if line.isIndented then [line.indentToken source] else [] := by
  rw [tokens, inlineTokens, List.filter_append, List.filter_append, filter_signs, List.append_nil]
  · have hbreak : (if line.hasBreak then [line.breakToken source] else []).filter (·.kind.isIndentation) = [] := by
      split <;> rfl
    rw [hbreak, List.append_nil]
    split <;> rfl
  · intro token htoken
    cases hkind : token.kind <;> simp [TokenKind.isIndentation, TokenKind.isLayout, hkind] at htoken ⊢

theorem filter_eol (source : Text) (line : Line) : (line.tokens source).filter (·.kind == .eol) =
    if line.hasBreak then [line.breakToken source] else [] := by
  rw [tokens, inlineTokens, List.filter_append, List.filter_append, filter_signs]
  · have hindent : (if line.isIndented then [line.indentToken source] else []).filter (·.kind == .eol) = [] := by
      split <;> rfl
    rw [hindent, List.append_nil, List.nil_append]
    split <;> rfl
  · intro token htoken
    rw [beq_iff_eq.mp htoken]
    rfl

/-- What no token of a line covers is a blank in its content. -/
theorem tokens_gaps {place : Nat} (hfrom : line.start ≤ place) (hto : place < line.stop) :
    (∃ token ∈ line.tokens source, token.offset ≤ place ∧ place < token.stop) ∨
      ∃ before c behind, line.content = before ++ c :: behind ∧ Text.isBlank c = true ∧
        place = line.contentStart + Text.bytes before := by
  obtain ⟨hcontent, hend, hstop⟩ := line.offsets
  by_cases hindent : place < line.contentStart
  · have hindented : line.isIndented = true := by
      cases hnil : line.indent with
      | nil =>
          rw [hnil, Text.bytes_nil] at hcontent
          omega
      | cons c more => rw [isIndented, hnil]; rfl
    refine .inl ⟨line.indentToken source, ?_, hfrom, hindent⟩
    rw [tokens, inlineTokens, if_pos hindented]
    simp
  · by_cases hinside : place < line.contentEnd
    · rcases line.spread_signs.gaps (Nat.not_lt.mp hindent) (hend ▸ hinside) with ⟨sign, hsign, hcovers⟩ | hblank
      · refine .inl ⟨sign.token source, ?_, hcovers⟩
        exact List.mem_append_left _ (List.mem_append_right _ (List.mem_map_of_mem hsign))
      · exact .inr hblank
    · have hbreak : line.hasBreak = true := by
        cases hending : line.ending with
        | none =>
            rw [hending, LineEnding.text, Text.bytes_nil] at hstop
            omega
        | lf => rw [hasBreak, hending]; rfl
        | crlf => rw [hasBreak, hending]; rfl
      refine .inl ⟨line.breakToken source, ?_, Nat.not_lt.mp hinside, hto⟩
      rw [tokens, if_pos hbreak]
      simp

theorem length_tokens_le (source : Text) (line : Line) : (line.tokens source).length ≤ line.whole.length := by
  have hsigns := line.spread_signs.length_le
  have hindent : (if line.isIndented then [line.indentToken source] else []).length ≤ line.indent.length := by
    split
    · rename_i hindented
      exact List.length_pos_iff.mpr (indent_ne_nil hindented)
    · exact Nat.zero_le _
  have hbreak : (if line.hasBreak then [line.breakToken source] else []).length ≤ line.ending.text.length := by
    split
    · rename_i hbreak
      exact List.length_pos_iff.mpr (ending_ne_nil hbreak)
    · exact Nat.zero_le _
  rw [tokens, inlineTokens, whole]
  simp only [List.length_append, List.length_map]
  omega

end Line

end Gamebook
