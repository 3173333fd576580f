import Gamebook.Proofs.Lexeme.Munch

/-!
Lexemes that do not depend on what is behind them. A name ends where its letters do, so that it is the same
lexeme wherever it stands, and so does a word. Some characters, such as blanks and closing brackets, end whatever
stands before them in a command, but for a string without its closing quote.
-/

namespace Gamebook

namespace Pattern

/-- No operator and no sign begins as a name does. -/
theorem opensName_spelling : ∀ entry ∈ LexemeForm.operators ++ LexemeForm.signs,
    ∃ c more, entry.2 = c :: more ∧ opensName c = false := by
  have hall : ∀ entry ∈ LexemeForm.operators ++ LexemeForm.signs,
      entry.2.head?.any opensName = false ∧ entry.2 ≠ [] := by
    decide +kernel
  intro entry hentry
  obtain ⟨hhead, hne⟩ := hall entry hentry
  obtain ⟨c, more, hcons⟩ := List.exists_cons_of_ne_nil hne
  rw [hcons] at hhead
  exact ⟨c, more, hcons, hhead⟩

/-- A match that is the only one is the longest. -/
theorem longestOf_of_only {text : Text} {patterns : List Pattern} {pattern : Pattern} (hmem : pattern ∈ patterns)
    (hpos : 0 < pattern.longest text) (honly : ∀ other ∈ patterns, 0 < other.longest text → other = pattern) :
    longestOf text patterns = some (pattern.kind, pattern.longest text) := by
  have hbound := longest_le_longestOf text patterns pattern hmem
  cases hlongest : longestOf text patterns with
  | none =>
      rw [hlongest] at hbound
      exact absurd (Nat.le_zero.mp hbound) hpos.ne'
  | some found =>
      obtain ⟨kind, length⟩ := found
      have hfound := longestOf_pos hlongest
      obtain ⟨other, hother, rfl, rfl⟩ := exists_mem_of_longestOf hlongest
      rw [honly other hother hfound]

/-- Where a name or a word begins, nothing else does. -/
theorem eq_of_opensName {mode : Mode} {pattern : Pattern} (hmem : pattern ∈ mode.patterns) {c : Char}
    (hopens : opensName c = true) {rest : Text} (hpos : 0 < pattern.longest (c :: rest)) :
    (mode = .command ∧ pattern = ⟨.ident, nameLength⟩) ∨ (mode = .text ∧ pattern = ⟨.word, wordLength⟩) := by
  obtain ⟨hnumber, hquote⟩ := apart_of_opensName hopens
  have hquote : c ≠ '"' := ne_of_beq_false hquote
  rcases mem_patterns hmem with rfl | rfl | rfl | hname | hword | ⟨entry, hentry, rfl⟩
  · exact absurd (numberLength_eq_zero hnumber rest) hpos.ne'
  · exact absurd (quote_of_stringLength hpos) hquote
  · exact absurd (quote_of_badStringLength hpos) hquote
  · exact .inl hname
  · exact .inr hword
  · obtain ⟨d, more, hspelling, hd⟩ := opensName_spelling entry hentry
    have hprefix : entry.2.isPrefixOf (c :: rest) = true := by
      by_contra hnot
      exact absurd (if_neg hnot) hpos.ne'
    rw [hspelling] at hprefix
    obtain ⟨rfl, -⟩ := List.cons_prefix_cons.mp (List.isPrefixOf_iff_prefix.mp hprefix)
    rw [hopens] at hd
    cases hd

/-- Where a name begins, the name is the longest match. -/
theorem longestOf_name {c : Char} (hopens : opensName c = true) (rest : Text) :
    longestOf (c :: rest) ofCommands = some (.ident, (rest.takeWhile continuesName).length + 1) := by
  have hlength : nameLength (c :: rest) = (rest.takeWhile continuesName).length + 1 := if_pos hopens
  have hpos : 0 < nameLength (c :: rest) := Nat.lt_of_lt_of_eq (Nat.succ_pos _) hlength.symm
  rw [← hlength]
  refine @longestOf_of_only (c :: rest) Mode.command.patterns ⟨.ident, nameLength⟩
    (by simp [Mode.patterns, ofCommands]) hpos fun other hother hpos => ?_
  rcases eq_of_opensName hother hopens hpos with ⟨-, rfl⟩ | ⟨hmode, -⟩
  · rfl
  · cases hmode

/-- Where a word begins, the word is the longest match. -/
theorem longestOf_word {c : Char} (hletter : Text.isLetter c = true) (rest : Text) :
    longestOf (c :: rest) ofProse = some (.word, wordRest rest + 1) := by
  have hlength : wordLength (c :: rest) = wordRest rest + 1 := if_pos hletter
  have hpos : 0 < wordLength (c :: rest) := Nat.lt_of_lt_of_eq (Nat.succ_pos _) hlength.symm
  rw [← hlength]
  refine @longestOf_of_only (c :: rest) Mode.text.patterns ⟨.word, wordLength⟩
    (by simp [Mode.patterns, ofProse]) hpos fun other hother hpos => ?_
  rcases eq_of_opensName hother (Bool.or_eq_true_iff.mpr (.inl hletter)) hpos with ⟨hmode, -⟩ | ⟨-, rfl⟩
  · cases hmode
  · rfl

/-- Where a sign stands, the sign is the longest match. -/
theorem longestOf_sign (mode : Mode) {kind : TokenKind} {c : Char} (hsign : (kind, [c]) ∈ LexemeForm.signs)
    (rest : Text) : longestOf (c :: rest) mode.patterns = some (kind, 1) := by
  have hapart : ∀ entry ∈ LexemeForm.signs,
      (entry.2.all fun c => !(Text.isDigit c || c == '.') && c != '"' && !opensName c) = true := by
    decide +kernel
  have hsame : ∀ entry ∈ LexemeForm.signs, ∀ other ∈ LexemeForm.operators ++ LexemeForm.signs,
      other.2.head? = entry.2.head? → other = entry := by
    decide
  have hsigned := List.all_eq_true.mp (hapart _ hsign) c (List.mem_singleton_self c)
  simp only [Bool.and_eq_true, Bool.not_eq_true', bne_iff_ne] at hsigned
  obtain ⟨⟨hnumber, hquote⟩, hopens⟩ := hsigned
  have hlength : (ofSpelling (kind, [c])).longest (c :: rest) = 1 := if_pos (by simp)
  have hmem : ofSpelling (kind, [c]) ∈ mode.patterns := by
    have hsigns : signs = LexemeForm.signs.map ofSpelling := rfl
    have hin : ofSpelling (kind, [c]) ∈ signs := hsigns ▸ List.mem_map_of_mem hsign
    cases mode <;> exact List.mem_append_right _ hin
  have hfound := longestOf_of_only hmem (hlength.symm ▸ Nat.one_pos) fun other hother hpos => ?_
  · rw [hfound, hlength]
    rfl
  · rcases mem_patterns hother with rfl | rfl | rfl | ⟨-, rfl⟩ | ⟨-, rfl⟩ | ⟨entry, hentry, rfl⟩
    · exact absurd (numberLength_eq_zero hnumber rest) hpos.ne'
    · exact absurd (quote_of_stringLength hpos) hquote
    · exact absurd (quote_of_badStringLength hpos) hquote
    · exact absurd (if_neg (by rw [hopens]; exact Bool.false_ne_true)) hpos.ne'
    · exact absurd (if_neg (by rw [(Bool.or_eq_false_iff.mp hopens).1]; exact Bool.false_ne_true)) hpos.ne'
    · have hprefix : entry.2.isPrefixOf (c :: rest) = true := by
        by_contra hnot
        exact absurd (if_neg hnot) hpos.ne'
      have hlong : (ofSpelling entry).longest (c :: rest) = entry.2.length := if_pos hprefix
      obtain ⟨d, more, hspelling⟩ := List.exists_cons_of_length_pos (hlong ▸ hpos)
      rw [hspelling] at hprefix
      obtain ⟨rfl, -⟩ := List.cons_prefix_cons.mp (List.isPrefixOf_iff_prefix.mp hprefix)
      rw [hsame _ hsign entry hentry (by rw [hspelling]; rfl)]

/-- No pattern takes more than there is. -/
theorem longest_le_length {mode : Mode} {pattern : Pattern} (hmem : pattern ∈ mode.patterns) (text : Text) :
    pattern.longest text ≤ text.length := by
  rcases mem_patterns hmem with rfl | rfl | rfl | ⟨-, rfl⟩ | ⟨-, rfl⟩ | ⟨entry, -, rfl⟩
  · exact (longest_number text).le
  · rcases text with _ | ⟨c, left⟩
    · exact Nat.zero_le _
    · by_cases hpos : 0 < stringLength (c :: left)
      · obtain rfl := quote_of_stringLength hpos
        show ((closedLength left).map (· + 1)).getD 0 ≤ left.length + 1
        rcases quote_cases left with ⟨front, hfront, hclosed, -⟩ | ⟨-, hclosed, -⟩
        · rw [hclosed]
          exact Nat.succ_le_succ (by simpa using hfront.found.length_le)
        · rw [hclosed]
          exact Nat.zero_le _
      · exact (Nat.eq_zero_of_not_pos hpos).trans_le (Nat.zero_le _)
  · rcases text with _ | ⟨c, left⟩
    · exact Nat.zero_le _
    · by_cases hpos : 0 < badStringLength (c :: left)
      · obtain rfl := quote_of_badStringLength hpos
        show openLength left + 1 ≤ left.length + 1
        rcases quote_cases left with ⟨front, hfront, -, hopen⟩ | ⟨-, -, hopen⟩
        · rw [hopen]
          have hlength := hfront.found.length_le
          rw [List.length_append, List.length_singleton] at hlength
          omega
        · rw [hopen]
      · exact (Nat.eq_zero_of_not_pos hpos).trans_le (Nat.zero_le _)
  · exact (longest_name text).le
  · exact (longest_word text).le
  · exact (longest_fixed entry.1 entry.2 text).le

/-! ### In front of a separator -/

/-- A character that continues no number, no name and no spelling, whatever stands before it. -/
def separates (c : Char) : Bool :=
  !(Text.isDigit c || c == '.') && !continuesName c &&
    (LexemeForm.operators ++ LexemeForm.signs).all fun entry => !entry.2.tail.contains c

theorem separates_blank : separates ' ' = true := by decide +kernel

theorem separates_parenR : separates ')' = true := by decide +kernel

theorem separates_curlyR : separates '\x7d' = true := by decide +kernel

theorem longestOf_congr {text other : Text} {patterns : List Pattern}
    (h : ∀ pattern ∈ patterns, pattern.longest text = pattern.longest other) :
    longestOf text patterns = longestOf other patterns := by
  induction patterns with
  | nil => rfl
  | cons pattern more ih =>
      obtain ⟨hfirst, hmore⟩ := List.forall_mem_cons.mp h
      rw [longestOf, longestOf, hfirst, ih hmore]

theorem takeWhile_before {accepts : Char → Bool} {d : Char} (hrefused : accepts d = false) (text more : Text) :
    (text ++ d :: more).takeWhile accepts = text.takeWhile accepts := by
  induction text with
  | nil => exact List.takeWhile_cons_of_neg (by rw [hrefused]; exact Bool.false_ne_true)
  | cons c text ih => rw [List.cons_append, List.takeWhile_cons, List.takeWhile_cons, ih]

section Separated

variable {d : Char} (hseparates : separates d = true) (more : Text)
include hseparates

theorem numberLength_before (text : Text) : numberLength (text ++ d :: more) = numberLength text := by
  simp only [separates, Bool.and_eq_true, Bool.not_eq_true', Bool.or_eq_false_iff] at hseparates
  obtain ⟨⟨⟨hdigit, hpoint⟩, -⟩, -⟩ := hseparates
  have hpoint : d ≠ '.' := ne_of_beq_false hpoint
  have hdigits (text : Text) : digits (text ++ d :: more) = digits text := by
    rw [digits, takeWhile_before hdigit, digits]
  have hle : digits text ≤ text.length := (List.takeWhile_sublist _).length_le
  simp only [numberLength, hdigits, List.drop_append_of_le_length hle]
  cases text.drop (digits text) with
  | nil => simp [hpoint]
  | cons c rest =>
      by_cases hpoint : c = '.'
      · subst hpoint
        simp only [List.cons_append, hdigits]
      · simp [hpoint]

/-- No spelling goes on with a separator. -/
theorem fixed_before {entry : TokenKind × Text} (hentry : entry ∈ LexemeForm.operators ++ LexemeForm.signs)
    {text : Text} (hne : text ≠ []) :
    (ofSpelling entry).longest (text ++ d :: more) = (ofSpelling entry).longest text := by
  have hnone : d ∉ entry.2.tail := by
    have hall := List.all_eq_true.mp ((Bool.and_eq_true _ _).mp hseparates).2 entry hentry
    simpa using hall
  have hiff : entry.2.isPrefixOf (text ++ d :: more) = true ↔ entry.2.isPrefixOf text = true := by
    rw [List.isPrefixOf_iff_prefix, List.isPrefixOf_iff_prefix]
    refine ⟨fun hlong => ?_, fun hshort => hshort.trans (List.prefix_append _ _)⟩
    have hwhole : text ++ [d] <+: text ++ d :: more := List.prefix_append_right_inj text |>.mpr (by simp)
    rcases List.prefix_or_prefix_of_prefix hlong hwhole with hspelling | hspelling
    · rcases List.prefix_concat_iff.mp hspelling with heq | hshort
      · refine absurd ?_ hnone
        rw [heq, List.tail_append_of_ne_nil hne]
        exact List.mem_append_right _ (List.mem_singleton_self _)
      · exact hshort
    · obtain ⟨rest, heq⟩ := hspelling
      refine absurd ?_ hnone
      rw [← heq, List.append_assoc, List.tail_append_of_ne_nil hne]
      exact List.mem_append_right _ (List.mem_cons_self)
  exact if_congr hiff rfl rfl

theorem longest_before {pattern : Pattern} (hmem : pattern ∈ Mode.command.patterns) {c : Char} (hquote : c ≠ '"')
    (rest : Text) : pattern.longest (c :: (rest ++ d :: more)) = pattern.longest (c :: rest) := by
  rcases mem_patterns hmem with rfl | rfl | rfl | ⟨-, rfl⟩ | ⟨hmode, -⟩ | ⟨entry, hentry, rfl⟩
  · exact numberLength_before hseparates more (c :: rest)
  · have hnone (rest : Text) : stringLength (c :: rest) = 0 :=
      Nat.eq_zero_of_not_pos fun hpos => hquote (quote_of_stringLength hpos)
    exact (hnone _).trans (hnone _).symm
  · have hnone (rest : Text) : badStringLength (c :: rest) = 0 :=
      Nat.eq_zero_of_not_pos fun hpos => hquote (quote_of_badStringLength hpos)
    exact (hnone _).trans (hnone _).symm
  · have hname : continuesName d = false := by
      simp only [separates, Bool.and_eq_true, Bool.not_eq_true'] at hseparates
      exact hseparates.1.2
    show (if opensName c then ((rest ++ d :: more).takeWhile continuesName).length + 1 else 0) = _
    rw [takeWhile_before hname]
    rfl
  · cases hmode
  · exact fixed_before hseparates more hentry (List.cons_ne_nil c rest)

end Separated

theorem closedLength_append {text : Text} {length : Nat} (h : closedLength text = some length) (more : Text) :
    closedLength (text ++ more) = some length := by
  induction text using quote_induction generalizing length with
  | nil => cases h
  | backslash => cases h
  | quote text => exact h
  | escape c text ih =>
      obtain ⟨inner, hinner, rfl⟩ := Option.map_eq_some_iff.mp h
      exact congrArg (Option.map (· + 2)) (ih hinner)
  | plain c text hquote hbackslash ih =>
      rw [closedLength_cons hquote hbackslash] at h
      obtain ⟨inner, hinner, rfl⟩ := Option.map_eq_some_iff.mp h
      rw [List.cons_append, closedLength_cons hquote hbackslash, ih hinner]
      rfl

/-- Whether a word could go on with a character. -/
def continuesWord (c : Char) : Bool := Text.isLetter c || isApostrophe c

theorem continuesWord_of_isBlank {c : Char} (hblank : Text.isBlank c = true) : continuesWord c = false := by
  have hspace : continuesWord ' ' = false ∧ continuesWord '\t' = false := by decide +kernel
  rcases Bool.or_eq_true_iff.mp hblank with hsame | hsame <;> rw [beq_iff_eq.mp hsame]
  · exact hspace.1
  · exact hspace.2

end Pattern

/-- A word is made of letters and apostrophes. -/
theorem Text.continuesWord_of_mem_word {word : Text} (h : word ∈ LexemeForm.word.language) :
    ∀ c ∈ word, Pattern.continuesWord c = true := by
  obtain ⟨front, hfront, back, hback, rfl⟩ := Regex.mem_seq.mp h
  intro c hc
  rcases List.mem_append.mp hc with hc | hc
  · exact Bool.or_eq_true_iff.mpr (.inl ((Regex.mem_plus_one.mp hfront).2 c hc))
  · obtain ⟨parts, rfl, hparts⟩ := Language.mem_kstar.mp hback
    obtain ⟨part, hpart, hc⟩ := List.mem_flatten.mp hc
    obtain ⟨_, ⟨d, hd, rfl⟩, letters, hletters, rfl⟩ := Regex.mem_seq.mp (hparts part hpart)
    rcases List.mem_cons.mp hc with rfl | hc
    · exact Bool.or_eq_true_iff.mpr (.inr hd)
    · exact Bool.or_eq_true_iff.mpr (.inl ((Regex.mem_plus_one.mp hletters).2 c hc))

/-- Letters are a word. -/
theorem Text.mem_word_of_all {text : Text} (hne : text ≠ []) (hletters : text.all isLetter = true) :
    text ∈ LexemeForm.word.language :=
  Regex.mem_seq.mpr ⟨text, Regex.mem_plus_one.mpr ⟨hne, List.all_eq_true.mp hletters⟩, [], Regex.nil_mem_star,
    List.append_nil text⟩

theorem Text.exists_of_mem_word {word : Text} (h : word ∈ LexemeForm.word.language) :
    ∃ c rest, word = c :: rest ∧ isLetter c = true ∧ isBlank c = false := by
  cases word with
  | nil =>
      obtain ⟨front, hfront, back, -, hnil⟩ := Regex.mem_seq.mp h
      exact absurd (List.append_eq_nil_iff.mp hnil).1 (Regex.mem_plus_one.mp hfront).1
  | cons c rest =>
      refine ⟨c, rest, rfl, (Pattern.mem_word.mp h).1, Bool.eq_false_iff.mpr fun hblank => ?_⟩
      have hcontinues := continuesWord_of_mem_word h c List.mem_cons_self
      rw [Pattern.continuesWord_of_isBlank hblank] at hcontinues
      cases hcontinues

namespace Lexeme

open Pattern (opensName continuesName)

theorem first?_name {c : Char} (hopens : opensName c = true) (rest : Text) : first? .command (c :: rest) =
    some (⟨.ident, c :: rest.takeWhile continuesName⟩, rest.dropWhile continuesName) := by
  have hfirst := first?_of_longestOf .command (Pattern.longestOf_name hopens rest)
  rw [List.take_succ_cons, take_length_takeWhile] at hfirst
  have hsplit : (c :: rest.takeWhile continuesName) ++ rest.dropWhile continuesName = c :: rest :=
    congrArg (List.cons c) List.takeWhile_append_dropWhile
  rw [hfirst, List.append_cancel_left ((append_of_first? hfirst).trans hsplit.symm)]

/-- A name in front of what cannot continue it is a lexeme. -/
theorem first?_name_apart {c : Char} {name rest : Text} (hopens : opensName c = true)
    (hname : ∀ d ∈ name, continuesName d = true) (hrest : ∀ d ∈ rest.head?, continuesName d = false) :
    first? .command (c :: (name ++ rest)) = some (⟨.ident, c :: name⟩, rest) := by
  have hnone : rest.takeWhile continuesName = [] ∧ rest.dropWhile continuesName = rest := by
    cases rest with
    | nil => exact ⟨rfl, rfl⟩
    | cons d rest =>
        have hd : ¬continuesName d = true := by
          rw [hrest d rfl]
          exact Bool.false_ne_true
        exact ⟨List.takeWhile_cons_of_neg hd, List.dropWhile_cons_of_neg hd⟩
  rw [first?_name hopens, List.takeWhile_append_of_pos hname, List.dropWhile_append_of_pos hname, hnone.1, hnone.2,
    List.append_nil]

/-- Names are read among commands only, and begin as names do. -/
theorem opensName_of_first? {mode : Mode} {text left : Text} {lexeme : Lexeme}
    (hfirst : first? mode text = some (lexeme, left)) (hkind : lexeme.kind = .ident) :
    mode = .command ∧ ∃ c rest, text = c :: rest ∧ opensName c = true := by
  obtain ⟨pattern, hmem, hsame, hpos⟩ | ⟨c, hdelim⟩ := pattern_cases_of_first? hfirst
  · rw [hkind] at hsame
    rcases Pattern.mem_patterns hmem with rfl | rfl | rfl | ⟨rfl, rfl⟩ | ⟨-, rfl⟩ | ⟨entry, hentry, rfl⟩
    · cases hsame
    · cases hsame
    · cases hsame
    · cases text with
      | nil => exact absurd hpos (Nat.lt_irrefl 0)
      | cons c rest =>
          refine ⟨rfl, c, rest, rfl, ?_⟩
          by_contra hnot
          exact absurd (if_neg hnot) hpos.ne'
    · cases hsame
    · have hnone : ∀ entry ∈ LexemeForm.operators ++ LexemeForm.signs, entry.1 ≠ .ident := by decide
      exact absurd hsame (hnone entry hentry)
  · rw [hkind] at hdelim
    cases hdelim

/-- Strings begin with a quote. -/
theorem quote_of_first? {mode : Mode} {c : Char} {rest left : Text} {lexeme : Lexeme}
    (hfirst : first? mode (c :: rest) = some (lexeme, left)) (hkind : lexeme.kind = .string ∨ lexeme.kind = .badString) :
    c = '"' := by
  obtain ⟨pattern, hmem, hsame, hpos⟩ | ⟨d, hdelim⟩ := pattern_cases_of_first? hfirst
  · rw [← hsame] at hkind
    rcases Pattern.mem_patterns hmem with rfl | rfl | rfl | ⟨-, rfl⟩ | ⟨-, rfl⟩ | ⟨entry, hentry, rfl⟩
    · exact hkind.elim nofun nofun
    · exact Pattern.quote_of_stringLength hpos
    · exact Pattern.quote_of_badStringLength hpos
    · exact hkind.elim nofun nofun
    · exact hkind.elim nofun nofun
    · have hnone : ∀ entry ∈ LexemeForm.operators ++ LexemeForm.signs, entry.1 ≠ .string ∧ entry.1 ≠ .badString := by
        decide
      exact hkind.elim (fun h => absurd h (hnone entry hentry).1) (fun h => absurd h (hnone entry hentry).2)
  · rw [hdelim] at hkind
    exact hkind.elim nofun nofun

theorem first?_sign (mode : Mode) {kind : TokenKind} {c : Char} (hsign : (kind, [c]) ∈ LexemeForm.signs) (rest : Text) :
    first? mode (c :: rest) = some (⟨kind, [c]⟩, rest) :=
  first?_of_longestOf mode (Pattern.longestOf_sign mode hsign rest)

/-- A word is a lexeme of prose in front of what cannot continue it, and so is one that nothing follows. -/
theorem first?_word {word rest : Text} (hword : word ∈ LexemeForm.word.language)
    (hrest : ∀ c ∈ rest.head?, Pattern.continuesWord c = false) :
    first? .text (word ++ rest) = some (⟨.word, word⟩, rest) := by
  obtain ⟨c, word, rfl, hletter, -⟩ := Text.exists_of_mem_word hword
  have hmeasured := Pattern.longest_word (c :: word ++ rest)
  have hlength : Pattern.wordLength (c :: word ++ rest) = Pattern.wordRest (word ++ rest) + 1 := if_pos hletter
  have hle : (c :: word).length ≤ Pattern.wordLength (c :: word ++ rest) :=
    hmeasured.bound (List.prefix_append _ _) hword
  have hge : Pattern.wordLength (c :: word ++ rest) ≤ (c :: word).length := by
    -- a longer word would go on with the character behind the word
    by_contra hlonger
    have hmem := hmeasured.reached (Nat.zero_lt_of_lt (Nat.lt_of_not_le hlonger))
    obtain ⟨extra, hextra⟩ := Nat.exists_eq_add_of_lt (Nat.lt_of_not_le hlonger)
    rw [hextra, Nat.add_assoc, List.take_length_add_append] at hmem
    have hlong := hmeasured.le
    cases rest with
    | nil =>
        rw [List.append_nil] at hlong hlonger
        exact hlonger hlong
    | cons d rest =>
        have hcontinues := Text.continuesWord_of_mem_word hmem d (List.mem_append_right _ List.mem_cons_self)
        rw [hrest d rfl] at hcontinues
        cases hcontinues
  have hsame : Pattern.wordRest (word ++ rest) + 1 = (c :: word).length := hlength ▸ Nat.le_antisymm hge hle
  have hfirst := first?_of_longestOf .text (Pattern.longestOf_word hletter (word ++ rest))
  rwa [hsame, ← List.cons_append, List.take_left, List.drop_left] at hfirst

/-- What stands before a separator is the same lexeme without it, but for a string without its closing quote. -/
theorem first?_before {text left : Text} {lexeme : Lexeme} (hfirst : first? .command text = some (lexeme, left))
    (hclosed : lexeme.kind ≠ .badString) {d : Char} (hseparates : Pattern.separates d = true) (more : Text) :
    first? .command (text ++ d :: more) = some (lexeme, left ++ d :: more) := by
  cases text with
  | nil => cases hfirst
  | cons c rest =>
      have hsame : Pattern.longestOf (c :: (rest ++ d :: more)) Mode.command.patterns =
          Pattern.longestOf (c :: rest) Mode.command.patterns := by
        by_cases hquote : c = '"'
        · subst hquote
          have hlongest : Pattern.longestOf ('"' :: rest) Mode.command.patterns = _ := Pattern.longestOf_quote rest
          cases hlength : Pattern.closedLength rest with
          | none =>
              rw [hlength] at hlongest
              rw [first?, hlongest] at hfirst
              cases hfirst
              exact absurd rfl hclosed
          | some length =>
              rw [hlongest, hlength, Mode.patterns, Pattern.longestOf_quote, Pattern.closedLength_append hlength]
        · exact Pattern.longestOf_congr fun pattern hpattern =>
            Pattern.longest_before hseparates more hpattern hquote rest
      rw [first?] at hfirst
      rw [List.cons_append, first?, hsame]
      cases hlongest : Pattern.longestOf (c :: rest) Mode.command.patterns with
      | none =>
          rw [hlongest] at hfirst
          cases hfirst
          rfl
      | some found =>
          obtain ⟨kind, length⟩ := found
          rw [hlongest] at hfirst
          cases hfirst
          obtain ⟨pattern, hmem, -, rfl⟩ := Pattern.exists_mem_of_longestOf hlongest
          have hle := Pattern.longest_le_length hmem (c :: rest)
          dsimp only
          rw [← List.cons_append, List.take_append_of_le_length hle, List.drop_append_of_le_length hle]

end Lexeme

end Gamebook
