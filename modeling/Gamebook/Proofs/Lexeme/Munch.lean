import Gamebook.Proofs.Lexeme.Quote
import Gamebook.Proofs.Scanner.Tokens

/-!
Maximal munch. The token at a place of a line is the longest match of the expressions that are declared for the
mode, of the one kind that matches so far; a character at which no expression matches stands for itself.
-/

namespace Gamebook

/-- A text at the front of another, which an expression matches that the mode declares for a kind. -/
structure Mode.Matches (mode : Mode) (text : Text) (kind : TokenKind) (front : Text) : Prop where
  atFront : front <+: text
  nonempty : front ≠ []
  declared : ∃ entry ∈ mode.declared, entry.kind = kind ∧ front ∈ entry.regex.language

/-- A match that no other match exceeds. -/
structure Mode.LongestMatch (mode : Mode) (text : Text) (kind : TokenKind) (front : Text) : Prop
    extends mode.Matches text kind front where
  longest : ∀ {kind' front'}, mode.Matches text kind' front' → front'.length ≤ front.length

namespace Pattern

/-- A pattern measures the longest match of the expression that is declared for its kind, within a line. -/
structure Recognises (pattern : Pattern) (entry : LexemeForm) : Prop where
  kind : pattern.kind = entry.kind
  longest : ∀ text, '\n' ∉ text → entry.regex.Longest text (pattern.longest text)

/-- The pattern of a kind with a fixed spelling. -/
def ofSpelling (entry : TokenKind × Text) : Pattern := fixed entry.1 entry.2

theorem recognises_spellings (entries : List (TokenKind × Text)) :
    List.Forall₂ Recognises (entries.map ofSpelling) (entries.map .ofSpelling) := by
  rw [List.forall₂_map_left_iff, List.forall₂_map_right_iff]
  exact List.forall₂_same.mpr fun entry _ => ⟨rfl, fun text _ => longest_fixed entry.1 entry.2 text⟩

theorem recognises_patterns (mode : Mode) : List.Forall₂ Recognises mode.patterns mode.declared := by
  have hnumber : Recognises ⟨.num, numberLength⟩ ⟨.num, LexemeForm.number⟩ := ⟨rfl, fun text _ => longest_number text⟩
  cases mode with
  | command =>
      exact .cons hnumber (.cons ⟨rfl, fun _ => longest_string⟩ (.cons ⟨rfl, fun _ => longest_badString⟩
        (.cons ⟨rfl, fun text _ => longest_name text⟩
          (recognises_spellings (LexemeForm.operators ++ LexemeForm.signs)))))
  | text => exact .cons ⟨rfl, fun text _ => longest_word text⟩ (.cons hnumber (recognises_spellings LexemeForm.signs))

theorem exists_of_forall₂ {α β : Type} {relation : α → β → Prop} {left : List α} {right : List β}
    (h : List.Forall₂ relation left right) :
    (∀ a ∈ left, ∃ b ∈ right, relation a b) ∧ ∀ b ∈ right, ∃ a ∈ left, relation a b := by
  induction h with
  | nil => exact ⟨nofun, nofun⟩
  | cons hhead _ ih =>
      constructor
      · rintro a (_ | ⟨_, ha⟩)
        · exact ⟨_, List.mem_cons_self, hhead⟩
        · obtain ⟨b, hb, hab⟩ := ih.1 a ha
          exact ⟨b, List.mem_cons_of_mem _ hb, hab⟩
      · rintro b (_ | ⟨_, hb⟩)
        · exact ⟨_, List.mem_cons_self, hhead⟩
        · obtain ⟨a, ha, hab⟩ := ih.2 b hb
          exact ⟨a, List.mem_cons_of_mem _ ha, hab⟩

/-- No pattern goes further than the longest match. -/
theorem longest_le_longestOf (text : Text) (patterns : List Pattern) :
    ∀ pattern ∈ patterns, pattern.longest text ≤ ((longestOf text patterns).map (·.2)).getD 0 := by
  induction patterns with
  | nil => exact nofun
  | cons pattern more ih =>
      rw [List.forall_mem_cons, longestOf]
      cases hmore : longestOf text more with
      | none =>
          rw [hmore] at ih
          have hzero : ∀ pattern ∈ more, pattern.longest text = 0 := fun other hmem => Nat.le_zero.mp (ih other hmem)
          by_cases hlength : pattern.longest text = 0
          · simpa [hlength] using hzero
          · simpa [hlength] using fun other hmem => (hzero other hmem).trans_le (Nat.zero_le _)
      | some found =>
          obtain ⟨kind, other⟩ := found
          rw [hmore] at ih
          have hle : ∀ pattern ∈ more, pattern.longest text ≤ other := ih
          by_cases hlength : pattern.longest text < other
          · simpa [hlength, hlength.le] using hle
          · simpa [hlength] using fun found hmem => (hle found hmem).trans (Nat.le_of_not_lt hlength)

/-! ### One kind for each match -/

theorem mem_patterns {mode : Mode} {pattern : Pattern} (hmem : pattern ∈ mode.patterns) :
    pattern = ⟨.num, numberLength⟩ ∨ pattern = ⟨.string, stringLength⟩ ∨ pattern = ⟨.badString, badStringLength⟩ ∨
    (mode = .command ∧ pattern = ⟨.ident, nameLength⟩) ∨ (mode = .text ∧ pattern = ⟨.word, wordLength⟩) ∨
    ∃ entry ∈ LexemeForm.operators ++ LexemeForm.signs, pattern = ofSpelling entry := by
  cases mode with
  | command =>
      have hall : Mode.command.patterns = [⟨.num, numberLength⟩, ⟨.string, stringLength⟩, ⟨.badString, badStringLength⟩,
          ⟨.ident, nameLength⟩] ++ (LexemeForm.operators ++ LexemeForm.signs).map ofSpelling := rfl
      rw [hall, List.mem_append, List.mem_map] at hmem
      rcases hmem with hmem | ⟨entry, hentry, rfl⟩
      · simp only [List.mem_cons, List.not_mem_nil, or_false] at hmem
        tauto
      · exact .inr (.inr (.inr (.inr (.inr ⟨entry, hentry, rfl⟩))))
  | text =>
      have hall : Mode.text.patterns =
          [⟨.word, wordLength⟩, ⟨.num, numberLength⟩] ++ LexemeForm.signs.map ofSpelling := rfl
      rw [hall, List.mem_append, List.mem_map] at hmem
      rcases hmem with hmem | ⟨entry, hentry, rfl⟩
      · simp only [List.mem_cons, List.not_mem_nil, or_false] at hmem
        tauto
      · exact .inr (.inr (.inr (.inr (.inr ⟨entry, List.mem_append_right _ hentry, rfl⟩))))

/-- The kind of a lexeme, told from its text: its first character decides between the forms, and whether the
first closing quote is its last character between strings with and without one. -/
def kindOf (mode : Mode) : Text → Option TokenKind
  | [] => none
  | c :: rest =>
    if Text.isDigit c || c == '.' then some .num
    else if c == '"' then some (if closedLength rest = some rest.length then .string else .badString)
    else if opensName c then some (if mode = .command then .ident else .word)
    else ((LexemeForm.operators ++ LexemeForm.signs).find? (·.2 == c :: rest)).map (·.1)

theorem kindOf_spelling (mode : Mode) :
    ∀ entry ∈ LexemeForm.operators ++ LexemeForm.signs, kindOf mode entry.2 = some entry.1 := by
  cases mode <;> decide +kernel

/-- Letters are neither digits nor the signs with which the other forms begin. -/
theorem apart_of_opensName {c : Char} (h : opensName c = true) :
    (Text.isDigit c || c == '.') = false ∧ (c == '"') = false := by
  have hcode : 0x41 ≤ c.toNat := by
    by_contra hlt
    rcases Bool.or_eq_true_iff.mp h with hletter | hunderscore
    · have hranges : Text.letterRanges = (0x41, 0x5A) :: Text.letterRanges.tail := rfl
      rw [Text.isLetter, hranges, Text.inRanges, if_pos (Nat.lt_of_not_le hlt)] at hletter
      cases hletter
    · rw [beq_iff_eq.mp hunderscore] at hlt
      exact hlt (by decide)
  have hne (d : Char) (hd : d.toNat < 0x41) : c ≠ d := fun hc => by
    rw [hc] at hcode
    exact Nat.lt_irrefl _ (hd.trans_le hcode)
  have hdigit : Text.isDigit c = false := by
    rw [Text.isDigit, Bool.and_eq_false_iff, decide_eq_false_iff_not, decide_eq_false_iff_not]
    right
    intro hle
    have : c.toNat ≤ '9'.toNat := hle
    exact absurd (hcode.trans this) (by decide)
  rw [hdigit, Bool.false_or]
  exact ⟨beq_false_of_ne (hne '.' (by decide)), beq_false_of_ne (hne '"' (by decide))⟩

theorem numberLength_eq_zero {c : Char} (h : (Text.isDigit c || c == '.') = false) (rest : Text) :
    numberLength (c :: rest) = 0 := by
  obtain ⟨hdigit, hpoint⟩ := Bool.or_eq_false_iff.mp h
  refine @numberLength_run [] (c :: rest) (by simp) fun d hd => ?_
  rw [← Option.some.inj hd]
  exact ⟨hdigit, ne_of_beq_false hpoint⟩

theorem quote_of_stringLength {c : Char} {rest : Text} (h : 0 < stringLength (c :: rest)) : c = '"' := by
  by_contra hquote
  rw [stringLength] at h
  · exact Nat.lt_irrefl 0 h
  · exact fun _ heq => hquote (List.cons.inj heq).1

theorem quote_of_badStringLength {c : Char} {rest : Text} (h : 0 < badStringLength (c :: rest)) : c = '"' := by
  by_contra hquote
  rw [badStringLength] at h
  · exact Nat.lt_irrefl 0 h
  · exact fun _ heq => hquote (List.cons.inj heq).1

/-- A text that is a string without closing quote to its end is no closed string. -/
theorem closedLength_ne_of_openLength {text : Text} (h : openLength text = text.length) :
    closedLength text ≠ some text.length := by
  rcases quote_cases text with ⟨front, -, hclosed, hopen⟩ | ⟨-, hclosed, -⟩
  · rw [hclosed, ← h, hopen]
    simp
  · rw [hclosed]
    nofun

/-- The text of a pattern's longest match tells the pattern's kind. -/
theorem kindOf_of_longest {mode : Mode} {pattern : Pattern} (hmem : pattern ∈ mode.patterns) {text : Text}
    (hne : text ≠ []) (hwhole : pattern.longest text = text.length) : kindOf mode text = some pattern.kind := by
  obtain ⟨c, rest, rfl⟩ := List.exists_cons_of_ne_nil hne
  have hpos : 0 < pattern.longest (c :: rest) := hwhole ▸ Nat.succ_pos _
  rcases mem_patterns hmem with rfl | rfl | rfl | ⟨rfl, rfl⟩ | ⟨rfl, rfl⟩ | ⟨entry, hentry, rfl⟩
  · rw [kindOf, if_pos]
    by_contra hnot
    exact absurd (numberLength_eq_zero (Bool.eq_false_iff.mpr hnot) rest) hpos.ne'
  · obtain rfl := quote_of_stringLength hpos
    have hclosed : closedLength rest = some rest.length := by
      change ((closedLength rest).map (· + 1)).getD 0 = rest.length + 1 at hwhole
      cases hlength : closedLength rest with
      | none =>
          rw [hlength] at hwhole
          cases hwhole
      | some length =>
          rw [hlength] at hwhole
          exact congrArg some (Nat.succ.inj hwhole)
    exact congrArg some (if_pos hclosed)
  · obtain rfl := quote_of_badStringLength hpos
    exact congrArg some (if_neg (closedLength_ne_of_openLength (Nat.succ.inj hwhole)))
  · have hopens : opensName c = true := by
      by_contra hnot
      exact absurd (if_neg hnot) hpos.ne'
    obtain ⟨hnumber, hquote⟩ := apart_of_opensName hopens
    rw [kindOf, hnumber, hquote, hopens]
    rfl
  · have hletter : Text.isLetter c = true := by
      by_contra hnot
      exact absurd (if_neg hnot) hpos.ne'
    have hopens : opensName c = true := Bool.or_eq_true_iff.mpr (.inl hletter)
    obtain ⟨hnumber, hquote⟩ := apart_of_opensName hopens
    rw [kindOf, hnumber, hquote, hopens]
    rfl
  · have hprefix : entry.2.isPrefixOf (c :: rest) = true := by
      by_contra hnot
      exact absurd (if_neg hnot) hpos.ne'
    have hlength : entry.2.length = (c :: rest).length := by
      rw [← hwhole]
      exact (if_pos hprefix).symm
    rw [← (List.isPrefixOf_iff_prefix.mp hprefix).eq_of_length hlength]
    exact kindOf_spelling mode entry hentry

end Pattern

namespace Mode

variable {mode : Mode} {kind kind' : TokenKind} {text front : Text}

/-- Whatever matches is measured by the pattern of its kind. -/
theorem Matches.exists_pattern (h : mode.Matches text kind front) (hline : '\n' ∉ text) :
    ∃ pattern ∈ mode.patterns, pattern.kind = kind ∧ front.length ≤ pattern.longest text ∧
      pattern.longest front = front.length := by
  obtain ⟨form, hform, rfl, hmem⟩ := h.declared
  obtain ⟨pattern, hpattern, hrecognises⟩ :=
    (Pattern.exists_of_forall₂ (Pattern.recognises_patterns mode)).2 form hform
  have hwithin : '\n' ∉ front := fun hfeed => hline (h.atFront.subset hfeed)
  have hwhole := hrecognises.longest front hwithin
  exact ⟨pattern, hpattern, hrecognises.kind, (hrecognises.longest text hline).bound h.atFront hmem,
    le_antisymm hwhole.le (hwhole.bound (List.prefix_refl front) hmem)⟩

/-- No expression is declared for the characters that stand for themselves. -/
theorem Matches.ne_delim (h : mode.Matches text kind front) (d : Char) : kind ≠ .delim d := by
  obtain ⟨form, hform, rfl, -⟩ := h.declared
  have hall : ∀ form ∈ mode.declared, form.kind ≠ .delim d := by
    cases mode <;> simp [Mode.declared, LexemeForm.operators, LexemeForm.signs, LexemeForm.ofSpelling]
  exact hall form hform

/-- Nothing matches for two kinds. -/
theorem Matches.kind_unique (h : mode.Matches text kind front) (h' : mode.Matches text kind' front)
    (hline : '\n' ∉ text) : kind = kind' := by
  obtain ⟨pattern, hmem, rfl, -, hwhole⟩ := h.exists_pattern hline
  obtain ⟨pattern', hmem', rfl, -, hwhole'⟩ := h'.exists_pattern hline
  have hkind := Pattern.kindOf_of_longest hmem h.nonempty hwhole
  rw [Pattern.kindOf_of_longest hmem' h.nonempty hwhole'] at hkind
  exact (Option.some.inj hkind).symm

/-- At the front of a text the longest match is the only one of its length. -/
theorem LongestMatch.unique {front' : Text} (h : mode.LongestMatch text kind front)
    (h' : mode.LongestMatch text kind' front') (hline : '\n' ∉ text) : kind' = kind ∧ front' = front := by
  have hlength : front'.length = front.length := le_antisymm (h.longest h'.toMatches) (h'.longest h.toMatches)
  obtain rfl : front' = front :=
    (List.prefix_of_prefix_length_le h'.atFront h.atFront hlength.le).eq_of_length hlength
  exact ⟨h'.toMatches.kind_unique h.toMatches hline, rfl⟩

end Mode

namespace Lexeme

variable {mode : Mode} {c : Char} {left more : Text} {lexeme : Lexeme}

/-- What the declared expressions make of the front of a text: their longest match, and where none of them matches,
the first character for itself. -/
inductive Munched (mode : Mode) (c : Char) (left : Text) : Lexeme → Prop
  | longest {lexeme : Lexeme} (h : mode.LongestMatch (c :: left) lexeme.kind lexeme.text) : Munched mode c left lexeme
  | alone (h : ∀ kind front, ¬mode.Matches (c :: left) kind front) : Munched mode c left ⟨.delim c, [c]⟩

theorem munched_of_first? (hline : '\n' ∉ c :: left) (hfirst : first? mode (c :: left) = some (lexeme, more)) :
    Munched mode c left lexeme := by
  have hbound := Pattern.longest_le_longestOf (c :: left) mode.patterns
  rw [first?] at hfirst
  cases hlongest : Pattern.longestOf (c :: left) mode.patterns with
  | none =>
      rw [hlongest] at hfirst hbound
      obtain ⟨rfl, -⟩ := Prod.mk.inj (Option.some.inj hfirst)
      refine .alone fun kind front h => ?_
      obtain ⟨pattern, hmem, -, hle, -⟩ := h.exists_pattern hline
      exact absurd (hle.trans (hbound pattern hmem)) (Nat.not_le_of_lt (List.length_pos_iff.mpr h.nonempty))
  | some found =>
      obtain ⟨kind, length⟩ := found
      rw [hlongest] at hfirst hbound
      obtain ⟨rfl, -⟩ := Prod.mk.inj (Option.some.inj hfirst)
      have hpos := Pattern.longestOf_pos hlongest
      obtain ⟨pattern, hmem, rfl, rfl⟩ := Pattern.exists_mem_of_longestOf hlongest
      obtain ⟨form, hform, hrecognises⟩ := (Pattern.exists_of_forall₂ (Pattern.recognises_patterns mode)).1 pattern hmem
      have hmatch := hrecognises.longest (c :: left) hline
      have hlength : ((c :: left).take (pattern.longest (c :: left))).length = pattern.longest (c :: left) :=
        List.length_take_of_le hmatch.le
      refine .longest ⟨⟨List.take_prefix _ _, ?_, form, hform, hrecognises.kind.symm, hmatch.reached hpos⟩, fun h => ?_⟩
      · exact List.ne_nil_of_length_pos (hlength.symm ▸ hpos)
      · obtain ⟨other, hother, -, hle, -⟩ := h.exists_pattern hline
        exact hlength.symm ▸ hle.trans (hbound other hother)

namespace Munched

theorem longestMatch (h : Munched mode c left lexeme)
    (hmatches : ∃ kind front, mode.Matches (c :: left) kind front) :
    mode.LongestMatch (c :: left) lexeme.kind lexeme.text := by
  obtain ⟨kind, front, hmatch⟩ := hmatches
  cases h with
  | longest hlongest => exact hlongest
  | alone hnone => exact absurd hmatch (hnone kind front)

theorem unique (h : Munched mode c left lexeme) (hline : '\n' ∉ c :: left) {kind : TokenKind} {front : Text}
    (hlongest : mode.LongestMatch (c :: left) kind front) : lexeme.kind = kind ∧ lexeme.text = front :=
  hlongest.unique (h.longestMatch ⟨kind, front, hlongest.toMatches⟩) hline

/-- Only what nothing matches stands for itself. -/
theorem eq_of_delim (h : Munched mode c left lexeme) {d : Char} (hdelim : lexeme.kind = .delim d) :
    lexeme = ⟨.delim c, [c]⟩ := by
  cases h with
  | longest hlongest => exact absurd hdelim (hlongest.toMatches.ne_delim d)
  | alone _ => rfl

theorem delim_iff (h : Munched mode c left lexeme) :
    (∃ d, lexeme.kind = .delim d) ↔ ∀ kind front, ¬mode.Matches (c :: left) kind front := by
  cases h with
  | longest hlongest =>
      refine iff_of_false ?_ fun hnone => hnone _ _ hlongest.toMatches
      rintro ⟨d, hd⟩
      exact hlongest.toMatches.ne_delim d hd
  | alone hnone => exact iff_of_true ⟨c, rfl⟩ hnone

end Munched

end Lexeme

/-- What begins with a quote is a string up to the first quote that is not escaped, or to the end without one. -/
theorem Pattern.longestOf_quote (left : Text) : longestOf ('"' :: left) ofCommands =
    match closedLength left with
    | some length => some (.string, length + 1)
    | none => some (.badString, openLength left + 1) := by
  have hname : opensName '"' = false := by decide +kernel
  have hnumber := numberLength_eq_zero (c := '"') (by decide) left
  rcases quote_cases left with ⟨front, -, hclosed, hopen⟩ | ⟨-, hclosed, -⟩
  · have hlonger : ¬front.length + 1 < front.length := by omega
    simp [longestOf, ofCommands, signs, fixed, nameLength, hname, hnumber, stringLength, badStringLength, hclosed,
      hopen, hlonger]
  · simp [longestOf, ofCommands, signs, fixed, nameLength, hname, hnumber, stringLength, badStringLength, hclosed]

theorem Text.FirstQuote.unique {text front front' : Text} (h : text.FirstQuote front) (h' : text.FirstQuote front') :
    front = front' := by
  have hlength : front.length = front'.length := le_antisymm (h.first h'.toQuotes) (h'.first h.toQuotes)
  have hwhole : front ++ ['"'] = front' ++ ['"'] :=
    (List.prefix_of_prefix_length_le h.found h'.found (by simp [hlength])).eq_of_length (by simp [hlength])
  exact (List.append_inj hwhole hlength).1

theorem Lexeme.first?_string {left front : Text} (h : left.FirstQuote front) :
    ∃ more, first? .command ('"' :: left) = some (⟨.string, '"' :: (front ++ ['"'])⟩, more) := by
  rcases Pattern.quote_cases left with ⟨other, hother, hclosed, -⟩ | ⟨hnone, -⟩
  · obtain rfl := h.unique hother
    have hlongest : Pattern.longestOf ('"' :: left) Mode.command.patterns = some (.string, front.length + 1 + 1) := by
      rw [Mode.patterns, Pattern.longestOf_quote, hclosed]
    have htake : left.take (front.length + 1) = front ++ ['"'] := by
      rw [List.prefix_iff_eq_take.mp h.found, List.length_append, List.length_singleton]
    have hfirst := first?_of_longestOf .command hlongest
    rw [List.take_succ_cons, htake] at hfirst
    exact ⟨_, hfirst⟩
  · exact absurd h.toQuotes (hnone front)

theorem Lexeme.first?_badString {left : Text} (h : ∀ front, ¬left.Quotes front) :
    ∃ more, first? .command ('"' :: left) = some (⟨.badString, '"' :: left⟩, more) := by
  rcases Pattern.quote_cases left with ⟨front, hfront, -⟩ | ⟨-, hclosed, hopen⟩
  · exact absurd hfront.toQuotes (h front)
  · have hlongest : Pattern.longestOf ('"' :: left) Mode.command.patterns = some (.badString, left.length + 1) := by
      rw [Mode.patterns, Pattern.longestOf_quote, hclosed, hopen]
    have hfirst := first?_of_longestOf .command hlongest
    rw [List.take_succ_cons, List.take_length] at hfirst
    exact ⟨_, hfirst⟩

/-- What a scan hands out where the rest of a line's content is the given character and text, at an offset. -/
structure Scanner.Munches (scanner : Scanner) (line : Line) (c : Char) (left : Text) : Prop where
  offset : scanner.scan.1.offset = scanner.cursor.offset
  /-- If a declared expression matches, then the token is the longest match. -/
  longest : (∃ kind front, scanner.cursor.mode.Matches (c :: left) kind front) →
    scanner.cursor.mode.LongestMatch (c :: left) scanner.scan.1.kind scanner.scan.1.text
  /-- The longest match and its kind are determined. -/
  unique : ∀ kind front, scanner.cursor.mode.LongestMatch (c :: left) kind front →
    scanner.scan.1.kind = kind ∧ scanner.scan.1.text = front
  delim : (∃ d, scanner.scan.1.kind = .delim d) ↔ ∀ kind front, ¬scanner.cursor.mode.Matches (c :: left) kind front
  single : (∃ d, scanner.scan.1.kind = .delim d) →
    scanner.scan.1.kind = .delim c ∧ scanner.scan.1.text = [c] ∧ scanner.scan.1.length = c.utf8Size
  string : scanner.cursor.mode = .command → c = '"' → ∀ front, left.FirstQuote front →
    scanner.scan.1.kind = .string ∧ scanner.scan.1.text = '"' :: (front ++ ['"'])
  badString : scanner.cursor.mode = .command → c = '"' → (∀ front, ¬left.Quotes front) →
    scanner.scan.1.kind = .badString ∧ scanner.scan.1.text = '"' :: left ∧ scanner.scan.1.stop = line.contentEnd
  /-- The scan goes on behind the token. -/
  next : scanner.scan.2 = scanner.moveTo { scanner.cursor with offset := scanner.scan.1.stop }

/-- Where no blank comes next, and no comment as a whole, a scan hands out the next lexeme. -/
theorem Scanner.scan_lexeme {source : Text} {scanner : Scanner} {line : Line} {left : Text} {c : Char}
    (hover : scanner.Over source) (hstarted : scanner.cursor.started = true)
    (hfound : (Line.split source)[scanner.cursor.line]? = some line)
    (hbefore : scanner.cursor.Before source line (c :: left)) (hblank : Text.isBlank c = false)
    (hcomment : line.type = .comment → scanner.cursor.offset ≠ line.contentStart) :
    ∃ lexeme more, Lexeme.first? scanner.cursor.mode (c :: left) = some (lexeme, more) ∧
      scanner.scan = (scanner.token lexeme.kind lexeme.text scanner.cursor.offset,
        scanner.moveTo { scanner.cursor with offset := scanner.cursor.offset + Text.bytes lexeme.text }) := by
  have htake : (c :: left).takeWhile Text.isBlank = [] := by rw [List.takeWhile_cons, hblank]; rfl
  have hdrop : (c :: left).dropWhile Text.isBlank = c :: left := by rw [List.dropWhile_cons, hblank]; rfl
  have hcases := scanContent_cases hbefore
  rw [htake, hdrop, List.length_nil, Nat.add_zero, ← scan_started hover hstarted hfound] at hcases
  rcases hcases with ⟨hnil, -⟩ | ⟨lexeme, more, hfirst, ⟨htype, hstart, -⟩ | ⟨-, hscan⟩⟩
  · cases hnil
  · exact absurd hstart (hcomment htype)
  · exact ⟨lexeme, more, hfirst, hscan⟩

/-- Inside a line's content, at a character that is no blank, and not at the start of a comment, the token is the
longest match of the expressions declared for the mode. -/
theorem Scanner.scan_munches {source : Text} {number : Nat} {line : Line} {taken left : Text} {c : Char} (mode : Mode)
    (hfound : (Line.split source)[number]? = some line) (hsplit : line.content = taken ++ c :: left)
    (hblank : Text.isBlank c = false) (hcomment : line.type = .comment → taken ≠ []) :
    ((ofText source).moveTo ⟨number, line.contentStart + Text.bytes taken, true, mode⟩).Munches line c left := by
  generalize hscanner : (ofText source).moveTo ⟨number, line.contentStart + Text.bytes taken, true, mode⟩ = scanner
  have hcursor : scanner.cursor = ⟨number, line.contentStart + Text.bytes taken, true, mode⟩ := by rw [← hscanner]; rfl
  have hover : scanner.Over source := hscanner ▸ (over_ofText source).moveTo _
  have hbefore : scanner.cursor.Before source line (c :: left) := by
    rw [hcursor]
    exact ⟨hfound, taken, hsplit, rfl⟩
  have hline : '\n' ∉ c :: left := by
    have hfeed := (Line.clean_of_mem_split hbefore.mem).feed
    rw [hsplit] at hfeed
    exact fun hmem => hfeed (List.mem_append_right taken hmem)
  have hstart : line.type = .comment → scanner.cursor.offset ≠ line.contentStart := by
    intro htype hstart
    rw [hcursor] at hstart
    have hzero : Text.bytes taken = 0 := Nat.add_eq_left.mp hstart
    exact hcomment htype (Text.eq_nil_of_bytes_eq_zero hzero)
  obtain ⟨lexeme, more, hfirst, hscan⟩ :=
    scan_lexeme hover (by rw [hcursor]) (by rw [hcursor]; exact hfound) hbefore hblank hstart
  have hkind : scanner.scan.1.kind = lexeme.kind := by rw [hscan]; rfl
  have htext : scanner.scan.1.text = lexeme.text := by rw [hscan]; rfl
  have hstop : scanner.scan.1.stop = scanner.cursor.offset + Text.bytes lexeme.text := by rw [hscan]; rfl
  have hmode : scanner.cursor.mode = mode := by rw [hcursor]
  rw [hmode] at hfirst
  have hmunched := Lexeme.munched_of_first? hline hfirst
  have hlexeme {other : Lexeme} (h : ∃ more, Lexeme.first? mode (c :: left) = some (other, more)) : lexeme = other := by
    obtain ⟨more', hother⟩ := h
    exact congrArg (·.1) (Option.some.inj (hfirst.symm.trans hother))
  constructor
  case offset =>
    rw [hscan]
    rfl
  case longest =>
    rw [hkind, htext, hmode]
    exact hmunched.longestMatch
  case unique =>
    rw [hkind, htext, hmode]
    intro kind front hlongest
    exact hmunched.unique hline hlongest
  case delim =>
    rw [hkind, hmode]
    exact hmunched.delim_iff
  case single =>
    rw [hkind, Token.length, htext]
    rintro ⟨d, hdelim⟩
    rw [hmunched.eq_of_delim hdelim]
    exact ⟨rfl, rfl, Nat.add_zero _⟩
  case string =>
    rw [hkind, htext, hmode]
    rintro rfl rfl front hfront
    rw [hlexeme (Lexeme.first?_string hfront)]
    exact ⟨rfl, rfl⟩
  case badString =>
    rw [hkind, htext, hmode, hstop, hcursor, Line.contentEnd, hsplit, Text.bytes_append, Nat.add_assoc]
    rintro rfl rfl hnone
    rw [hlexeme (Lexeme.first?_badString hnone)]
    exact ⟨rfl, rfl, rfl⟩
  case next => rw [hstop, hscan]

/-- A quote without a second one behind it, in the middle of a command. -/
theorem Scanner.scan_munches_openQuote :
    ((ofText "*set n \"Jane\n".toList).moveTo ⟨0, 7, true, .command⟩).Munches
      ⟨0, 0, [], "*set n \"Jane".toList, .lf⟩ '"' "Jane".toList :=
  @scan_munches "*set n \"Jane\n".toList 0 ⟨0, 0, [], "*set n \"Jane".toList, .lf⟩ "*set n ".toList "Jane".toList '"'
    .command (by decide +kernel) rfl (by decide) (by decide +kernel)

end Gamebook
