import Gamebook.Proofs.Grammar.Words
import Gamebook.Proofs.Lexeme.Apart
import Gamebook.Proofs.Scanner.LineTokens

/-!
Literal arguments. Behind the name of a choice, of a chart, and of every command that has neither a form of its own
nor prose behind it, the rest of the line is cut into strings in quotes and into runs without blanks. Strings and
runs may touch each other, and nothing is lost between them but blanks: a lexeme is only looked at to tell a string
from a run, and a run is taken from where the lexeme began.
-/

namespace Gamebook

open Regex LexemeForm Pattern

/-! ### Numbers and colours -/

namespace LexemeForm

/-- The expression `-?([0-9]+(\.[0-9]*)?|\.[0-9]+)`. -/
def numberArgument : Regex := .seq (.optional (.char '-')) number

def hexDigits : Nat → Regex
  | 0 => .empty
  | count + 1 => .seq (.one Text.isHexDigit) (hexDigits count)

/-- The expression `#([0-9a-fA-F]{3}|[0-9a-fA-F]{6})`. -/
def colorArgument : Regex := .seq (.char '#') (.alt (hexDigits 3) (hexDigits 6))

variable {c : Char} {text : Text}

theorem mem_hexDigits {count : Nat} :
    text ∈ (hexDigits count).language ↔ text.length = count ∧ ∀ c ∈ text, Text.isHexDigit c = true := by
  induction count generalizing text with
  | zero =>
      rw [List.length_eq_zero_iff]
      refine (Language.mem_one text).trans ⟨?_, And.left⟩
      rintro rfl
      exact ⟨rfl, nofun⟩
  | succ count ih =>
      cases text with
      | nil => exact iff_of_false not_nil_mem_seq_one nofun
      | cons c text =>
          rw [hexDigits, cons_mem_seq_one, ih, List.length_cons, Nat.succ_inj, List.forall_mem_cons]
          exact and_left_comm

theorem ne_minus_of_mem_number (h : c :: text ∈ number.language) : c ≠ '-' := by
  rintro rfl
  have hdigit : ¬Text.isDigit '-' = true := by decide
  obtain ⟨run, hrun, ⟨rfl, -⟩ | ⟨fraction, heq, -⟩⟩ := mem_number.mp h
  · exact hdigit (hrun _ List.mem_cons_self)
  · cases run with
    | nil => cases heq
    | cons d run =>
        obtain ⟨rfl, -⟩ := List.cons.inj heq
        exact hdigit (hrun _ List.mem_cons_self)

theorem nil_not_mem_number : [] ∉ number.language := by
  intro h
  obtain ⟨run, -, ⟨rfl, hne⟩ | ⟨fraction, heq, -⟩⟩ := mem_number.mp h
  · exact hne rfl
  · cases run <;> cases heq

theorem mem_number_iff_numberLength : text ∈ number.language ↔ text ≠ [] ∧ Pattern.numberLength text = text.length := by
  have hlongest := Pattern.longest_number text
  constructor
  · intro h
    refine ⟨?_, le_antisymm hlongest.le (hlongest.bound (List.prefix_refl text) h)⟩
    rintro rfl
    exact nil_not_mem_number h
  · rintro ⟨hne, hlength⟩
    have hreached := hlongest.reached (hlength ▸ List.length_pos_iff.mpr hne)
    rwa [hlength, List.take_length] at hreached

theorem mem_numberArgument : text ∈ numberArgument.language ↔
    text ∈ number.language ∨ ∃ rest, text = '-' :: rest ∧ rest ∈ number.language := by
  rw [numberArgument, mem_seq]
  constructor
  · rintro ⟨front, hfront, back, hback, rfl⟩
    rcases mem_optional.mp hfront with hminus | rfl
    · rw [mem_char.mp hminus]
      exact .inr ⟨back, rfl, hback⟩
    · exact .inl hback
  · rintro (h | ⟨rest, rfl, h⟩)
    · exact ⟨[], mem_optional.mpr (.inr rfl), text, h, rfl⟩
    · exact ⟨['-'], mem_optional.mpr (.inl (mem_char.mpr rfl)), rest, h, rfl⟩

end LexemeForm

namespace Reader

variable {text : Text}

theorem isNumberArgument_iff : isNumberArgument text = true ↔ text ∈ numberArgument.language := by
  have hunsigned : ∀ unsigned : Text,
      (!unsigned.isEmpty && Pattern.numberLength unsigned == unsigned.length) = true ↔ unsigned ∈ number.language := by
    intro unsigned
    rw [mem_number_iff_numberLength, Bool.and_eq_true, beq_iff_eq, Bool.not_eq_true', List.isEmpty_eq_false_iff]
  rw [mem_numberArgument]
  unfold isNumberArgument
  split
  · rename_i rest
    rw [hunsigned]
    refine ⟨fun h => .inr ⟨rest, rfl, h⟩, ?_⟩
    rintro (h | ⟨other, heq, h⟩)
    · exact absurd rfl (ne_minus_of_mem_number h)
    · rwa [(List.cons.inj heq).2]
  · rename_i hplain
    rw [hunsigned]
    exact ⟨.inl, fun h => h.resolve_right fun ⟨rest, heq, _⟩ => hplain rest heq⟩

theorem isColorArgument_iff : isColorArgument text = true ↔ text ∈ colorArgument.language := by
  unfold isColorArgument
  split
  · rename_i digits
    rw [colorArgument, cons_mem_seq_char, mem_alt, mem_hexDigits, mem_hexDigits, ← or_and_right, Bool.and_eq_true,
      Bool.or_eq_true, beq_iff_eq, beq_iff_eq, List.all_eq_true]
    exact (and_iff_right rfl).symm
  · rename_i hplain
    refine iff_of_false Bool.false_ne_true fun h => ?_
    cases text with
    | nil => exact not_nil_mem_seq_one h
    | cons c text =>
        obtain ⟨rfl, -⟩ := cons_mem_seq_char.mp h
        exact hplain text rfl

end Reader

/-! ### Commands with literal arguments -/

/-- Whether a command of the given name takes literal arguments, apart from the choices. -/
def Command.takesLiterals (name : String) : Bool :=
  match CommandForm.ofName name with
  | .proseBlock => true
  | .plain => !Command.takesProse name
  | _ => false

/-- The kinds of commands with literal arguments: choices, charts and achievements, and known commands that have
neither a form of their own nor prose behind them. -/
def Kind.takesLiterals : Kind → Bool
  | .choiceCommand _ => true
  | .standardCommand name | .flowCommand name => Command.takesLiterals name
  | _ => false

theorem Kind.commandName?_of_takesLiterals {kind : Kind} (h : kind.takesLiterals = true) :
    kind.commandName?.isSome = true := by
  cases kind <;> first | rfl | cases h

theorem CommandForm.takesLiterals_plain_iff {name : String} (hform : ofName name = .plain) :
    (plain.kind name).takesLiterals = true ↔ Command.classify name ≠ .unknown ∧ Command.takesProse name = false := by
  have hname : Command.takesLiterals name = !Command.takesProse name := by rw [Command.takesLiterals, hform]
  unfold kind
  cases Command.classify name <;> simp [Kind.takesLiterals, hname]

theorem commandName?_of_choice {name : String} {fake : Bool} (hform : CommandForm.ofName name = .choice fake) :
    (Kind.choiceCommand fake).commandName? = some name := by
  unfold CommandForm.ofName at hform
  split at hform <;> cases hform <;> rfl

/-! ### A text and its arguments -/

/-- The kind of an argument without quotes: it is a number, a colour or neither of them. -/
inductive Kind.OfRun (run : Text) : Kind → Prop
  | number (h : run ∈ numberArgument.language) : OfRun run .numericValue
  | color (hnumber : run ∉ numberArgument.language) (h : run ∈ colorArgument.language) : OfRun run .hexColorValue
  | plain (hnumber : run ∉ numberArgument.language) (hcolor : run ∉ colorArgument.language) :
      OfRun run .stringLiteral

theorem Reader.argumentKind_ofRun (run : Text) : Kind.OfRun run (argumentKind run) := by
  unfold argumentKind
  split
  · rename_i hnumber
    exact .number (isNumberArgument_iff.mp hnumber)
  · rename_i hnumber
    rw [isNumberArgument_iff] at hnumber
    split
    · rename_i hcolor
      exact .color hnumber (isColorArgument_iff.mp hcolor)
    · rename_i hcolor
      rw [isColorArgument_iff] at hcolor
      exact .plain hnumber hcolor

namespace Text

/-- The argument at the front of a text: its kind, what it takes, and whether its closing quote is missing. -/
inductive Literal : Kind → Text → Text → Bool → Prop
  /-- A string takes its quotes, and ends with the first one that no backslash escapes. -/
  | closed {text front : Text} (hquote : text.FirstQuote front) :
      Literal .stringValue ('"' :: text) ('"' :: (front ++ ['"'])) false
  /-- Without such a quote it takes the whole text. -/
  | unclosed {text : Text} (hnone : ∀ front, ¬text.Quotes front) : Literal .stringValue ('"' :: text) ('"' :: text) true
  /-- Everything else is taken up to the next blank, quotes included. -/
  | run {kind : Kind} {text run left : Text} (hsplit : text = run ++ left) (hne : run ≠ [])
      (hquote : run.head? ≠ some '"') (hrun : ∀ c ∈ run, isBlank c = false) (hleft : ∀ c ∈ left.head?, isBlank c = true)
      (hkind : kind.OfRun run) : Literal kind text run false

theorem Literal.ne_nil {kind : Kind} {text token : Text} {unclosed : Bool} (h : Literal kind text token unclosed) :
    token ≠ [] := by
  cases h with
  | closed _ => exact List.cons_ne_nil _ _
  | unclosed _ => exact List.cons_ne_nil _ _
  | run _ hne _ _ _ _ => exact hne

/-- Where a closing quote is missing, nothing is left of the text. -/
theorem Literal.eq_of_unclosed {kind : Kind} {text token : Text} (h : Literal kind text token true) : token = text := by
  cases h
  rfl

end Text

/-- The phrase is the argument at the front of a text that begins at the given offset, and is marked just if its
closing quote is missing. -/
structure Phrase.IsLiteral (phrase : Phrase) (offset : Nat) (text token : Text) (unclosed : Bool) : Prop where
  start : phrase.start = offset
  stop : phrase.stop = offset + Text.bytes token
  literal : Text.Literal phrase.kind text token unclosed
  marked : (∃ issue ∈ phrase.issues, issue.rule = .missingClosingQuote) ↔ unclosed = true

theorem Phrase.IsLiteral.shift {phrase : Phrase} {offset : Nat} {text token : Text} {unclosed : Bool}
    (h : phrase.IsLiteral offset text token unclosed) (distance : Nat) :
    (phrase.shift distance).IsLiteral (offset + distance) text token unclosed := by
  refine ⟨?_, ?_, ?_, ?_⟩
  · rw [shift_start, h.start]
  · rw [shift_stop, h.stop, Nat.add_right_comm]
  · rw [shift_kind]
    exact h.literal
  · rw [shift_issues, ← h.marked]
    simp [Issue.shift]

/-- The arguments of a text that begins at the given offset, with blanks around them and between them. -/
inductive Text.Tiled : Nat → Text → List Phrase → Prop
  | blank {offset : Nat} {text : Text} (h : ∀ c ∈ text, isBlank c = true) : Tiled offset text []
  | literal {offset : Nat} {gap token left : Text} {phrase : Phrase} {more : List Phrase} {unclosed : Bool}
      (hgap : ∀ c ∈ gap, isBlank c = true)
      (hliteral : phrase.IsLiteral (offset + bytes gap) (token ++ left) token unclosed)
      (hmore : Tiled (offset + bytes gap + bytes token) left more) :
      Tiled offset (gap ++ (token ++ left)) (phrase :: more)

namespace Text

variable {offset : Nat} {text : Text} {parts : List Phrase} {phrase : Phrase}

theorem Tiled.indent {gap : Text} (hgap : ∀ c ∈ gap, isBlank c = true) (h : Tiled (offset + bytes gap) text parts) :
    Tiled offset (gap ++ text) parts := by
  cases h with
  | blank h => exact .blank (List.forall_mem_append.mpr ⟨hgap, h⟩)
  | literal hinner hliteral hmore =>
      rw [← List.append_assoc]
      rw [Nat.add_assoc offset, ← bytes_append] at hliteral hmore
      exact .literal (List.forall_mem_append.mpr ⟨hgap, hinner⟩) hliteral hmore

theorem Tiled.shift (h : Tiled offset text parts) (distance : Nat) :
    Tiled (offset + distance) text (parts.map (·.shift distance)) := by
  induction h with
  | blank h => exact .blank h
  | @literal offset gap token left phrase more unclosed hgap hliteral _ ih =>
      have hmoved := hliteral.shift distance
      rw [Nat.add_right_comm] at hmoved
      rw [Nat.add_right_comm _ _ distance, Nat.add_right_comm _ _ distance] at ih
      exact .literal hgap hmoved ih

theorem Tiled.exists_literal (h : Tiled offset text parts) (hphrase : phrase ∈ parts) :
    ∃ front token left unclosed, text = front ++ (token ++ left) ∧
      phrase.IsLiteral (offset + bytes front) (token ++ left) token unclosed := by
  induction h with
  | blank _ => cases hphrase
  | @literal offset gap token left own more unclosed hgap hliteral _ ih =>
      rcases List.mem_cons.mp hphrase with rfl | hphrase
      · exact ⟨gap, token, left, unclosed, rfl, hliteral⟩
      · obtain ⟨front, inner, behind, missing, rfl, hinner⟩ := ih hphrase
        refine ⟨gap ++ (token ++ front), inner, behind, missing, by simp only [List.append_assoc], ?_⟩
        rwa [bytes_append, bytes_append, ← Nat.add_assoc, ← Nat.add_assoc]

theorem Tiled.range (h : Tiled offset text parts) (hphrase : phrase ∈ parts) :
    offset ≤ phrase.start ∧ phrase.start < phrase.stop ∧ phrase.stop ≤ offset + bytes text := by
  obtain ⟨front, token, left, unclosed, rfl, hliteral⟩ := h.exists_literal hphrase
  have hpos := bytes_pos hliteral.literal.ne_nil
  rw [hliteral.start, hliteral.stop, bytes_append, bytes_append]
  omega

/-- The arguments stand in the text as lexemes do. -/
theorem Tiled.spread (h : Tiled offset text parts) : ∃ signs, Spread offset text signs ∧
    signs.map (fun sign => (sign.offset, sign.stop)) = parts.map fun phrase => (phrase.start, phrase.stop) := by
  induction h with
  | blank h => exact ⟨[], .blank h, rfl⟩
  | @literal offset gap token left phrase more unclosed hgap hliteral _ ih =>
      obtain ⟨signs, hspread, hsame⟩ := ih
      have hmore : Spread offset (gap ++ token ++ left) (⟨⟨.unquotedString, token⟩, offset + bytes gap⟩ :: signs) :=
        @Spread.lexeme offset gap left ⟨.unquotedString, token⟩ signs hgap rfl hliteral.literal.ne_nil hspread
      refine ⟨_, List.append_assoc gap token left ▸ hmore, ?_⟩
      rw [List.map_cons, List.map_cons, hsame, hliteral.start, hliteral.stop]
      rfl

theorem Tiled.pairwise (h : Tiled offset text parts) : parts.Pairwise fun left right => left.stop ≤ right.start := by
  obtain ⟨signs, hspread, hsame⟩ := h.spread
  have hordered : (signs.map fun sign => (sign.offset, sign.stop)).Pairwise fun left right => left.2 ≤ right.1 :=
    List.pairwise_map.mpr hspread.ordered
  rw [hsame] at hordered
  exact List.pairwise_map.mp hordered

/-- What no argument takes is blank. -/
theorem Tiled.blank_of_uncovered (h : Tiled offset text parts) {place : Nat} (hfrom : offset ≤ place)
    (hto : place < offset + bytes text) (hfree : ∀ phrase ∈ parts, ¬(phrase.start ≤ place ∧ place < phrase.stop)) :
    ∃ front c back, text = front ++ c :: back ∧ isBlank c = true ∧ place = offset + bytes front := by
  obtain ⟨signs, hspread, hsame⟩ := h.spread
  refine (hspread.gaps hfrom hto).resolve_left fun ⟨sign, hsign, hcovers⟩ => ?_
  have hspan : (sign.offset, sign.stop) ∈ parts.map fun phrase => (phrase.start, phrase.stop) :=
    hsame ▸ List.mem_map_of_mem hsign
  obtain ⟨phrase, hphrase, heq⟩ := List.mem_map.mp hspan
  obtain ⟨hstart, hstop⟩ := Prod.mk.inj heq
  exact hfree phrase hphrase ⟨hstart ▸ hcovers.1, hstop ▸ hcovers.2⟩

end Text

/-! ### Reading arguments -/

namespace Reader

variable {r : Reader}

/-- A string is read as it was cut, and is marked where it lacks its closing quote. -/
theorem argument_of_quote {lexeme : Lexeme} {left : Text} {unclosed : Bool}
    (hfirst : Lexeme.first? r.mode r.rest = some (lexeme, left))
    (hkind : lexeme.kind = if unclosed then .badString else .string)
    (hliteral : Text.Literal .stringValue r.rest lexeme.text unclosed) :
    r.argument.1.IsLiteral r.offset r.rest lexeme.text unclosed ∧ r.argument.2 = r.advance lexeme.text left := by
  have hseen : r.kind? = some lexeme.kind := by
    rw [kind?, lexeme?, hfirst]
    rfl
  have hsees : (r.sees .string || r.sees .badString) = true := by
    rw [sees, sees, hseen, hkind]
    cases unclosed <;> rfl
  have hbad : r.sees .badString = unclosed := by
    rw [sees, hseen, hkind]
    cases unclosed <;> rfl
  have hle : r.offset ≤ r.offset + Text.bytes lexeme.text := Nat.le_add_right _ _
  rw [argument, if_pos hsees, stringValue, leaf, next_of_first? hfirst, hbad]
  refine ⟨⟨?_, ?_, ?_, ?_⟩, rfl⟩
  case refine_3 =>
    cases unclosed <;> exact hliteral
  all_goals
    cases unclosed <;>
      simp [Phrase.flagWhole, Phrase.flag, Phrase.reach, Phrase.grow, Phrase.empty, Phrase.length, Issue.stop, advance, hle]

/-- In front of anything else a run is taken up to the next blank. -/
theorem argument_of_run (htrimmed : r.Trimmed) (hrest : r.rest ≠ []) (hquote : r.rest.head? ≠ some '"') :
    r.argument.1.IsLiteral r.offset r.rest r.run false ∧
      r.argument.2 = r.advance r.run (r.rest.dropWhile (!Text.isBlank ·)) := by
  have hseen : ∀ kind, kind = .string ∨ kind = .badString → r.kind? ≠ some kind := by
    rintro kind hkind hseen
    obtain ⟨lexeme, left, hfirst, rfl, -⟩ := exists_of_kind? hseen
    obtain ⟨c, rest, hcons⟩ := List.exists_cons_of_ne_nil hrest
    rw [hcons] at hfirst hquote
    exact hquote (congrArg some (Lexeme.quote_of_first? hfirst hkind))
  have hsees : ¬(r.sees .string || r.sees .badString) = true := by
    rw [Bool.or_eq_true, sees, sees, beq_iff_eq, beq_iff_eq]
    exact fun h => h.elim (hseen _ (.inl rfl)) (hseen _ (.inr rfl))
  have hrun : ∀ c ∈ r.run, Text.isBlank c = false := fun c hc => by
    simpa using List.all_eq_true.mp (List.all_takeWhile (p := (!Text.isBlank ·))) c hc
  have hhead : r.run.head? ≠ some '"' := by
    rw [run, List.head?_takeWhile]
    exact fun h => hquote (Option.filter_eq_some_iff.mp h).1
  obtain ⟨hstart, hstop⟩ := r.leafRun_range (argumentKind r.run)
  rw [argument, if_neg hsees]
  refine ⟨⟨hstart, hstop, ?_, iff_of_false ?_ Bool.false_ne_true⟩, rfl⟩
  · exact .run r.run_append (run_ne_nil htrimmed hrest) hhead hrun r.head?_behind_run (argumentKind_ofRun _)
  · rintro ⟨issue, hissue, -⟩
    exact List.not_mem_nil hissue

/-- Whatever the reader stands before, the next argument is the one at the front of what is left. -/
theorem argument_literal (hmode : r.mode = .command) (htrimmed : r.Trimmed) (hrest : r.rest ≠ []) :
    ∃ token left unclosed, r.rest = token ++ left ∧ r.argument.1.IsLiteral r.offset r.rest token unclosed ∧
      r.argument.2 = r.advance token left := by
  obtain ⟨c, rest, hcons⟩ := List.exists_cons_of_ne_nil hrest
  by_cases hquote : c = '"'
  · rw [hquote] at hcons
    rcases quote_cases rest with ⟨front, hfront, -⟩ | ⟨hnone, -⟩
    · obtain ⟨left, hfirst⟩ := Lexeme.first?_string hfront
      rw [← hcons, ← hmode] at hfirst
      have hclosed : Text.Literal .stringValue r.rest ('"' :: (front ++ ['"'])) false := by
        rw [hcons]
        exact .closed hfront
      obtain ⟨hliteral, hbehind⟩ := argument_of_quote hfirst rfl hclosed
      exact ⟨_, left, false, (Lexeme.append_of_first? hfirst).symm, hliteral, hbehind⟩
    · obtain ⟨left, hfirst⟩ := Lexeme.first?_badString hnone
      rw [← hcons, ← hmode] at hfirst
      have hunclosed : Text.Literal .stringValue r.rest r.rest true := by
        rw [hcons]
        exact .unclosed hnone
      obtain ⟨hliteral, hbehind⟩ := argument_of_quote hfirst rfl hunclosed
      exact ⟨_, left, true, (Lexeme.append_of_first? hfirst).symm, hliteral, hbehind⟩
  · have hhead : r.rest.head? ≠ some '"' := by
      rw [hcons]
      exact fun h => hquote (Option.some.inj h)
    obtain ⟨hliteral, hbehind⟩ := argument_of_run htrimmed hrest hhead
    exact ⟨r.run, _, false, r.run_append, hliteral, hbehind⟩

/-- What a reader skips behind what it takes is blank, and goes in front of the next argument. -/
theorem tiled_of_advance {taken left : Text} {parts : List Phrase}
    (h : Text.Tiled (r.advance taken left).offset (r.advance taken left).rest parts) :
    Text.Tiled (r.offset + Text.bytes taken) left parts := by
  rw [← List.takeWhile_append_dropWhile (p := Text.isBlank) (l := left)]
  refine .indent (List.all_eq_true.mp List.all_takeWhile) ?_
  rw [Text.bytes_takeWhile_isBlank]
  exact h

/-- The arguments are those of the text that is left, to its end. -/
theorem argumentsWithin_tiled {budget : Nat} (hmode : r.mode = .command) (htrimmed : r.Trimmed)
    (hbudget : r.rest.length ≤ budget) (phrase : Phrase) :
    ∃ parts, Text.Tiled r.offset r.rest parts ∧ (argumentsWithin budget phrase r).1.parts = phrase.parts ++ parts := by
  have hdone : r.rest = [] → Text.Tiled r.offset r.rest [] := fun hrest => .blank (by rw [hrest]; nofun)
  induction budget generalizing phrase r with
  | zero =>
      have hrest := List.eq_nil_of_length_eq_zero (Nat.le_zero.mp hbudget)
      exact ⟨[], hdone hrest, (List.append_nil _).symm⟩
  | succ budget ih =>
      simp only [argumentsWithin]
      split
      · rename_i hend
        exact ⟨[], hdone (atEnd_iff.mp hend), (List.append_nil _).symm⟩
      · rename_i hend
        have hrest : r.rest ≠ [] := fun hnil => hend (atEnd_iff.mpr hnil)
        have hlt := argument_length_lt htrimmed hrest
        obtain ⟨token, left, unclosed, hsplit, hliteral, hbehind⟩ := argument_literal hmode htrimmed hrest
        rw [hbehind] at hlt ⊢
        have hreach : r.Reaches (r.advance token left) := .advance .refl hsplit
        obtain ⟨parts, htiled, hparts⟩ := ih (r := r.advance token left) hmode (hreach.trimmed htrimmed) (by omega)
          (phrase.add r.argument.1) fun hnil => .blank (by rw [hnil]; nofun)
        refine ⟨r.argument.1 :: parts, ?_, ?_⟩
        · rw [hsplit] at hliteral ⊢
          exact @Text.Tiled.literal r.offset [] token left _ parts unclosed nofun hliteral (tiled_of_advance htiled)
        · rw [hparts, Phrase.add_parts, List.append_assoc]
          rfl

theorem arguments_tiled (hmode : r.mode = .command) (htrimmed : r.Trimmed) (phrase : Phrase) :
    ∃ parts, Text.Tiled r.offset r.rest parts ∧ (arguments phrase r).1.parts = phrase.parts ++ parts :=
  argumentsWithin_tiled hmode htrimmed (Nat.le_succ _) phrase

/-- The phrase is a command with the name before the reader, and its parts are the arguments of what follows the
name. -/
structure Lists (r : Reader) (phrase : Phrase) : Prop where
  name : phrase.kind.commandName? = some r.word
  tiled : Text.Tiled r.next.offset r.next.rest phrase.parts

variable (hmode : r.mode = .command) (htrimmed : r.Trimmed)
include hmode htrimmed

theorem arguments_lists {kind : Kind} (start : Nat) (hname : kind.commandName? = some r.word) :
    r.Lists (arguments ((Phrase.empty kind start).finish r.next) r.next).1 := by
  have hnamed := r.reaches_next.trimmed htrimmed
  obtain ⟨parts, htiled, hparts⟩ :=
    arguments_tiled (r.next_mode.trans hmode) hnamed ((Phrase.empty kind start).finish r.next)
  refine ⟨?_, ?_⟩
  · rw [(arguments_completes hnamed _).grows.kind_eq]
    exact hname
  · rw [hparts]
    exact htiled

theorem plainCommand_lists (start : Nat) (hprose : Command.takesProse r.word = false)
    (hknown : Command.classify r.word ≠ .unknown) : r.Lists (plainCommand start r.word r).1 := by
  have hlists : ∀ kind : Kind, kind.commandName? = some r.word →
      r.Lists ((arguments ((Phrase.empty kind start).finish r.next) r.next).1.finish
        (arguments ((Phrase.empty kind start).finish r.next) r.next).2) := by
    intro kind hname
    obtain ⟨hkind, htiled⟩ := arguments_lists hmode htrimmed start hname
    exact ⟨hkind, htiled⟩
  simp only [plainCommand, hprose, Bool.false_eq_true, if_false]
  cases hclass : Command.classify r.word with
  | ordinary => exact hlists _ rfl
  | flow => exact hlists _ rfl
  | unknown => exact absurd hclass hknown

/-- A command with literal arguments has those of what follows its name. -/
theorem commandNamed_lists (start : Nat) (context : Context)
    (hkind : (commandNamed start context r).1.phrase.kind.takesLiterals = true) :
    r.Lists (commandNamed start context r).1.phrase := by
  rw [commandNamed_kind start context htrimmed] at hkind
  simp only [commandNamed]
  cases hform : CommandForm.ofName r.word <;> rw [hform] at hkind
  case choice fake => exact arguments_lists hmode htrimmed start (commandName?_of_choice hform)
  case proseBlock => exact arguments_lists hmode htrimmed start rfl
  case plain =>
    obtain ⟨hknown, hprose⟩ := (CommandForm.takesLiterals_plain_iff hform).mp hkind
    exact plainCommand_lists hmode htrimmed start hprose hknown
  all_goals simp [CommandForm.kind, Kind.takesLiterals, Command.takesLiterals, hform] at hkind

omit hmode in
/-- On a line such a command begins with the content. -/
theorem statement_lists {context : Context} {type : LineType} {statement : Statement}
    (hmode : type = .command → r.mode = .command) (hfound : (r.statement context type).1 = some statement)
    (hkind : statement.phrase.kind.takesLiterals = true) : type = .command ∧ r.next.Lists statement.phrase := by
  obtain ⟨htype, hcommand⟩ := statement_commandNamed hfound (Kind.commandName?_of_takesLiterals hkind)
  obtain ⟨hsame, hparts, -⟩ := checkChoice_same context (commandNamed r.offset context r.next).1
    (commandNamed r.offset context r.next).2
  rw [hcommand, hsame] at hkind
  obtain ⟨hname, htiled⟩ := commandNamed_lists (r.next_mode.trans (hmode htype)) (r.reaches_next.trimmed htrimmed)
    r.offset context hkind
  rw [← hsame, ← hcommand] at hname
  rw [← hparts, ← hcommand] at htiled
  exact ⟨htype, hname, htiled⟩

end Reader

end Gamebook
