import Gamebook.Proofs.Grammar.Complete
import Gamebook.Proofs.Grammar.Shift
import Gamebook.Proofs.Grammar.Tidy

/-!
Options behind modifiers. The modifiers are read one by one, and a condition is read as an expression of the whole
rest of the line. A group in front of a number sign ends there, so that a condition does no harm as the last
modifier; but the asterisk of a further modifier would multiply it.
-/

namespace Gamebook

def Text.enclosed (text : Text) : Text := '(' :: (text ++ [')'])

/-- A command before an option. -/
inductive Modifier where
  | reuse (own : Reuse)
  /-- A condition on an expression between parentheses, with blanks in front of them. -/
  | condition (selectable : Bool) (gap expression : Text)

namespace Modifier

def name : Modifier → String
  | reuse .hide => "hide_reuse"
  | reuse .disable => "disable_reuse"
  | reuse .allow => "allow_reuse"
  | condition false _ _ => "if"
  | condition true _ _ => "selectable_if"

def argument : Modifier → Text
  | reuse _ => []
  | condition _ gap expression => gap ++ expression.enclosed

def written (modifier : Modifier) : Text := '*' :: (modifier.name.toList ++ modifier.argument)

def reuse? : Modifier → Option Reuse
  | .reuse own => some own
  | .condition _ _ _ => none

def isCondition : Modifier → Bool
  | reuse _ => false
  | condition _ _ _ => true

/-- The modifier is as it has to be: what is asked is an expression. -/
def Proper : Modifier → Prop
  | reuse _ => True
  | condition _ gap expression => (∀ c ∈ gap, Text.isBlank c = true) ∧
    ∃ shape, Derives 0 (Lexeme.sequence .command 0 expression) shape

/-- The text is that of the modifiers, one behind the other with blanks between, and then the rest. -/
inductive Precede : List Modifier → Text → Text → Prop
  | nil {rest : Text} : Precede [] rest rest
  | cons {modifier : Modifier} {more : List Modifier} {gap text rest : Text} (hproper : modifier.Proper)
      (hgap : ∀ c ∈ gap, Text.isBlank c = true) (h : Precede more text rest) :
      Precede (modifier :: more) (modifier.written ++ (gap ++ text)) rest

/-- What the last of the modifiers that says anything about reuse says. -/
def lastReuse? (modifiers : List Modifier) : Option Reuse := (modifiers.filterMap reuse?).getLast?

end Modifier

/-- The text is made of the words, with blanks around them. -/
inductive Text.MadeOf : List Text → Text → Prop
  | nil {gap : Text} (hgap : ∀ c ∈ gap, isBlank c = true) : MadeOf [] gap
  | cons {word gap rest : Text} {words : List Text} (hgap : ∀ c ∈ gap, isBlank c = true)
      (hword : word ∈ LexemeForm.word.language) (hrest : ∀ c ∈ rest.head?, isBlank c = true) (h : MadeOf words rest) :
      MadeOf (word :: words) (gap ++ (word ++ rest))

/-! ### Texts -/

namespace Text

/-- Neither blanks nor the given sign continue a name. -/
theorem apart_of_blanks {gap : Text} (hgap : ∀ c ∈ gap, isBlank c = true) {c : Char}
    (hc : Pattern.continuesName c = false) (rest : Text) :
    ∀ d ∈ (gap ++ c :: rest).head?, Pattern.continuesName d = false := by
  have hspace : Pattern.continuesName ' ' = false := by decide +kernel
  have htab : Pattern.continuesName '\t' = false := by decide +kernel
  cases gap with
  | nil =>
      rintro d ⟨⟩
      exact hc
  | cons e gap =>
      rintro d ⟨⟩
      rcases Bool.or_eq_true_iff.mp (hgap e List.mem_cons_self) with hsame | hsame <;> rw [beq_iff_eq.mp hsame]
      · exact hspace
      · exact htab

end Text

namespace Modifier

variable {modifiers : List Modifier} {text rest : Text}

theorem isOptionModifier_name (modifier : Modifier) : Command.isOptionModifier modifier.name = true := by
  rcases modifier with (_ | _ | _) | ⟨_ | _, _, _⟩ <;> rfl

theorem exists_name (modifier : Modifier) : ∃ c letters, modifier.name.toList = c :: letters ∧
    Pattern.opensName c = true ∧ (∀ d ∈ letters, Pattern.continuesName d = true) ∧ Text.isBlank c = false ∧
    Text.isAlphabetic c = true ∧ c ≠ 'c' := by
  have hall : ∀ name ∈ Command.optionModifiers, name.toList ≠ [] ∧ name.toList.tail.all Pattern.continuesName = true ∧
      (name.toList.head?.all fun c => Pattern.opensName c && !Text.isBlank c && Text.isAlphabetic c && c != 'c') =
        true := by
    decide +kernel
  obtain ⟨hne, hletters, hfirst⟩ := hall modifier.name (List.contains_iff_mem.mp modifier.isOptionModifier_name)
  obtain ⟨c, letters, hcons⟩ := List.exists_cons_of_ne_nil hne
  rw [hcons] at hletters hfirst
  simp only [List.head?_cons, Option.all_some, Bool.and_eq_true, Bool.not_eq_true', bne_iff_ne] at hfirst
  obtain ⟨⟨⟨hopens, hblank⟩, hletter⟩, hother⟩ := hfirst
  exact ⟨c, letters, hcons, hopens, List.all_eq_true.mp hletters, hblank, hletter, hother⟩

theorem reuseOf?_name (modifier : Modifier) : Reader.reuseOf? modifier.name = modifier.reuse? := by
  rcases modifier with (_ | _ | _) | ⟨_ | _, _, _⟩ <;> rfl

theorem lastReuse?_cons (modifier : Modifier) (more : List Modifier) :
    lastReuse? (modifier :: more) = (lastReuse? more).or modifier.reuse? := by
  rw [lastReuse?, lastReuse?]
  cases hreuse : modifier.reuse? with
  | none => rw [List.filterMap_cons_none hreuse, Option.or_none]
  | some reuse =>
      rw [List.filterMap_cons_some hreuse, List.getLast?_cons]
      cases (more.filterMap reuse?).getLast? <;> rfl

/-- Where modifiers stand before a number sign, the text begins with a sign. -/
theorem Precede.exists_sign (h : Precede modifiers text ('#' :: rest)) :
    ∃ c left, text = c :: left ∧ Pattern.continuesName c = false ∧ Text.isBlank c = false := by
  have hhash : Pattern.continuesName '#' = false := by decide +kernel
  have hasterisk : Pattern.continuesName '*' = false := by decide +kernel
  cases h with
  | nil => exact ⟨'#', rest, rfl, hhash, rfl⟩
  | cons _ _ _ => exact ⟨'*', _, rfl, hasterisk, rfl⟩

/-- Behind the blanks after a modifier stands the next one, or the number sign. -/
theorem Precede.dropWhile_gap (h : Precede modifiers text ('#' :: rest)) {gap : Text}
    (hgap : ∀ c ∈ gap, Text.isBlank c = true) : (gap ++ text).dropWhile Text.isBlank = text := by
  obtain ⟨c, left, rfl, -, hblank⟩ := h.exists_sign
  rw [Text.dropWhile_blanks hgap, Text.dropWhile_of_head hblank]

theorem length_lt_written (modifier : Modifier) (gap text : Text) :
    text.length < (modifier.written ++ (gap ++ text)).length := by
  rw [List.length_append, List.length_append, written, List.length_cons]
  omega

/-- What follows the name of a modifier does not continue it. -/
theorem Precede.apart {modifier : Modifier} {gap : Text} (hproper : modifier.Proper)
    (hgap : ∀ c ∈ gap, Text.isBlank c = true) (h : Precede modifiers text ('#' :: rest)) :
    ∀ d ∈ (modifier.argument ++ (gap ++ text)).head?, Pattern.continuesName d = false := by
  cases modifier with
  | reuse reuse =>
      obtain ⟨c, left, rfl, hc, -⟩ := h.exists_sign
      exact Text.apart_of_blanks hgap hc left
  | condition selectable inner expression =>
      have hopening : Pattern.continuesName '(' = false := by decide +kernel
      rw [argument, List.append_assoc]
      exact Text.apart_of_blanks hproper.1 hopening _

end Modifier

/-! ### Phrases -/

namespace Reader

variable {r behind : Reader} {phrase group : Phrase} {taken text : Text}

/-- The phrase covers a text that is ahead of the reader. -/
def Covers (r : Reader) (phrase : Phrase) (taken : Text) : Prop :=
  ∃ place left, r.Reaches place ∧ place.rest = taken ++ left ∧ phrase.start = place.offset ∧
    phrase.stop = place.offset + Text.bytes taken

/-- The phrase is the text between parentheses, and holds what the text derives. -/
structure Encloses (r : Reader) (group : Phrase) (text : Text) : Prop where
  clean : group.Clean
  covers : r.Covers group text.enclosed
  derives : ∃ shape, Derives 0 (Lexeme.sequence .command (group.start + 1) text) shape ∧
    group.Shows (.term .group [shape])

/-- The phrase is the command of a modifier; that of a condition holds a group. -/
structure Modified (r : Reader) (phrase : Phrase) (modifier : Modifier) : Prop where
  clean : phrase.Clean
  kind : phrase.kind = .standardCommand modifier.name
  covers : r.Covers phrase modifier.written
  reuse : modifier.isCondition = false → phrase.parts = []
  condition : ∀ selectable gap text, modifier = .condition selectable gap text →
    ∃ group, phrase.parts = [group] ∧ r.Encloses group text

structure Worded (r : Reader) (phrase : Phrase) (word : Text) : Prop where
  clean : phrase.Clean
  kind : phrase.kind = .realWord
  covers : r.Covers phrase word
  parts : phrase.parts = []

theorem Covers.after (h : behind.Covers phrase taken) (hreach : r.Reaches behind) : r.Covers phrase taken := by
  obtain ⟨place, left, hplace, hcovers⟩ := h
  exact ⟨place, left, hreach.trans hplace, hcovers⟩

theorem Encloses.after (h : behind.Encloses group text) (hreach : r.Reaches behind) : r.Encloses group text :=
  ⟨h.clean, h.covers.after hreach, h.derives⟩

theorem Modified.after {modifier : Modifier} (h : behind.Modified phrase modifier) (hreach : r.Reaches behind) :
    r.Modified phrase modifier := by
  refine ⟨h.clean, h.kind, h.covers.after hreach, h.reuse, fun selectable gap text hcondition => ?_⟩
  obtain ⟨group, hparts, hencloses⟩ := h.condition selectable gap text hcondition
  exact ⟨group, hparts, hencloses.after hreach⟩

theorem Worded.after {word : Text} (h : behind.Worded phrase word) (hreach : r.Reaches behind) :
    r.Worded phrase word :=
  ⟨h.clean, h.kind, h.covers.after hreach, h.parts⟩

/-! ### Groups -/

/-- A term that no operator follows is an expression. -/
theorem expression_of_term {term : Phrase}
    (hterm : termOver r.rest.length (expressionWithin r.rest.length) r = (some term, behind))
    (hnone : ∀ level, behind.operatorAt? level = none) : expression r = (some term, behind) := by
  have hstep : ∀ (level : Precedence) (operand : Reading), operand r = (some term, behind) →
      operations r.rest.length operand level r = (some term, behind) := by
    intro level operand hoperand
    rw [operations, hoperand]
    simp only [chain_none (hnone level)]
  exact @expressionOver_induction (fun _ rule => rule r = (some term, behind)) _ _ hterm hstep

/-- A lexeme that a reader stands before is taken from the text there. -/
theorem Before.next_eq {sign : Located} {more : List Located} (h : r.Before sign more) {left : Text}
    (hrest : r.rest = sign.lexeme.text ++ left) : r.next = r.advance sign.lexeme.text left := by
  obtain ⟨⟨lexeme, behind⟩, hfirst, hsame⟩ := Option.map_eq_some_iff.mp h.lexeme
  obtain rfl : lexeme = sign.lexeme := hsame
  rw [next_of_first? hfirst, List.append_cancel_left ((Lexeme.append_of_first? hfirst).trans hrest)]

/-- What stands between two signs covers them. -/
theorem enclosed_range (kind : Kind) {part : Phrase} {closing : Located} {more : List Located}
    (hyields : r.next.MayYield (some part, behind)) (htidy : part.Tidy behind) (hclean : part.Clean)
    (hclosing : behind.Before closing more) : (enclosed kind r (some part, behind)).start = r.offset ∧
      (enclosed kind r (some part, behind)).stop = closing.stop := by
  have hreach : r.Reaches behind := r.reaches_next.trans hyields.reaches
  cases hyields with
  | found hyields =>
      have hstart : r.offset ≤ part.start := r.reaches_next.offset_le.trans hyields.reads.offset_le_start
      have hpart : part.stop ≤ closing.stop :=
        ((htidy.clean hclean).trans hclosing.offset.le).trans (Nat.le_add_right _ _)
      have hbegun : r.offset ≤ closing.stop :=
        (hreach.offset_le.trans hclosing.offset.le).trans (Nat.le_add_right _ _)
      constructor
      · rw [enclosed, Phrase.finish, Phrase.reach_start]
        exact Nat.min_eq_left hstart
      · rw [enclosed, Phrase.finish, Phrase.reach_stop]
        show max (max r.offset part.stop) behind.next.lastEnd = closing.stop
        rw [hclosing.lastEnd]
        omega

/-- The reader takes the text between parentheses as a group, and then stands before what is left. -/
structure Groups (r : Reader) (text left : Text) (group : Phrase) (behind : Reader) : Prop where
  ahead : r.rest = '(' :: (text ++ ')' :: left)
  term : termOver r.rest.length (expressionWithin r.rest.length) r = (some group, behind)
  encloses : r.Encloses group text
  start : group.start = r.offset
  stop : group.stop = r.offset + Text.bytes text.enclosed
  reaches : r.Reaches behind
  rest : behind.rest = left.dropWhile Text.isBlank
  lexemes : ∃ offset, behind.lexemes = Lexeme.sequence .command offset left

/-- A group is read to its closing parenthesis. -/
theorem exists_group {left : Text} {shape : Shape} (hmode : r.mode = .command) (htrimmed : r.Trimmed)
    (hordered : r.Ordered) (hrest : r.rest = '(' :: (text ++ ')' :: left))
    (hderives : Derives 0 (Lexeme.sequence .command 0 text) shape) :
    ∃ group behind, r.Groups text left group behind := by
  obtain ⟨hinner, hsequence⟩ := hderives.enclosed r.offset left
  have hsame : r.lexemes = Lexeme.sequence .command r.offset ('(' :: (text ++ ')' :: left)) := by
    rw [lexemes, hmode, hrest]
  have hlexemes := hsame.trans hsequence
  have hregular := expressionWithin_regular r.rest.length
  obtain ⟨part, middle, houtcome, hclean, hshows, hmiddle, hclosing, hsees⟩ :=
    inner_finds (expressionWithin_finds r.rest.length) hregular htrimmed (Nat.le_refl _) hlexemes hinner rfl rfl
  have hopening : r.kind? = some .parenL := (before_of_lexemes htrimmed hlexemes).kind?
  have hreach : r.Reaches middle := r.reaches_next.trans hmiddle
  -- the closing parenthesis stands where the text between the parentheses ends
  have hoffset : middle.offset = r.offset + Text.bytes ('(' :: text) := by
    rw [hclosing.offset, Text.bytes_cons, ← Nat.add_assoc]
    rfl
  have hclose : middle.rest = [')'] ++ left := hreach.rest_eq (by rw [hrest]; rfl) hoffset
  have hbehind : middle.next = middle.advance [')'] left := hclosing.next_eq hclose
  obtain ⟨kind, hgroup⟩ : ∃ form, group (expressionWithin r.rest.length) r =
      (enclosed (.term form .group) r (some part, middle), middle.next) :=
    ⟨_, by rw [group_eq hsees, houtcome]⟩
  have hfound := enclosed_found (r := r) kind .group hclean hshows hclosing
  have hyields := hregular r.next
  have htidy := expressionWithin_neat r.rest.length r.next (r.reaches_next.ordered hordered) part (by rw [houtcome])
  rw [houtcome] at hyields htidy
  obtain ⟨hstart, hstop⟩ := enclosed_range (.term kind .group) hyields htidy hclean hclosing
  have hstop : (enclosed (.term kind .group) r (some part, middle)).stop = r.offset + Text.bytes text.enclosed := by
    rw [hstop, Text.enclosed, Text.bytes_cons, Text.bytes_append]
    exact (Nat.add_assoc _ _ _).trans (Nat.add_assoc _ _ _)
  refine ⟨enclosed (.term kind .group) r (some part, middle), middle.next, hrest, ?_, ⟨hfound.clean, ?_, ?_⟩, hstart,
    hstop, hreach.trans middle.reaches_next, ?_, _, hclosing.next⟩
  · simp only [termOver, hopening, hgroup]
  · refine ⟨r, left, .refl, ?_, hstart, hstop⟩
    rw [hrest, Text.enclosed, List.cons_append, List.append_assoc]
    rfl
  · exact ⟨shape.shift (r.offset + 1), hstart ▸ hinner, hfound.shown⟩
  · rw [hbehind]
    rfl

/-- A group before something that cannot go on with it is an expression. -/
theorem Groups.expression_eq {left : Text} (h : r.Groups text left group behind) (htrimmed : r.Trimmed)
    (hends : ∀ offset, Ends 0 (Lexeme.sequence .command offset left)) :
    expression r = (some group, behind) := by
  refine expression_of_term h.term fun level => operatorAt?_eq_none (h.reaches.trimmed htrimmed) ?_
  obtain ⟨offset, hlexemes⟩ := h.lexemes
  rw [hlexemes]
  exact ⟨(hends offset).index, fun sign hsign op hop =>
    absurd ((hends offset).operator sign hsign op hop) (Nat.not_lt_zero _)⟩

/-! ### Modifiers -/

theorem sees_sign (kind : TokenKind) {c : Char} {left : Text} (hsign : (kind, [c]) ∈ LexemeForm.signs)
    (hrest : r.rest = c :: left) : r.kind? = some kind ∧ r.next = r.advance [c] left := by
  have hfirst := Lexeme.first?_sign r.mode hsign left
  rw [← hrest] at hfirst
  exact ⟨by rw [kind?, lexeme?, hfirst]; rfl, next_of_first? hfirst⟩

theorem sees_name {c : Char} {letters left : Text} (hmode : r.mode = .command) (hopens : Pattern.opensName c = true)
    (hletters : ∀ d ∈ letters, Pattern.continuesName d = true)
    (hapart : ∀ d ∈ left.head?, Pattern.continuesName d = false) (hrest : r.rest = c :: (letters ++ left)) :
    r.sees .ident = true ∧ r.word = String.ofList (c :: letters) ∧ r.next = r.advance (c :: letters) left := by
  have hfirst := Lexeme.first?_name_apart hopens hletters hapart
  rw [← hmode, ← hrest] at hfirst
  have hlexeme : r.lexeme? = some ⟨.ident, c :: letters⟩ := by rw [lexeme?, hfirst]; rfl
  refine ⟨?_, ?_, next_of_first? hfirst⟩
  · rw [sees, kind?, hlexeme]
    rfl
  · rw [word, Reader.text, hlexeme]
    rfl

theorem modifiersWithin_hash {left : Text} (hrest : r.rest = '#' :: left) (budget : Nat) (found : Modifiers) :
    modifiersWithin (budget + 1) found r = some (found, r) := by
  have hsees : ¬r.sees .asterisk = true := by
    rw [sees, (sees_sign .hash (by decide) hrest).1]
    decide
  rw [modifiersWithin, if_neg hsees]

/-- The command of a modifier, without the condition. -/
def commandOf (r : Reader) (modifier : Modifier) : Phrase :=
  (Phrase.empty (.standardCommand modifier.name) r.offset).finish r.next.next

/-- The reader takes the asterisk and the name of the modifier, and then stands before its argument. -/
structure Meets (r : Reader) (modifier : Modifier) (left : Text) : Prop where
  asterisk : r.sees .asterisk = true
  name : r.next.sees .ident = true
  word : r.next.word = modifier.name
  mode : r.next.next.mode = .command
  rest : r.next.next.rest = (modifier.argument ++ left).dropWhile Text.isBlank
  offset : r.next.next.offset = r.offset + Text.bytes ('*' :: modifier.name.toList) +
    ((modifier.argument ++ left).takeWhile Text.isBlank).length
  start : (r.commandOf modifier).start = r.offset
  stop : (r.commandOf modifier).stop = r.offset + Text.bytes ('*' :: modifier.name.toList)

theorem meets_of_rest {modifier : Modifier} {left : Text} (hmode : r.mode = .command)
    (hrest : r.rest = modifier.written ++ left)
    (hapart : ∀ d ∈ (modifier.argument ++ left).head?, Pattern.continuesName d = false) : r.Meets modifier left := by
  obtain ⟨c, letters, hname, hopens, hletters, hblank, -, -⟩ := modifier.exists_name
  have hsplit : r.rest = '*' :: (c :: (letters ++ (modifier.argument ++ left))) := by
    rw [hrest, Modifier.written, hname]
    simp
  obtain ⟨hkind, hnext⟩ := sees_sign .asterisk (by decide) hsplit
  have hafter : r.next.rest = c :: (letters ++ (modifier.argument ++ left)) := by
    rw [hnext]
    exact Text.dropWhile_of_head hblank _
  have hmode' : r.next.mode = .command := by
    rw [hnext]
    exact hmode
  obtain ⟨hsees, hword, hnamed⟩ := sees_name hmode' hopens hletters hapart hafter
  have hoffset : r.next.offset = r.offset + 1 := by
    rw [hnext]
    show r.offset + 1 + ((c :: (letters ++ (modifier.argument ++ left))).takeWhile Text.isBlank).length = r.offset + 1
    rw [List.takeWhile_cons_of_neg (by rw [hblank]; exact Bool.false_ne_true)]
    rfl
  have hlast : r.next.next.lastEnd = r.offset + Text.bytes ('*' :: modifier.name.toList) := by
    rw [hnamed, hname, Text.bytes_cons, ← Nat.add_assoc]
    show r.next.offset + _ = _
    rw [hoffset]
    rfl
  refine ⟨by rw [sees, hkind]; rfl, hsees, ?_, ?_, ?_, ?_, Phrase.reach_start _ _, ?_⟩
  · rw [hword, ← hname, String.ofList_toList]
  · rw [hnamed]
    exact hmode'
  · rw [hnamed]
    rfl
  · rw [← hlast, hnamed]
    rfl
  · rw [commandOf, Phrase.finish, Phrase.reach_stop, hlast]
    exact Nat.max_eq_right (Nat.le_add_right _ _)

theorem Meets.modifiersWithin_eq {modifier : Modifier} {left : Text} (h : r.Meets modifier left) (budget : Nat)
    (found : Modifiers) :
    modifiersWithin (budget + 1) found r = match modifier.reuse? with
      | some reuse => modifiersWithin budget
          { found with phrases := found.phrases ++ [r.commandOf modifier], reuse := some reuse } r.next.next
      | none => match expression r.next.next with
        | (none, _) => none
        | (some condition, behind) => modifiersWithin budget
            { found with phrases := found.phrases ++ [(r.commandOf modifier).add condition], conditional := true }
            behind := by
  simp only [modifiersWithin, h.asterisk, h.name, h.word, modifier.isOptionModifier_name, Bool.and_self,
    if_true, modifier.reuseOf?_name]
  rfl

theorem clean_commandOf (r : Reader) (modifier : Modifier) : (r.commandOf modifier).Clean :=
  (Phrase.clean_finish _).mpr (Phrase.clean_empty _ _)

/-- A modifier that says something about reuse is read. -/
theorem modifiersWithin_reuse {own : Reuse} {left : Text} (hmode : r.mode = .command)
    (hrest : r.rest = (Modifier.reuse own).written ++ left)
    (hapart : ∀ d ∈ left.head?, Pattern.continuesName d = false) (budget : Nat) (found : Modifiers) :
    ∃ command behind, modifiersWithin (budget + 1) found r = modifiersWithin budget
        { found with phrases := found.phrases ++ [command], reuse := some own } behind ∧
      r.Modified command (.reuse own) ∧ r.Reaches behind ∧ behind.mode = .command ∧
      behind.rest = left.dropWhile Text.isBlank := by
  have hmeets := meets_of_rest hmode hrest hapart
  have hreach : r.Reaches r.next.next := r.reaches_next.trans r.next.reaches_next
  refine ⟨r.commandOf (.reuse own), r.next.next, hmeets.modifiersWithin_eq budget found,
    ⟨clean_commandOf r _, rfl, ⟨r, left, .refl, hrest, hmeets.start, ?_⟩, fun _ => rfl, ?_⟩, hreach, hmeets.mode,
    hmeets.rest⟩
  · rw [hmeets.stop, Modifier.written, Modifier.argument, List.append_nil]
  · rintro _ _ _ ⟨⟩

/-- The expression of a condition is read as a group, whatever follows. -/
theorem exists_condition {selectable : Bool} {gap text left : Text} {shape : Shape}
    (hmode : r.mode = .command) (htrimmed : r.Trimmed) (hordered : r.Ordered)
    (hrest : r.rest = (Modifier.condition selectable gap text).written ++ left)
    (hgap : ∀ c ∈ gap, Text.isBlank c = true) (hderives : Derives 0 (Lexeme.sequence .command 0 text) shape) :
    r.Meets (.condition selectable gap text) left ∧ r.next.next.offset = r.offset +
      Text.bytes ('*' :: (Modifier.condition selectable gap text).name.toList) + Text.bytes gap ∧
      ∃ group behind, r.next.next.Groups text left group behind := by
  have hopening : Pattern.continuesName '(' = false := by decide +kernel
  have hargument : Modifier.argument (.condition selectable gap text) ++ left =
      gap ++ '(' :: (text ++ ')' :: left) := by
    rw [Modifier.argument, Text.enclosed]
    simp
  have hmeets := meets_of_rest hmode hrest (hargument ▸ Text.apart_of_blanks hgap hopening (text ++ ')' :: left))
  have hreach : r.Reaches r.next.next := r.reaches_next.trans r.next.reaches_next
  refine ⟨hmeets, ?_, exists_group hmeets.mode (hreach.trimmed htrimmed) (hreach.ordered hordered) ?_ hderives⟩
  · have htake := Text.takeWhile_blanks hgap (show Text.isBlank '(' = false from rfl) (text ++ ')' :: left)
    have hblanks := Text.bytes_takeWhile_isBlank (gap ++ '(' :: (text ++ ')' :: left))
    rw [htake] at hblanks
    rw [hmeets.offset, hargument, htake, ← hblanks]
  · rw [hmeets.rest, hargument, Text.dropWhile_blanks hgap]
    rfl

/-- A condition right before the number sign is read, with its group. -/
theorem modifiersWithin_condition {selectable : Bool} {gap text between rest : Text} {shape : Shape}
    (hmode : r.mode = .command) (htrimmed : r.Trimmed) (hordered : r.Ordered)
    (hrest : r.rest = (Modifier.condition selectable gap text).written ++ (between ++ '#' :: rest))
    (hgap : ∀ c ∈ gap, Text.isBlank c = true) (hbetween : ∀ c ∈ between, Text.isBlank c = true)
    (hderives : Derives 0 (Lexeme.sequence .command 0 text) shape) (budget : Nat) (found : Modifiers) :
    ∃ command behind, modifiersWithin (budget + 1) found r = modifiersWithin budget
        { found with phrases := found.phrases ++ [command], conditional := true } behind ∧
      r.Modified command (.condition selectable gap text) ∧ r.Reaches behind ∧ behind.rest = '#' :: rest := by
  have hhash : Lexeme.first? .command ((between ++ '#' :: rest).dropWhile Text.isBlank) =
      some (⟨.hash, ['#']⟩, rest) := by
    rw [Text.dropWhile_blanks hbetween]
    exact Lexeme.first?_sign .command (by decide) rest
  have hends (offset : Nat) : Ends 0 (Lexeme.sequence .command offset (between ++ '#' :: rest)) := by
    rw [Lexeme.sequence_of_first? hhash]
    refine ⟨?_, ?_⟩
    · rintro _ ⟨⟩ hbracket
      cases hbracket
    · rintro _ ⟨⟩ op hop
      cases op <;> cases hop
  obtain ⟨hmeets, hoffset, group, behind, hgroup⟩ := exists_condition hmode htrimmed hordered hrest hgap hderives
  have hreach : r.Reaches r.next.next := r.reaches_next.trans r.next.reaches_next
  have hexpression := hgroup.expression_eq (hreach.trimmed htrimmed) hends
  refine ⟨(r.commandOf (.condition selectable gap text)).add group, behind, ?_, ⟨?_, rfl, ?_, ?_, ?_⟩,
    hreach.trans hgroup.reaches, ?_⟩
  · rw [hmeets.modifiersWithin_eq budget found]
    simp only [Modifier.reuse?, hexpression]
  · exact Phrase.clean_add.mpr ⟨clean_commandOf r _, hgroup.encloses.clean⟩
  · refine ⟨r, between ++ '#' :: rest, .refl, hrest, ?_, ?_⟩
    · show min (r.commandOf _).start group.start = r.offset
      rw [hmeets.start, hgroup.start]
      exact Nat.min_eq_left hreach.offset_le
    · show max (r.commandOf _).stop group.stop = _
      rw [hmeets.stop, hgroup.stop, hoffset, Modifier.written, Modifier.argument, ← List.cons_append,
        Text.bytes_append, Text.bytes_append]
      omega
  · rintro ⟨⟩
  · rintro _ _ _ ⟨⟩
    exact ⟨group, rfl, hgroup.encloses.after hreach⟩
  · rw [hgroup.rest, Text.dropWhile_blanks hbetween]
    rfl

/-- Modifiers are read one by one up to the number sign if none but the last is a condition. -/
theorem modifiersWithin_precede {modifiers : List Modifier} {text rest : Text}
    (h : Modifier.Precede modifiers text ('#' :: rest))
    (hlast : ∀ modifier ∈ modifiers.dropLast, modifier.isCondition = false) (hmode : r.mode = .command)
    (htrimmed : r.Trimmed) (hordered : r.Ordered) (hrest : r.rest = text) {budget : Nat}
    (hbudget : text.length < budget) (found : Modifiers) :
    ∃ commands behind, modifiersWithin budget found r = some (⟨found.phrases ++ commands,
        (Modifier.lastReuse? modifiers).or found.reuse,
        found.conditional || modifiers.any Modifier.isCondition⟩, behind) ∧
      List.Forall₂ r.Modified commands modifiers ∧ r.Reaches behind ∧ behind.rest = '#' :: rest := by
  induction modifiers generalizing r text budget found with
  | nil =>
      cases h
      obtain ⟨budget, rfl⟩ := Nat.exists_eq_add_one.mpr (Nat.zero_lt_of_lt hbudget)
      refine ⟨[], r, ?_, .nil, .refl, hrest⟩
      rw [modifiersWithin_hash hrest]
      simp [Modifier.lastReuse?]
  | cons modifier more ih =>
      cases h with
      | @cons _ _ gap text _ hproper hgap hmore =>
          obtain ⟨budget, rfl⟩ := Nat.exists_eq_add_one.mpr (Nat.zero_lt_of_lt hbudget)
          have hshorter : text.length < budget :=
            Nat.lt_of_lt_of_le (modifier.length_lt_written gap text) (Nat.le_of_lt_succ hbudget)
          cases modifier with
          | reuse own =>
              obtain ⟨command, behind, hstep, hmodified, hreach, hmode', hrest'⟩ :=
                modifiersWithin_reuse hmode hrest (Modifier.Precede.apart hproper hgap hmore) budget found
              have hleft : behind.rest = text := hrest'.trans (hmore.dropWhile_gap hgap)
              have hothers : ∀ modifier ∈ more.dropLast, modifier.isCondition = false := by
                intro modifier hmem
                refine hlast modifier ?_
                cases more with
                | nil => cases hmem
                | cons => exact List.mem_cons_of_mem _ hmem
              obtain ⟨commands, further, hrun, hcommands, hfurther, hend⟩ := ih hmore hothers hmode'
                (hreach.trimmed htrimmed) (hreach.ordered hordered) hleft hshorter
                { found with phrases := found.phrases ++ [command], reuse := some own }
              refine ⟨command :: commands, further, ?_, .cons hmodified ?_, hreach.trans hfurther, hend⟩
              · rw [hstep, hrun, Modifier.lastReuse?_cons, List.append_assoc, Option.or_assoc]
                rfl
              · exact hcommands.imp fun _ _ h => h.after hreach
          | condition selectable inner expression =>
              -- a condition is the last modifier, so that the number sign follows
              obtain rfl : more = [] := by
                cases more with
                | nil => rfl
                | cons other more => cases hlast _ List.mem_cons_self
              cases hmore
              obtain ⟨hinner, shape, hderives⟩ := hproper
              obtain ⟨command, behind, hstep, hmodified, hreach, hleft⟩ :=
                modifiersWithin_condition hmode htrimmed hordered hrest hinner hgap hderives budget found
              obtain ⟨budget, rfl⟩ := Nat.exists_eq_add_one.mpr (Nat.zero_lt_of_lt hshorter)
              refine ⟨[command], behind, ?_, .cons hmodified .nil, hreach, hleft⟩
              rw [hstep, modifiersWithin_hash hleft]
              simp [Modifier.lastReuse?, Modifier.reuse?, Modifier.isCondition]

/-! ### Words -/

theorem leaf_word {word left : Text} (hmode : r.mode = .text) (hword : word ∈ LexemeForm.word.language)
    (hrest : r.rest = word ++ left) (hleft : ∀ c ∈ left.head?, Pattern.continuesWord c = false) :
    r.kind? = some .word ∧ r.Worded (r.leaf .realWord).1 word ∧ r.next = r.advance word left := by
  have hfirst := Lexeme.first?_word hword hleft
  rw [← hmode, ← hrest] at hfirst
  have hnext := next_of_first? hfirst
  refine ⟨by rw [kind?, lexeme?, hfirst]; rfl,
    ⟨?_, rfl, ⟨r, left, .refl, hrest, Phrase.reach_start _ _, ?_⟩, rfl⟩, hnext⟩
  · exact (Phrase.clean_reach _).mpr (Phrase.clean_empty _ _)
  · rw [leaf, Phrase.reach_stop, hnext]
    exact Nat.max_eq_right (Nat.le_add_right _ _)

/-- Prose that is made of words is read as these words. -/
theorem proseWithin_words {words : List Text} {text : Text} (h : Text.MadeOf words text) (hmode : r.mode = .text)
    (hrest : r.rest = text.dropWhile Text.isBlank) {budget : Nat} (hbudget : r.rest.length < budget) (phrase : Phrase) :
    ∃ parts behind, proseWithin budget (fun _ => false) phrase r = (phrase.addAll parts, behind) ∧
      List.Forall₂ r.Worded parts words := by
  induction h generalizing r budget phrase with
  | @nil gap hgap =>
      have hnone : r.kind? = none := by
        rw [kind?_eq_none_iff, hrest]
        simpa using @Text.dropWhile_blanks gap [] hgap
      refine ⟨[], r, ?_, .nil⟩
      rw [Phrase.addAll_nil]
      cases budget with
      | zero => rfl
      | succ budget => simp only [proseWithin, hnone]
  | @cons word gap left words hgap hword hleft _ ih =>
      obtain ⟨budget, rfl⟩ := Nat.exists_eq_add_one.mpr (Nat.zero_lt_of_lt hbudget)
      have hsplit : r.rest = word ++ left := by
        obtain ⟨c, letters, rfl, -, hblank⟩ := Text.exists_of_mem_word hword
        rw [hrest, Text.dropWhile_blanks hgap, List.cons_append, Text.dropWhile_of_head hblank]
      obtain ⟨hkind, hworded, hnext⟩ := leaf_word hmode hword hsplit fun c hc =>
        Pattern.continuesWord_of_isBlank (hleft c hc)
      have hshorter : r.next.rest.length < budget :=
        Nat.lt_of_lt_of_le (next_length_lt (rest_ne_nil_of_kind? hkind)) (Nat.le_of_lt_succ hbudget)
      obtain ⟨parts, behind, hrun, hparts⟩ := ih (by rw [hnext]; exact hmode) (by rw [hnext]; rfl) hshorter
        (phrase.add (r.leaf .realWord).1)
      refine ⟨(r.leaf .realWord).1 :: parts, behind, ?_, .cons hworded (hparts.imp fun _ _ h => h.after r.reaches_next)⟩
      rw [Phrase.addAll_cons, ← hrun]
      simp only [proseWithin, hkind]
      rfl

/-! ### Options -/

/-- The phrase is an option with the commands of the modifiers and the words, and nothing else. -/
structure Offers (r : Reader) (option : Phrase) (modifiers : List Modifier) (words : List Text) : Prop where
  kind : option.kind = .choiceOption (Modifier.lastReuse? modifiers) (modifiers.any Modifier.isCondition)
  issues : option.issues = []
  parts : ∃ commands texts, option.parts = commands ++ texts ∧ List.Forall₂ r.Modified commands modifiers ∧
    List.Forall₂ r.Worded texts words

variable {modifiers : List Modifier} {words : List Text}

/-- Modifiers in front of a number sign and words are read as an option. -/
theorem modifiedOption_offers (h : Modifier.Precede modifiers r.rest ('#' :: text))
    (hlast : ∀ modifier ∈ modifiers.dropLast, modifier.isCondition = false) (hwords : Text.MadeOf words text)
    (hmode : r.mode = .command) (htrimmed : r.Trimmed) (hordered : r.Ordered) :
    ∃ option behind, modifiedOption .choice r = (some ⟨option, some .body⟩, behind) ∧
      r.Offers option modifiers words := by
  obtain ⟨commands, before, hrun, hcommands, hreach, hbefore⟩ :=
    modifiersWithin_precede h hlast hmode htrimmed hordered rfl (Nat.lt_succ_self _) {}
  obtain ⟨hkind, hnext⟩ := sees_sign .hash (by decide) hbefore
  have hhash : before.sees .hash = true := by
    rw [sees, hkind]
    rfl
  have hrest : (before.next.switch .text).rest = text.dropWhile Text.isBlank := by
    rw [hnext]
    rfl
  have hthere : r.Reaches (before.next.switch .text) := .switch (hreach.trans before.reaches_next) .text
  let kind := Kind.choiceOption (Modifier.lastReuse? modifiers) (modifiers.any Modifier.isCondition)
  obtain ⟨parts, behind, hprose, hparts⟩ :=
    proseWithin_words hwords rfl hrest (Nat.lt_succ_self _) (.around kind r.offset commands)
  refine ⟨((Phrase.around kind r.offset commands).addAll parts).finish behind, behind, ?_, rfl, rfl, commands, parts,
    ?_, hcommands, hparts.imp fun _ _ h => h.after hthere⟩
  · have hfound : modifiersWithin r.budget {} r = some (⟨commands, Modifier.lastReuse? modifiers,
        modifiers.any Modifier.isCondition⟩, before) := by
      rw [budget, hrun]
      simp
    have htext : optionText (.around kind r.offset commands) before =
        (((Phrase.around kind r.offset commands).addAll parts).finish behind, behind) := by
      rw [optionText, accept, if_pos hhash, prose, budget, hprose]
    simp only [modifiedOption, hfound, hhash, if_true]
    rw [htext]
  · have haround : (Phrase.around kind r.offset commands).parts = commands := List.append_nil _
    exact (Phrase.addAll_parts _ _).trans (congrArg (· ++ parts) haround)

/-- Such an option is the statement of a line below a choice. -/
theorem statement_offers (h : Modifier.Precede modifiers r.rest ('#' :: text))
    (hlast : ∀ modifier ∈ modifiers.dropLast, modifier.isCondition = false) (hwords : Text.MadeOf words text)
    (hmode : r.mode = .command) (htrimmed : r.Trimmed) (hordered : r.Ordered) :
    ∃ option, (statement .choice .command r).1 = some ⟨option, some .body⟩ ∧ r.Offers option modifiers words := by
  obtain ⟨option, behind, hoption, hoffers⟩ := modifiedOption_offers h hlast hwords hmode htrimmed hordered
  obtain ⟨c, left, hrest, -⟩ := h.exists_sign
  have hend : ¬r.atEnd = true := by
    rw [atEnd_iff, hrest]
    exact List.cons_ne_nil c left
  have hbelongs : belongsInChoice option.kind = true := by
    rw [hoffers.kind]
    rfl
  refine ⟨option, ?_, hoffers⟩
  rw [statement, if_neg hend]
  simp only [contentLine, command, hoption, checkChoice, hbelongs]
  rfl

end Reader

/-- A line with modifiers is a command. -/
theorem LineType.ofContent_written (modifier : Modifier) (left : Text) :
    ofContent (modifier.written ++ left) = .command := by
  obtain ⟨c, letters, hname, -, -, -, hletter, hother⟩ := modifier.exists_name
  have hsplit : modifier.written ++ left = '*' :: c :: (letters ++ (modifier.argument ++ left)) := by
    rw [Modifier.written, hname]
    simp
  have hcomment (rest : Text) : opensComment (c :: rest) = false := by
    simp [opensComment, List.isPrefixOf?, hother.symm]
  rw [hsplit, ofContent, hcomment, if_neg Bool.false_ne_true]
  exact if_pos hletter

end Gamebook
