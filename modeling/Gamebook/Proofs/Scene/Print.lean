import Gamebook.Proofs.Grammar.Complete
import Gamebook.Proofs.Scene.Single

/-!
Lines that print an expression. Nothing on such a line is marked as an error just if the lexemes behind the
name of the command derive an expression, and the command then holds that derivation.
-/

namespace Gamebook

/-! ### The command and its name -/

namespace Pattern

theorem nameLength_print (rest : Text) : nameLength ('p' :: 'r' :: 'i' :: 'n' :: 't' :: ' ' :: rest) = 5 := by
  have hopens : opensName 'p' = true := by decide +kernel
  have hletters : "rint".toList.all continuesName = true := by decide +kernel
  have hblank : continuesName ' ' = false := by decide +kernel
  show (if opensName 'p' then (("rint".toList ++ ' ' :: rest).takeWhile continuesName).length + 1 else 0) = 5
  rw [if_pos hopens, List.takeWhile_append_of_pos (List.all_eq_true.mp hletters), List.takeWhile_cons, hblank]
  rfl

theorem longestOf_print (rest : Text) :
    longestOf ('p' :: 'r' :: 'i' :: 'n' :: 't' :: ' ' :: rest) ofCommands = some (.ident, 5) := by
  have hdigit : Text.isDigit 'p' = false := by decide
  simp [longestOf, ofCommands, signs, fixed, numberLength, digits, stringLength, badStringLength, nameLength_print,
    hdigit]

end Pattern

/-- The lexemes of what is printed, where the scene has them. -/
abbrev Lexeme.ofPrinted (printed : Text) : List Located := sequence .command (Text.bytes "*print ".toList) printed

namespace Reader

variable {r : Reader} {phrase : Phrase}

/-- The reader before a line that prints what follows. -/
def atPrint (printed : Text) : Reader := ⟨.command, 0, "*print ".toList ++ printed, 0⟩

theorem first?_atPrint (printed : Text) : Lexeme.first? (atPrint printed).mode (atPrint printed).rest =
    some (⟨.asterisk, ['*']⟩, "print ".toList ++ printed) :=
  Lexeme.first?_of_longestOf .command (Pattern.longestOf_asterisk _)

theorem next_atPrint (printed : Text) : (atPrint printed).next = ⟨.command, 1, "print ".toList ++ printed, 1⟩ :=
  next_of_first? (first?_atPrint printed)

theorem first?_next_atPrint (printed : Text) :
    Lexeme.first? (atPrint printed).next.mode (atPrint printed).next.rest =
      some (⟨.ident, "print".toList⟩, ' ' :: printed) := by
  rw [next_atPrint]
  exact Lexeme.first?_of_longestOf .command (Pattern.longestOf_print printed)

theorem trimmed_atPrint (printed : Text) : (atPrint printed).next.next.Trimmed := by
  have htrimmed : (atPrint printed).Trimmed := by
    rintro c ⟨⟩
    rfl
  exact htrimmed.next.next

/-- Behind the command and its name are the lexemes of what is printed. -/
theorem lexemes_atPrint (printed : Text) : (atPrint printed).next.next.lexemes = Lexeme.ofPrinted printed := by
  have hblanks : 6 + ((' ' :: printed).takeWhile Text.isBlank).length =
      Text.bytes "*print ".toList + (printed.takeWhile Text.isBlank).length := by
    show 6 + ((printed.takeWhile Text.isBlank).length + 1) = 7 + _
    omega
  calc (atPrint printed).next.next.lexemes = Lexeme.sequence .command 6 (' ' :: printed) := by
        rw [next_of_first? (first?_next_atPrint printed), lexemes_advance, next_atPrint]
        rfl
    _ = Lexeme.ofPrinted printed := by
        rw [← Lexeme.sequence_dropWhile, hblanks, Lexeme.ofPrinted, ← Lexeme.sequence_dropWhile .command _ printed]
        rfl

/-- The command that prints an expression, as it is before the expression is read. -/
def printing (printed : Text) : Phrase :=
  (Phrase.empty (.standardCommand "print") 0).finish (atPrint printed).next.next

theorem command_atPrint (printed : Text) : command .scene (atPrint printed) =
    (⟨(requireExpressions 1 (printing printed) (atPrint printed).next.next).1, none⟩,
      (requireExpressions 1 (printing printed) (atPrint printed).next.next).2) := by
  have hlexeme : (atPrint printed).next.lexeme? = some ⟨.ident, "print".toList⟩ := by
    rw [lexeme?, first?_next_atPrint, Option.map_some]
  have hword : (atPrint printed).next.word = "print" := by
    rw [word, text, hlexeme]
    rfl
  have hsees : (atPrint printed).sees .asterisk = true := by
    rw [sees, kind?, lexeme?, first?_atPrint]
    rfl
  have hmodifier : Command.isOptionModifier "print" = false := by decide
  have hmodifiers : modifiersWithin (atPrint printed).budget {} (atPrint printed) = none := by
    simp only [budget, modifiersWithin, hsees, hword, hmodifier, Bool.and_false, Bool.false_eq_true, if_true,
      if_false]
  have hform : CommandForm.ofName "print" = .value := rfl
  simp only [command, modifiedOption, hmodifiers, commandNamed, hword, hform]
  rfl

/-! ### The expression -/

/-- What the rest of the line derives is found as the only value. -/
theorem exists_value {shape : Shape} (htrimmed : r.Trimmed) (phrase : Phrase) (hshape : Derives 0 r.lexemes shape) :
    ∃ value behind, requireExpressions 1 phrase r = ((phrase.add value).finish behind, behind) ∧ value.Clean ∧
      value.Shows shape := by
  obtain ⟨⟨value, behind⟩, houtcome, hfound⟩ :=
    expression_finds htrimmed (List.append_nil _).symm hshape (ends_nil 0)
  have hreaches := (expression_regular r).reaches
  rw [houtcome] at hreaches
  have hend : behind.atEnd = true :=
    atEnd_iff.mpr ((lexemes_eq_nil_iff (hreaches.trimmed htrimmed)).mp hfound.left)
  refine ⟨value, behind, ?_, hfound.clean, hfound.shown⟩
  simp only [requireExpressions, houtcome, Phrase.finishLine, hend, if_true]

/-- An expression that has to be there is read without an error if the rest of the line derives one. -/
theorem clean_requireExpression (htrimmed : r.Trimmed) (hphrase : phrase.Clean) :
    (requireExpressions 1 phrase r).1.Clean ↔ ∃ shape, Derives 0 r.lexemes shape := by
  constructor
  · intro hclean
    have hreaches := (expression_regular r).reaches
    generalize houtcome : expression r = outcome at hreaches
    obtain ⟨found, behind⟩ := outcome
    cases found with
    | none =>
        have herror : Rule.expressionExpected.IsError := rfl
        simp only [requireExpressions, houtcome] at hclean
        rw [Phrase.markRest, Phrase.clean_finish, Phrase.complain, Phrase.clean_flag] at hclean
        exact absurd herror hclean.2
    | some value =>
        simp only [requireExpressions, houtcome] at hclean
        obtain ⟨hadded, hend⟩ := Phrase.clean_finishLine.mp hclean
        obtain ⟨front, shape, hfront, hshape⟩ :=
          expression_justified r behind value htrimmed houtcome (Phrase.clean_add.mp hadded).2
        rw [(lexemes_eq_nil_iff (hreaches.trimmed htrimmed)).mpr hend, List.append_nil] at hfront
        exact ⟨shape, hfront ▸ hshape⟩
  · rintro ⟨shape, hshape⟩
    obtain ⟨value, behind, houtcome, hvalue, _⟩ := exists_value htrimmed phrase hshape
    rw [houtcome, Phrase.clean_finish, Phrase.clean_add]
    exact ⟨hphrase, hvalue⟩

end Reader

/-! ### The line -/

open Reader (atPrint printing requireExpressions)

theorem LineType.ofContent_print (printed : Text) : ofContent ("*print ".toList ++ printed) = .command := by
  have halphabetic : Text.isAlphabetic 'p' = true := by decide +kernel
  show (if opensComment ("print ".toList ++ printed) then .comment
    else if Text.isAlphabetic 'p' then .command else .text) = LineType.command
  rw [halphabetic]
  rfl

/-- The statement on a line that prints an expression. -/
def Statement.print (printed : Text) : Statement where
  phrase := (requireExpressions 1 (printing printed) (atPrint printed).next.next).1

theorem Statement.phrase_print (printed : Text) : (Statement.print printed).phrase =
    (requireExpressions 1 (printing printed) (atPrint printed).next.next).1 := by
  rw [Statement.print]

theorem Statement.clean_print (printed : Text) : (Statement.print printed).phrase.Clean ↔
    ∃ shape, Derives 0 (Lexeme.ofPrinted printed) shape := by
  have hprinting : (printing printed).Clean := (Phrase.clean_finish _).mpr (Phrase.clean_empty _ _)
  rw [← Reader.lexemes_atPrint, Statement.phrase_print,
    Reader.clean_requireExpression (Reader.trimmed_atPrint printed) hprinting]

namespace Line

/-- The line that prints an expression, as the only line of a scene. -/
def print (printed : Text) : Line := ofBody 0 0 ("*print ".toList ++ printed) .none

variable {printed : Text}

theorem lines_print (hfeed : '\n' ∉ printed) (hreturn : '\r' ∉ printed) :
    lines ("*print ".toList ++ printed) = [print printed] := by
  have hfeed' : '\n' ∉ "*print ".toList ++ printed := by
    rw [List.mem_append, not_or]
    exact ⟨by decide, hfeed⟩
  have hreturn' : '\r' ∉ "*print ".toList ++ printed := by
    rw [List.mem_append, not_or]
    exact ⟨by decide, hreturn⟩
  rw [lines, cut_body (List.append_ne_nil_of_left_ne_nil (by decide) _) hfeed' hreturn']
  rfl

theorem reading_print (printed : Text) : (print printed).reading .scene = (some (.print printed),
    (requireExpressions 1 (printing printed) (atPrint printed).next.next).2) := by
  have htype : (print printed).type = .command := LineType.ofContent_print printed
  have hreader : Reader.ofLine (print printed) = atPrint printed := by
    rw [Reader.ofLine, htype]
    rfl
  have hend : (atPrint printed).atEnd = false := rfl
  rw [reading, htype, hreader, Reader.statement, hend]
  simp only [Reader.contentLine, Reader.command_atPrint]
  rfl

end Line

/-! ### The scene -/

/-- The tree of a scene whose only line prints an expression of the given shape. -/
def Tree.Prints (tree : Tree) (shape : Shape) : Prop :=
  ∃ line command value, tree.children Tree.root = [line] ∧ tree.children line = [command] ∧
    tree.kind? command = some (.standardCommand "print") ∧ tree.children command = [value] ∧
    tree.Shows value shape

namespace Scene

variable {printed : Text} (name uri : Option String)

theorem single_print (hfeed : '\n' ∉ printed) (hreturn : '\r' ∉ printed) :
    Single ("*print ".toList ++ printed) (.print printed) :=
  ⟨Line.lines_print hfeed hreturn, by rintro _ ⟨⟩; rfl, congrArg Prod.fst (Line.reading_print printed), rfl⟩

theorem clean_print (hfeed : '\n' ∉ printed) (hreturn : '\r' ∉ printed) :
    (phrase ("*print ".toList ++ printed) name uri).Clean ↔ (Statement.print printed).phrase.Clean :=
  clean_single name uri (single_print hfeed hreturn)

/-- What is derived is what the command holds. -/
theorem prints_of_derives {shape : Shape} (hfeed : '\n' ∉ printed) (hreturn : '\r' ∉ printed)
    (hshape : Derives 0 (Lexeme.ofPrinted printed) shape) (levels : Levels) :
    (parse ("*print ".toList ++ printed) name uri levels).Prints shape := by
  rw [← Reader.lexemes_atPrint] at hshape
  obtain ⟨value, behind, houtcome, _, hvalue⟩ :=
    Reader.exists_value (Reader.trimmed_atPrint printed) (printing printed) hshape
  have hcommand : (Statement.print printed).phrase = ((printing printed).add value).finish behind := by
    rw [Statement.print, houtcome]
  have hsound := (phrase_built ("*print ".toList ++ printed) name uri).sound
  obtain ⟨line, commandEntry, hcommandEntry, hstatement, hlines, hcommands⟩ :=
    exists_statement name uri (single_print hfeed hreturn) levels
  rw [hcommand] at hstatement
  have hparts : commandEntry.phrase.parts = [value] := by
    rw [hstatement]
    rfl
  obtain ⟨valueEntry, hvalueEntry, rfl, hvalues⟩ := Phrase.exists_child hcommandEntry hparts
  refine ⟨line, commandEntry.id, valueEntry.id, hlines, hcommands, ?_, hvalues, ?_⟩
  · rw [parse, Phrase.kind?_toTree levels _ hcommandEntry, hstatement]
    rfl
  · exact hvalue.toTree (fun entry hentry => (hsound.entry hentry).ordered) hvalueEntry

/-- Printing accepts the grammar of expressions and nothing else: no error is marked just if what is printed
has a derivation. There is one derivation only; its leaves are all literals, names and operators of what is
printed, in order, and the tree holds it below the command. -/
theorem parse_print (hfeed : '\n' ∉ printed) (hreturn : '\r' ∉ printed) :
    ((parse ("*print ".toList ++ printed) name uri {}).Faultless ↔
      ∃ shape, Derives 0 (Lexeme.ofPrinted printed) shape) ∧
    ∀ shape, Derives 0 (Lexeme.ofPrinted printed) shape →
      (∀ other, Derives 0 (Lexeme.ofPrinted printed) other → other = shape) ∧
      shape.leaves = (Lexeme.ofPrinted printed).filterMap Located.leaf? ∧
      (parse ("*print ".toList ++ printed) name uri {}).Prints shape := by
  refine ⟨?_, fun shape hshape => ⟨?_, hshape.leaves_eq, prints_of_derives name uri hfeed hreturn hshape {}⟩⟩
  · rw [parse, Phrase.faultless_toTree (phrase_built _ name uri).sound, clean_print name uri hfeed hreturn]
    exact Statement.clean_print printed
  · intro other hother
    rw [← Reader.lexemes_atPrint] at hshape hother
    exact Reader.derives_unique (Reader.trimmed_atPrint printed) hshape hother

theorem parse_print_difference : '\n' ∉ "1-x*2".toList ∧ '\r' ∉ "1-x*2".toList ∧
    (parse ("*print ".toList ++ "1-x*2".toList) none none {}).Faultless ∧
    (parse ("*print ".toList ++ "1-x*2".toList) none none {}).Prints
      (.operation .subtract (.term .literal [.leaf .numericValue 7 8]) ⟨⟨.delim '-', ['-']⟩, 8⟩
        (.operation .multiply (.term .var [.leaf .var 9 10]) ⟨⟨.asterisk, ['*']⟩, 10⟩
          (.term .literal [.leaf .numericValue 11 12]))) := by
  have hfeed : '\n' ∉ "1-x*2".toList := by decide
  have hreturn : '\r' ∉ "1-x*2".toList := by decide
  have hlexemes : Lexeme.ofPrinted "1-x*2".toList =
      [⟨⟨.num, ['1']⟩, 7⟩, ⟨⟨.delim '-', ['-']⟩, 8⟩, ⟨⟨.ident, ['x']⟩, 9⟩, ⟨⟨.asterisk, ['*']⟩, 10⟩,
        ⟨⟨.num, ['2']⟩, 11⟩] := by
    decide +kernel
  have hone : Derives 3 [⟨⟨.num, ['1']⟩, 7⟩] (.term .literal [.leaf .numericValue 7 8]) := .literal rfl
  have hx : Derives 4 [⟨⟨.ident, ['x']⟩, 9⟩] (.term .var [.leaf .var 9 10]) :=
    @Derives.named 4 ⟨⟨.ident, ['x']⟩, 9⟩ [] (by decide) trivial (List.forall_mem_nil _)
  have htwo : Derives 5 [⟨⟨.num, ['2']⟩, 11⟩] (.term .literal [.leaf .numericValue 11 12]) := .literal rfl
  have htimes : (⟨⟨.asterisk, ['*']⟩, 10⟩ : Located).lexeme = Operator.multiply.sign := rfl
  have hminus : (⟨⟨.delim '-', ['-']⟩, 8⟩ : Located).lexeme = Operator.subtract.sign := rfl
  have hdifference := Derives.operation hminus (Nat.zero_le _) hone (.operation htimes (Nat.le_refl _) hx htwo)
  have hprinted := parse_print none none hfeed hreturn
  rw [hlexemes] at hprinted
  exact ⟨hfeed, hreturn, hprinted.1.mpr ⟨_, hdifference⟩, (hprinted.2 _ hdifference).2.2⟩

end Scene

end Gamebook
