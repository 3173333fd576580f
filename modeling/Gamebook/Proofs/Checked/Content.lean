import Gamebook.Proofs.Checked.Command
import Gamebook.Proofs.Parser.Lines

/-!
Statements get on. Whatever a line holds, its statement is found by a checked parser, and so is the indentation
of the next line with content.
-/

namespace Gamebook.Checked

open Course (again_of_advances checked_eq)
open Gamebook.Parser (Stands Reads Enters Begins Stated)

variable {site : Site} {source : Text} {levels : Levels} {number : Nat} {p q : Parser} {r : Reader}

/-! ### Commands -/

theorem plainCommand_eq (h : p.Reads site r) (hrest : r.rest ≠ []) (start : Nat) (name : String) :
    Grammar.plainCommand Option (site.line.start + start) name p =
      some (Grammar.plainCommand Id (site.line.start + start) name p) := by
  have hknown := fun kind => (h.named hrest kind start).reads
  unfold Grammar.plainCommand
  dsimp only
  cases Command.classify name with
  | unknown =>
      exact Option.bind_eq_some_iff.mpr ⟨_, markRest_fills _ _ (h.createAt (.command name) start).reads, rfl⟩
  | ordinary | flow =>
      dsimp only
      split
      · exact Option.bind_eq_some_iff.mpr ⟨_, prose_eq ((hknown _).switch .text).toStands _, rfl⟩
      · exact Option.bind_eq_some_iff.mpr ⟨_, arguments_fills _ (hknown _), rfl⟩

theorem filled_eq {checked : Filling} {rule : Parser.Filling} (hfills : Fills site checked rule) (h : p.Reads site r)
    (hrest : r.rest ≠ []) (start : Nat) (opens : Option Context) (kind : Kind) :
    Grammar.filled Option (site.line.start + start) opens kind checked p =
      some (Grammar.filled Id (site.line.start + start) opens kind rule p) :=
  Option.bind_eq_some_iff.mpr ⟨_, hfills _ (h.named hrest kind start).reads, rfl⟩

theorem commandNamed_eq (h : p.Reads site r) (hrest : r.rest ≠ []) (start : Nat) (context : Context) :
    Grammar.commandNamed Option (site.line.start + start) context p =
      some (Grammar.commandNamed Id (site.line.start + start) context p) := by
  have hfilled := fun opens kind {checked rule} (hfills : Fills site checked rule) =>
    filled_eq hfills h hrest start opens kind
  unfold Grammar.commandNamed
  dsimp only
  cases CommandForm.ofName p.word with
  | declaration kind => exact hfilled none _ (declaration_fills kind)
  | assignment byReference => exact hfilled none _ (assignment_fills byReference)
  | random => exact hfilled none _ (requireName_fills 2)
  | label => exact hfilled none _ labelDeclaration_fills
  | jump takes => exact hfilled none _ (jump_fills takes)
  | sceneJump takes => exact hfilled none _ (sceneJump_fills takes)
  | computedJump => exact hfilled none _ (requireExpressions_fills 1)
  | value => exact hfilled none _ (requireExpressions_fills 1)
  | input bounded => exact hfilled none _ (requireName_fills _)
  | parameters => exact filled_eq names_fills h hrest start none (.standardCommand p.word)
  | condition => exact hfilled (some context.below) _ (requireExpressions_fills 1)
  | otherwise => exact hfilled (some context.below) _ finishLine_fills
  | choice fake => exact hfilled (some .choice) _ arguments_fills
  | sceneList => exact hfilled (some .sceneList) _ finishLine_fills
  | proseBlock => exact hfilled (some .prose) _ arguments_fills
  | plain => exact Option.bind_eq_some_iff.mpr ⟨_, plainCommand_eq h hrest start p.word, rfl⟩

/-! ### Lines with content -/

theorem plainOption_eq (h : p.Stands site r) (hhash : r.sees .hash = true) :
    Grammar.plainOption Option p = some (Grammar.plainOption Id p) :=
  Option.bind_eq_some_iff.mpr ⟨_, optionText_eq (h.create _) hhash _, rfl⟩

theorem textLine_eq (h : p.Stands site r) : Grammar.textLine Option p = some (Grammar.textLine Id p) :=
  Option.bind_eq_some_iff.mpr ⟨_, prose_eq (h.create .textLine) _, rfl⟩

/-- Where no option is found behind the asterisk, the parser has gone back to it. -/
theorem command_eq (h : p.Stands site r) (context : Context) (hrest : r.rest ≠ []) (hname : r.next.rest ≠ []) :
    Grammar.command Option context p = some (Grammar.command Id context p) := by
  have hoption := Parser.modifiedOption_agrees context h
  unfold Grammar.command
  refine Option.bind_eq_some_iff.mpr ⟨_, modifiedOption_eq context h, ?_⟩
  generalize Grammar.modifiedOption Id context p = outcome at hoption
  generalize ((Reader.modifiedOption context r).1.map (·.phrase), (Reader.modifiedOption context r).2) = read at hoption
  cases hoption with
  | none =>
      dsimp only [Course.bind_counted]
      rw [h.offset]
      exact commandNamed_eq (h.next hrest) hname _ context
  | made hoption => rfl

theorem sceneListEntry_eq (h : p.Stands site r) (hrest : r.rest ≠ []) :
    Grammar.sceneListEntry Option p = some (Grammar.sceneListEntry Id p) := by
  unfold Grammar.sceneListEntry
  rcases h.accept .dollar rfl with ⟨-, haccept, -, hnext⟩ | ⟨-, haccept, -⟩
  · rw [haccept]
    by_cases hnamed : r.next.rest = []
    · rw [hnext.not_recut hnamed, h.offset]
      exact Option.bind_eq_some_iff.mpr ⟨_, markRest_fills _ _ (hnext.createAt .sceneRef r.offset).reads, rfl⟩
    · obtain ⟨q, hrecut, -, hq⟩ := hnext.recut hnamed
      rw [hrecut]
      exact Option.bind_eq_some_iff.mpr ⟨_, finishLine_fills _ (hq.leaf .sceneRef).reads, rfl⟩
  · rw [haccept]
    obtain ⟨q, hrecut, -, hq⟩ := h.recut hrest
    rw [hrecut]
    exact Option.bind_eq_some_iff.mpr ⟨_, finishLine_fills _ (hq.leaf .sceneRef).reads, rfl⟩

theorem contentLine_eq (h : p.Stands site r) (context : Context) {type : LineType} (htyped : Parser.Typed type r)
    (hrest : r.rest ≠ []) : Grammar.contentLine Option context type p = some (Grammar.contentLine Id context type p) := by
  cases type with
  | option =>
      have hoption := plainOption_eq h (htyped.option rfl)
      cases context with
      | sceneList => exact sceneListEntry_eq h hrest
      | prose => exact textLine_eq h
      | choice => exact hoption
      | scene | body => exact Option.bind_eq_some_iff.mpr ⟨_, hoption, rfl⟩
  | command =>
      obtain ⟨hasterisk, hname⟩ := htyped.command rfl
      have hsees : p.sees .asterisk = true := (h.sees rfl).trans hasterisk
      cases context with
      | sceneList => exact sceneListEntry_eq h hrest
      | prose => exact textLine_eq h
      | scene | body | choice =>
          unfold Grammar.contentLine
          dsimp only
          rw [if_pos hsees, if_pos hsees]
          exact command_eq h _ hrest hname
  | text | comment =>
      cases context with
      | sceneList => exact sceneListEntry_eq h hrest
      | scene | body | choice | prose => exact textLine_eq h

theorem statement_eq (h : p.Enters site) (context : Context) :
    Grammar.statement Option context site.line.type p = some (Grammar.statement Id context site.line.type p) := by
  unfold Grammar.statement
  split
  · rfl
  · rename_i hend
    split
    · rfl
    · rename_i hsees
      by_cases hcomment : site.line.type = .comment
      · rw [Parser.sees, (h.comment hcomment).1] at hsees
        exact absurd rfl hsees
      · have hstands := h.stands hcomment
        have hrest : (Reader.ofLine site.line).rest ≠ [] := mt Reader.atEnd_iff.mpr (hstands.atEnd ▸ hend)
        exact Option.bind_eq_some_iff.mpr
          ⟨_, contentLine_eq hstands context (Parser.typed_ofLine site.line) hrest, rfl⟩

/-! ### Looking ahead -/

/-- What comes of the token behind an indentation: the line is passed when it ends there. -/
theorem passLine_eq {width : Nat} {more : Parser → Option (Option Nat × Parser)} {rule : Parser → Option Nat × Parser}
    (hmore : p.token.kind = .eol → more p.next = some (rule p.next)) :
    (match p.token.kind with
      | .eol => more p.next
      | .eof => some (none, p)
      | _ => some (some width, p)) =
    some (match p.token.kind with
      | .eol => rule p.next
      | .eof => (none, p)
      | _ => (some width, p)) := by
  generalize p.token.kind = kind at hmore
  cases kind with
  | eol => exact hmore rfl
  | _ => rfl

/-- By the number of lines that are ahead: every blank line is passed with its break. -/
theorem indentWithin_eq (h : p.Begins source levels number) (hsource : source ≠ []) {spare budget : Nat}
    (hbudget : (Line.split source).length < number + budget) :
    Grammar.indentWithin Option spare p = some (Grammar.indentWithin Id budget p) := by
  induction budget generalizing p number with
  | zero =>
      have hkind : p.token.kind = .eof := by rw [h.token_behind (List.getElem?_eq_none (by omega))]; rfl
      have hpass : p.pass = (0, p) := by rw [Parser.pass, hkind]
      rw [Grammar.indentWithin, checked_eq, hpass]
      dsimp only
      rw [hkind]
      rfl
  | succ budget ih =>
      rw [Grammar.indentWithin_succ, Grammar.indentWithin, checked_eq]
      refine passLine_eq fun hkind => ?_
      change p.pass.2.token.kind = .eol at hkind
      cases hfound : (Line.split source)[number]? with
      | none =>
          have hend : p.token.kind = .eof := by rw [h.token_behind hfound]; rfl
          rw [Parser.pass, hend] at hkind
          cases hend.symm.trans hkind
      | some line =>
          obtain rfl := Line.number_of_getElem?_split hfound
          let site : Site := ⟨source, levels, line, hfound⟩
          have henters := (@Parser.Begins.pass site p h).2
          have hblank : line.isBlank = true := by rw [← henters.atEnd, Parser.atEnd, hkind]; rfl
          obtain ⟨hstands, hrest⟩ := henters.stands_of_isBlank hblank
          have hbegins : (p.pass.2.accept .eol).2.Begins source levels (line.number + 1) := hstands.begins hrest
          rw [Parser.accept, Parser.sees, hkind] at hbegins
          have hadvances := @Parser.Begins.advances _ site p p.pass.2.next h hbegins (Nat.lt_succ_self _) hsource
          exact (again_of_advances hadvances ()).trans (ih hbegins (by omega))

theorem nextIndent_eq (h : p.Begins source levels number) (hsource : source ≠ []) :
    Grammar.nextIndent Option p = some (Grammar.nextIndent Id p) := by
  obtain ⟨cursor, -, -, hlooks⟩ := h.looks
  have hlines : p.scanner.lines.size = (Line.split source).length := by
    rw [hlooks.onSource.lines, List.size_toArray]
  have hbudget : (Line.split source).length < number + (p.scanner.lines.size + 1) := by omega
  exact Option.bind_eq_some_iff.mpr ⟨_, indentWithin_eq h hsource hbudget, rfl⟩

end Gamebook.Checked
