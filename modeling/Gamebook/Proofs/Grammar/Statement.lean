import Gamebook.Statement
import Gamebook.Proofs.Grammar.Prose
import Gamebook.Proofs.Lexeme

/-!
Every statement ends with its line. Whatever a line holds, well-formed or not, the rule for it goes
on with the phrase that it began, keeps to the places of the line and leaves nothing of it; and
whether lines are expected below the statement shows in the kind of its phrase.
-/

namespace Gamebook

/-- The commands that open a block, apart from the choices. -/
def Command.blocks : List String :=
  Command.conditionals ++ ["scene_list", "stat_chart", "achievement"]

/-- The kinds of statements that open a block: conditionals, choices and their options, lists of
scenes, charts and achievements. -/
def Kind.opensBlock : Kind → Bool
  | .choiceCommand _ | .choiceOption _ _ => true
  | .standardCommand name => Command.blocks.contains name
  | _ => false

/-- The forms of the commands that open a block, apart from the choices. -/
def CommandForm.opensBlock : CommandForm → Bool
  | condition | otherwise | sceneList | proseBlock => true
  | _ => false

theorem opensBlock_standardCommand (name : String) :
    (Kind.standardCommand name).opensBlock = (CommandForm.ofName name).opensBlock := by
  show Command.blocks.contains name = _
  by_cases hblock : name ∈ Command.blocks
  · rw [List.contains_iff_mem.mpr hblock]
    simp only [Command.blocks, Command.conditionals, List.cons_append, List.nil_append, List.mem_cons,
      List.not_mem_nil, or_false] at hblock
    rcases hblock with rfl | rfl | rfl | rfl | rfl | rfl | rfl <;> rfl
  · rw [Bool.eq_false_iff.mpr (fun h => hblock (List.contains_iff_mem.mp h))]
    unfold CommandForm.ofName
    split <;> first
      | rfl
      | exact absurd (by decide) hblock

namespace CommandForm

def kind (name : String) : CommandForm → Kind
  | .declaration declared => .variableDeclaration declared
  | .assignment byReference => .setCommand byReference
  | .random => .randCommand
  | .label => .labelDeclaration
  | .jump _ | .sceneJump _ | .computedJump => .flowCommand name
  | .value | .input _ | .parameters | .condition | .otherwise | .sceneList | .proseBlock => .standardCommand name
  | .choice fake => .choiceCommand fake
  | .plain =>
    match Command.classify name with
    | .ordinary => .standardCommand name
    | .flow => .flowCommand name
    | .unknown => .command name

theorem isContent_kind (name : String) (form : CommandForm) : (form.kind name).isContent = true := by
  cases form
  case plain =>
    unfold kind
    cases Command.classify name <;> rfl
  all_goals rfl

theorem eq_choice_of_kind {name : String} {form : CommandForm} {fake : Bool}
    (h : form.kind name = .choiceCommand fake) : form = .choice fake := by
  cases form
  case plain =>
    unfold kind at h
    cases hclass : Command.classify name <;> rw [hclass] at h <;> cases h
  all_goals cases h
  rfl

end CommandForm

namespace Reader

open Phrase (Grows)

/-- The outcome of a rule that goes on with a phrase to the end of the line. -/
structure Completes (r : Reader) (phrase : Phrase) (outcome : Phrase × Reader) : Prop where
  grows : r.Extends phrase outcome
  rest : outcome.2.rest = []

variable {r behind : Reader} {phrase grown : Phrase}

theorem Completes.after {outcome : Phrase × Reader} (h : behind.Completes grown outcome)
    (hgrows : phrase.Grows r grown behind) : r.Completes phrase outcome :=
  ⟨hgrows.trans h.grows, h.rest⟩

theorem Completes.flag {outcome : Phrase × Reader} (h : r.Completes phrase outcome) {rule : Rule}
    {offset length : Nat} (hrule : rule.IsError) (hoffset : r.Ahead offset) (hstop : r.Site (offset + length))
    (hleaf : phrase.kind.isLeaf = false) :
    r.Completes phrase (outcome.1.flag rule offset length, outcome.2) := by
  refine ⟨.flag h.grows hoffset hstop (.inl hrule) ?_, h.rest⟩
  rw [h.grows.kind_eq, hleaf]
  exact nofun

theorem finishLine_completes (phrase : Phrase) (r : Reader) : r.Completes phrase (phrase.finishLine r) := by
  refine ⟨phrase.finishLine_extends r, ?_⟩
  unfold Phrase.finishLine
  split
  · rename_i hend
    exact atEnd_iff.mp hend
  · exact r.skipLine_rest

theorem markRest_completes (phrase : Phrase) {rule : Rule} (hrule : rule.IsError) (r : Reader) :
    r.Completes phrase (phrase.markRest rule r) :=
  ⟨phrase.markRest_extends hrule r, r.skipLine_rest⟩

theorem prose_completes (phrase : Phrase) (r : Reader) : r.Completes phrase (prose phrase r) :=
  ⟨prose_extending phrase r, prose_rest phrase r⟩

/-! ### Arguments -/

theorem argumentKind_isPart (argument : Text) : (argumentKind argument).isPart = true := by
  unfold argumentKind
  split
  · rfl
  · split <;> rfl

theorem argument_reads (r : Reader) : r.Reads Kind.isPart r.argument.1 r.argument.2 := by
  unfold argument
  split
  · exact r.stringValue_yields.reads
  · exact r.leafRun_reads _ (argumentKind_isPart _)

theorem argument_length_lt (htrimmed : r.Trimmed) (hrest : r.rest ≠ []) :
    r.argument.2.rest.length < r.rest.length := by
  unfold argument
  split
  · exact next_length_lt hrest
  · exact nextRun_length_lt htrimmed hrest

theorem argumentsWithin_completes {budget : Nat} (htrimmed : r.Trimmed) (hbudget : r.rest.length ≤ budget)
    (phrase : Phrase) : r.Completes phrase (argumentsWithin budget phrase r) := by
  induction budget generalizing phrase r with
  | zero => exact ⟨.refl, List.eq_nil_of_length_eq_zero (Nat.le_zero.mp hbudget)⟩
  | succ budget ih =>
      simp only [argumentsWithin]
      split
      · rename_i hend
        exact ⟨.refl, atEnd_iff.mp hend⟩
      · rename_i hend
        have hargument := r.argument_reads
        have hlt := argument_length_lt htrimmed (fun hnil => hend (atEnd_iff.mpr hnil))
        exact (ih (hargument.reaches.trimmed htrimmed) (by omega) _).after (.read .refl hargument)

theorem arguments_completes (htrimmed : r.Trimmed) (phrase : Phrase) :
    r.Completes phrase (arguments phrase r) :=
  argumentsWithin_completes htrimmed (Nat.le_succ _) phrase

theorem expressionsWithin_extends (budget : Nat) (phrase : Phrase) (r : Reader) :
    r.Extends phrase (expressionsWithin budget phrase r) := by
  induction budget generalizing phrase r with
  | zero => exact .refl
  | succ budget ih =>
      have hvalue := expression_regular r
      unfold expressionsWithin
      split
      · exact .refl
      · generalize expression r = outcome at hvalue
        cases hvalue with
        | none => exact phrase.finishLine_extends r
        | found hvalue => exact (Grows.read .refl hvalue.reads).trans (ih _ _)

theorem finishArguments_completes (takes : Bool) (phrase : Phrase) (r : Reader) :
    r.Completes phrase (finishArguments takes phrase r) := by
  have hread : r.Extends phrase (if takes then expressionsWithin r.budget phrase r else (phrase, r)) := by
    split
    · exact expressionsWithin_extends r.budget phrase r
    · exact .refl
  exact (finishLine_completes _ _).after hread

theorem requireExpressions_completes (count : Nat) (phrase : Phrase) (r : Reader) :
    r.Completes phrase (requireExpressions count phrase r) := by
  induction count generalizing phrase r with
  | zero => exact finishLine_completes phrase r
  | succ count ih =>
      have hvalue := expression_regular r
      unfold requireExpressions
      generalize expression r = outcome at hvalue
      cases hvalue with
      | none => exact markRest_completes phrase (by decide) r
      | found hvalue => exact (ih _ _).after (.read .refl hvalue.reads)

/-! ### The forms of commands -/

theorem requireName_completes (expressions : Nat) (phrase : Phrase) (r : Reader) :
    r.Completes phrase (requireName expressions phrase r) := by
  have hname := variableName_regular r
  unfold requireName
  generalize variableName r = outcome at hname
  cases hname with
  | none => exact markRest_completes phrase (by decide) r
  | found hname => exact (requireExpressions_completes expressions _ _).after (.read .refl hname.reads)

theorem declaration_completes (kind : Declaration) (phrase : Phrase) (r : Reader) :
    r.Completes phrase (declaration kind phrase r) := by
  have hname := variableName_regular r
  unfold declaration
  generalize variableName r = outcome at hname
  cases hname with
  | none => exact markRest_completes phrase (by decide) r
  | @found name behind hname =>
      have hvalue := expression_regular behind
      refine Completes.after ?_ (.read .refl hname.reads)
      dsimp only
      generalize expression behind = outcome at hvalue
      cases hvalue with
      | none =>
          dsimp only
          split
          · exact finishLine_completes _ _
          · exact markRest_completes _ (by decide) _
      | found hvalue => exact (finishLine_completes _ _).after (.read .refl hvalue.reads)

theorem assignedValue_regular (byReference : Bool) (target : Phrase) :
    Regular (assignedValue byReference target) := by
  intro r
  simp only [assignedValue]
  split
  · exact .found (r.assignedOperation_yields target _)
  · exact expression_regular r

theorem assignment_completes (byReference : Bool) (phrase : Phrase) (r : Reader) :
    r.Completes phrase (assignment byReference phrase r) := by
  have htarget : r.MayYield (if byReference then expression r else assignable r) := by
    split
    · exact expression_regular r
    · exact assignable_regular r
  unfold assignment
  generalize (if byReference then expression r else assignable r) = outcome at htarget
  cases htarget with
  | none => exact markRest_completes phrase (by cases byReference <;> rfl) r
  | @found target behind htarget =>
      have hvalue := assignedValue_regular byReference target behind
      refine Completes.after ?_ (.read .refl htarget.reads)
      dsimp only
      split
      · rename_i hend
        exact ⟨.finish (Grows.refl.complainAtEnd rfl (atEnd_iff.mp hend)), atEnd_iff.mp hend⟩
      · generalize assignedValue byReference target behind = outcome at hvalue
        cases hvalue with
        | none => exact markRest_completes _ (by decide) _
        | found hvalue => exact (finishLine_completes _ _).after (.read .refl hvalue.reads)

theorem labelDeclaration_completes (phrase : Phrase) (r : Reader) :
    r.Completes phrase (labelDeclaration phrase r) := by
  simp only [labelDeclaration]
  split
  · exact markRest_completes phrase (by decide) r
  · exact (finishLine_completes _ _).after (.read .refl (r.leafRun_reads .label rfl))

theorem jump_completes (takes : Bool) (phrase : Phrase) (r : Reader) :
    r.Completes phrase (jump takes phrase r) := by
  simp only [jump]
  split
  · exact markRest_completes phrase (by decide) r
  · have hreference : r.Reads Kind.isPart ((Phrase.begin .labelRef r).add (r.leafRun .label).1) _ :=
      reads_begin rfl (.read .refl (r.leafRun_reads .label rfl))
    exact (finishArguments_completes takes _ _).after (.read .refl hreference)

theorem sceneJump_completes (takes : Bool) (phrase : Phrase) (r : Reader) :
    r.Completes phrase (sceneJump takes phrase r) := by
  simp only [sceneJump]
  split
  · exact markRest_completes phrase (by decide) r
  · have hscene : r.Reads Kind.isPart _ _ := r.leafRun_reads .sceneRef rfl
    split
    · exact (finishArguments_completes takes _ _).after (.read .refl hscene)
    · have hlabel : (r.leafRun .sceneRef).2.Reads Kind.isPart _ _ := leafRun_reads _ .label rfl
      have hreference : r.Reads Kind.isPart (.around .labelRef _ [(r.leafRun .sceneRef).1]) _ :=
        hscene.around rfl
      exact (finishArguments_completes takes _ _).after (.read .refl (hreference.grow (.read .refl hlabel)))

theorem namesWithin_completes {budget : Nat} (hbudget : r.rest.length ≤ budget) (phrase : Phrase) :
    r.Completes phrase (namesWithin budget phrase r) := by
  induction budget generalizing phrase r with
  | zero => exact ⟨.finish .refl, List.eq_nil_of_length_eq_zero (Nat.le_zero.mp hbudget)⟩
  | succ budget ih =>
      have hname := variableName_regular r
      unfold namesWithin
      split
      · rename_i hend
        exact ⟨.finish .refl, atEnd_iff.mp hend⟩
      · rename_i hend
        have hlt := next_length_lt (fun hnil => hend (atEnd_iff.mpr hnil))
        generalize variableName r = outcome at hname
        cases hname with
        | none => exact markRest_completes phrase (by decide) r
        | found hname =>
            have hle := Nat.lt_of_le_of_lt hname.taken.length_le hlt
            exact (ih (Nat.le_of_lt_succ (Nat.lt_of_lt_of_le hle hbudget)) _).after (.read .refl hname.reads)

/-- A command of no particular form is of one of three kinds, by its class. -/
theorem plainCommand_completes (start : Nat) (name : String) (htrimmed : r.Trimmed) :
    r.Completes (.empty (CommandForm.plain.kind name) start) (plainCommand start name r) := by
  have hknown : ∀ kind, r.Completes (.empty kind start)
      (if Command.takesProse name then prose ((Phrase.empty kind start).finish r.next) (r.next.switch .text)
      else ((arguments ((Phrase.empty kind start).finish r.next) r.next).1.finish
        (arguments ((Phrase.empty kind start).finish r.next) r.next).2,
        (arguments ((Phrase.empty kind start).finish r.next) r.next).2)) := by
    intro kind
    have hbegun : (Phrase.empty kind start).Grows r ((Phrase.empty kind start).finish r.next) r.next :=
      .finish (.skip .refl r.reaches_next)
    split
    · exact (prose_completes _ _).after (.skip hbegun (.switch .refl .text))
    · have harguments := arguments_completes (r.reaches_next.trimmed htrimmed)
        ((Phrase.empty kind start).finish r.next)
      exact ⟨.finish (hbegun.trans harguments.grows), harguments.rest⟩
  simp only [plainCommand, CommandForm.kind]
  cases Command.classify name with
  | ordinary => exact hknown _
  | flow => exact hknown _
  | unknown => exact markRest_completes _ (by decide) r

/-- A command is of the kind that its name and its form say, and is read to the end of the line. -/
theorem commandNamed_completes (start : Nat) (context : Context) (htrimmed : r.Trimmed) :
    r.Completes (.empty ((CommandForm.ofName r.word).kind r.word) start)
      ((commandNamed start context r).1.phrase, (commandNamed start context r).2) := by
  have hnamed := r.reaches_next.trimmed htrimmed
  have hform {kind : Kind} {outcome : Phrase × Reader}
      (h : r.next.Completes ((Phrase.empty kind start).finish r.next) outcome) :
      r.Completes (.empty kind start) outcome := h.after (.finish (.skip .refl r.reaches_next))
  simp only [commandNamed]
  cases CommandForm.ofName r.word
  case declaration kind => exact hform (declaration_completes kind _ _)
  case assignment byReference => exact hform (assignment_completes byReference _ _)
  case random => exact hform (requireName_completes 2 _ _)
  case label => exact hform (labelDeclaration_completes _ _)
  case jump takes => exact hform (jump_completes takes _ _)
  case sceneJump takes => exact hform (sceneJump_completes takes _ _)
  case computedJump | value | condition => exact hform (requireExpressions_completes 1 _ _)
  case input bounded => exact hform (requireName_completes _ _ _)
  case parameters => exact hform (namesWithin_completes (Nat.le_succ _) _)
  case otherwise | sceneList => exact hform (finishLine_completes _ _)
  case choice fake => exact hform (arguments_completes hnamed _)
  case proseBlock => exact hform (arguments_completes hnamed _)
  case plain => exact plainCommand_completes start r.word htrimmed

/-- Just those commands have lines below them that are of a kind with a block. -/
theorem isSome_opens_commandNamed (start : Nat) (context : Context) (r : Reader) :
    (commandNamed start context r).1.opens.isSome = ((CommandForm.ofName r.word).kind r.word).opensBlock := by
  have hblock := opensBlock_standardCommand r.word
  simp only [commandNamed]
  cases hform : CommandForm.ofName r.word <;> rw [hform] at hblock
  case plain =>
    unfold CommandForm.kind
    cases Command.classify r.word with
    | ordinary => exact hblock.symm
    | flow => rfl
    | unknown => rfl
  case declaration | assignment | random | label | jump | sceneJump | computedJump | choice => rfl
  all_goals exact hblock.symm

/-! ### Statements -/

/-- The outcome of a rule for a whole line. Where it opens a block its kind says so, and behind the
name of a choice there is a place. -/
structure States (r : Reader) (outcome : Statement × Reader) : Prop where
  reads : r.Reads Kind.isContent outcome.1.phrase outcome.2
  rest : outcome.2.rest = []
  opens : outcome.1.opens.isSome = outcome.1.phrase.kind.opensBlock
  header : ∀ fake, outcome.1.phrase.kind = .choiceCommand fake →
    r.Site (outcome.1.phrase.start + ((outcome.1.phrase.kind.commandName?.map (·.utf8ByteSize)).getD 0 + 1))

theorem Completes.states {kind : Kind} {outcome : Phrase × Reader}
    (h : r.Completes (.begin kind r) outcome) (hkind : kind.isContent = true) (opens : Option Context)
    (hopens : opens.isSome = kind.opensBlock) (hheader : ∀ fake, kind ≠ .choiceCommand fake) :
    r.States (⟨outcome.1, opens⟩, outcome.2) where
  reads := reads_begin hkind h.grows
  rest := h.rest
  opens := by
    rw [h.grows.kind_eq]
    exact hopens
  header fake hchoice := by
    rw [h.grows.kind_eq] at hchoice
    exact absurd hchoice (hheader fake)

theorem bytes_text_of_choice {fake : Bool} (hform : CommandForm.ofName r.word = .choice fake) :
    Text.bytes r.text = ((Kind.choiceCommand fake).commandName?.map (·.utf8ByteSize)).getD 0 := by
  have htext : r.text = r.word.toList := String.toList_ofList.symm
  rw [htext]
  unfold CommandForm.ofName at hform
  split at hform <;> cases hform
  · rename_i hword
    rw [hword]
    rfl
  · rename_i hword
    rw [hword]
    rfl

/-- A command is what its form says. Behind the name of a choice there is a place, where the name follows the
asterisk directly, as it does on every line that begins with a command. -/
theorem commandNamed_states (context : Context) (htrimmed : r.Trimmed) (hname : r.next.offset = r.offset + 1) :
    r.States (commandNamed r.offset context r.next) := by
  have hcompletes := (commandNamed_completes r.offset context (r.reaches_next.trimmed htrimmed)).after
    (.skip .refl r.reaches_next)
  have hgrows : (Phrase.begin ((CommandForm.ofName r.next.word).kind r.next.word) r).Grows r _ _ := hcompletes.grows
  have hkind := hgrows.kind_eq
  refine ⟨reads_begin (CommandForm.isContent_kind _ _) hgrows, hcompletes.rest, ?_, ?_⟩
  · rw [hkind]
    exact isSome_opens_commandNamed r.offset context r.next
  · intro fake hchoice
    have hform : CommandForm.ofName r.next.word = .choice fake :=
      CommandForm.eq_choice_of_kind (hkind.symm.trans hchoice)
    have hend := r.reaches_next.ahead r.next.ahead_textEnd
    rw [bytes_text_of_choice hform, hname, Nat.add_assoc, Nat.add_comm 1] at hend
    rw [hchoice, hgrows.start_eq rfl]
    exact .inr hend

/-! ### Options -/

theorem optionText_completes (option : Phrase) (r : Reader) : r.Completes option (optionText option r) :=
  (prose_completes option _).after (.skip .refl ((r.reaches_accept .hash).switch .text))

/-- A modifier begins where the reader is. -/
structure AtModifier (r : Reader) : Prop where
  asterisk : r.sees .asterisk = true
  name : r.next.sees .ident = true
  modifier : Command.isOptionModifier r.next.word = true

/-- What is read as a modifier: its name, and a condition behind the name if there is one. -/
inductive ReadsModifier (r : Reader) : Phrase → Reader → Prop
  | alone : r.ReadsModifier ((Phrase.empty (.standardCommand r.next.word) r.offset).finish r.next.next) r.next.next
  | conditional {condition : Phrase} {behind : Reader}
      (hcondition : expression r.next.next = (some condition, behind)) :
      r.ReadsModifier (((Phrase.empty (.standardCommand r.next.word) r.offset).finish r.next.next).add condition)
        behind

/-- What holds before the modifiers and is kept by each of them holds behind them. -/
theorem modifiersWithin_induction {motive : List Phrase → Reader → Prop} {budget : Nat} {found modifiers : Modifiers}
    (hread : modifiersWithin budget found r = some (modifiers, behind)) (hfirst : motive found.phrases r)
    (hstep : ∀ {place further : Reader} {phrases : List Phrase} {phrase : Phrase}, place.AtModifier →
      place.ReadsModifier phrase further → motive phrases place → motive (phrases ++ [phrase]) further) :
    motive modifiers.phrases behind := by
  induction budget generalizing found r with
  | zero =>
      cases hread
      exact hfirst
  | succ budget ih =>
      unfold modifiersWithin at hread
      dsimp only at hread
      split at hread
      · rename_i hasterisk
        split at hread
        · rename_i hname
          obtain ⟨hname, hmodifier⟩ := Bool.and_eq_true_iff.mp hname
          have hat : r.AtModifier := ⟨hasterisk, hname, hmodifier⟩
          split at hread
          · exact ih hread (hstep hat .alone hfirst)
          · split at hread
            · cases hread
            · rename_i hcondition
              exact ih hread (hstep hat (.conditional hcondition) hfirst)
        · cases hread
      · cases hread
        exact hfirst

theorem ReadsModifier.grows (h : r.ReadsModifier phrase behind) :
    (Phrase.begin (.standardCommand r.next.word) r).Grows r phrase behind := by
  have hnamed : (Phrase.begin (.standardCommand r.next.word) r).Grows r _ r.next.next :=
    .finish (.skip .refl (r.reaches_next.trans r.next.reaches_next))
  cases h with
  | alone => exact hnamed
  | conditional hcondition =>
      have hregular := expression_regular r.next.next
      rw [hcondition] at hregular
      cases hregular with
      | found hyields => exact .read hnamed hyields.reads

/-- The modifiers are read one after the other, whatever they are to be parts of. -/
theorem modifiersWithin_grows {budget : Nat} {found modifiers : Modifiers} {option : Phrase}
    {start : Reader} (hfound : option.Grows start (option.addAll found.phrases) r)
    (hread : modifiersWithin budget found r = some (modifiers, behind)) :
    option.Grows start (option.addAll modifiers.phrases) behind := by
  refine modifiersWithin_induction (motive := fun phrases place => option.Grows start (option.addAll phrases) place)
    hread hfound fun {place further _ phrase} _ hmodifier hgrows => ?_
  have hphrase : place.Reads Kind.isPart phrase further := reads_begin rfl hmodifier.grows
  rw [Phrase.addAll_append, Phrase.addAll_singleton]
  exact hgrows.read hphrase

theorem site_hash (hhash : r.sees .hash = true) : r.Site (r.offset + 1) := by
  have hend := r.ahead_textEnd
  unfold text at hend
  unfold sees kind? at hhash
  cases hlexeme : r.lexeme? with
  | none =>
      rw [hlexeme] at hhash
      cases hhash
  | some lexeme =>
      rw [hlexeme] at hhash hend
      obtain ⟨found, hfound, rfl⟩ := Option.map_eq_some_iff.mp hlexeme
      have hkind : found.1.kind = .hash := Option.some.inj (eq_of_beq hhash)
      have htext : found.1.text = ['#'] := Lexeme.text_eq_hash hfound hkind
      simp only [Option.map_some, Option.getD_some, htext] at hend
      exact .inr hend

/-- Modifiers either lead to an option or are read as if nothing had been tried. -/
theorem modifiedOption_cases (context : Context) (r : Reader) :
    (∃ option behind, modifiedOption context r = (some option, behind) ∧ r.States (option, behind)) ∨
      modifiedOption context r = (none, r) := by
  simp only [modifiedOption]
  split
  · exact .inr rfl
  · rename_i found before hread
    have hfound : (Phrase.begin (.choiceOption found.reuse found.conditional) r).Grows r _ _ :=
      modifiersWithin_grows .refl hread
    split
    · rename_i hhash
      have htext : r.Completes (.begin (.choiceOption found.reuse found.conditional) r) _ :=
        (optionText_completes _ before).after (.settle hfound)
      refine .inl ⟨_, _, rfl, ?_⟩
      split
      · exact htext.states rfl (some .body) rfl nofun
      · have hflagged := htext.flag (by decide : Rule.optionOutsideChoice.IsError)
          (hfound.reaches.ahead before.ahead_offset) (hfound.reaches.site (site_hash hhash)) rfl
        exact hflagged.states rfl (some .body) rfl nofun
    · exact .inr rfl

/-! ### The content of a line -/

theorem textLine_states (r : Reader) : r.States (textLine r) :=
  (prose_completes _ r).states rfl none rfl nofun

theorem sceneListEntry_states (r : Reader) : r.States (sceneListEntry r) := by
  have haccept := r.reaches_accept .dollar
  simp only [sceneListEntry]
  split
  · exact ((markRest_completes (.begin .sceneRef r) (by decide) _).after (.skip .refl haccept)).states rfl none rfl nofun
  · have hscene : (r.accept .dollar).2.Reads Kind.isContent _ _ := leafRun_reads _ .sceneRef rfl
    have hfinish := finishLine_completes ((r.accept .dollar).2.leafRun .sceneRef).1
      ((r.accept .dollar).2.leafRun .sceneRef).2
    have hkind := hfinish.grows.kind_eq
    refine ⟨(hscene.grow hfinish.grows).after haccept, hfinish.rest, ?_, ?_⟩
    · exact (congrArg Kind.opensBlock hkind).symm
    · exact fun fake hchoice => nomatch hkind.symm.trans hchoice

theorem commentLine_states (r : Reader) : r.States (commentLine r) := by
  have hreach : r.Reaches (r.advance r.rest []) := .advance .refl (List.append_nil _).symm
  exact ⟨reads_begin rfl (.finish (.skip .refl hreach)), rfl, rfl, nofun⟩

/-- An issue from the start of what was read to the end of what was taken last. -/
theorem Reads.flagTaken {kinds : Kind → Bool} (h : r.Reads kinds phrase behind) {rule : Rule}
    (hrule : rule.IsError) :
    r.Reads kinds (phrase.flag rule phrase.start (behind.lastEnd - phrase.start)) behind := by
  obtain ⟨kind, begun, hkind, hbegun, hread⟩ := h
  have hstart := hread.start_eq rfl
  have hle := hread.reaches.offset_le
  refine ⟨kind, begun, hkind, hbegun, .flag hread ?_ ?_ (.inl hrule) ?_⟩
  · rw [hstart]
    exact begun.ahead_offset
  · rw [hstart]
    exact Phrase.site_between (.inr begun.ahead_offset) hread.reaches.site_lastEnd
  · omega

theorem checkChoice_states (context : Context) {outcome : Statement × Reader} (h : r.States outcome) :
    r.States (checkChoice context outcome.1 outcome.2, outcome.2) := by
  simp only [checkChoice]
  split
  · refine ⟨h.reads.flagTaken rfl, h.rest, h.opens, ?_⟩
    intro fake hkind
    rw [Phrase.flag_kind, Phrase.flag_start, Nat.min_self]
    exact h.header fake hkind
  · exact h

/-- A line that begins with a command has an asterisk before its name. -/
theorem first?_of_command {line : Line} (htype : line.type = .command) :
    ∃ c more, Text.isBlank c = false ∧
      Lexeme.first? (ofLine line).mode (ofLine line).rest = some (⟨.asterisk, ['*']⟩, c :: more) := by
  obtain ⟨c, more, hcontent, hc⟩ := LineType.eq_of_ofContent_command htype
  have hmode : (ofLine line).mode = .command := by
    show Mode.ofLineType line.type = .command
    rw [htype]
    rfl
  have hrest : (ofLine line).rest = '*' :: c :: more := hcontent
  refine ⟨c, more, Text.isBlank_of_isAlphabetic hc, ?_⟩
  rw [hmode, hrest]
  exact Lexeme.first?_of_longestOf .command (Pattern.longestOf_asterisk _)

/-- A line that begins with a command has the name right behind the asterisk. -/
theorem next_offset_of_command {line : Line} (htype : line.type = .command) :
    (ofLine line).next.offset = (ofLine line).offset + 1 := by
  obtain ⟨c, more, hblank, hfirst⟩ := first?_of_command htype
  unfold next
  rw [hfirst]
  show _ + Text.bytes ['*'] + (List.takeWhile Text.isBlank (c :: more)).length = _
  rw [List.takeWhile_cons, hblank]
  rfl

theorem command_states {line : Line} (context : Context) (htype : line.type = .command)
    (htrimmed : (ofLine line).Trimmed) : (ofLine line).States (command context (ofLine line)) := by
  unfold command
  rcases modifiedOption_cases context (ofLine line) with ⟨option, behind, hfound, hoption⟩ | hnone
  · rw [hfound]
    exact hoption
  · rw [hnone]
    exact commandNamed_states context htrimmed (next_offset_of_command htype)

theorem plainOption_completes (r : Reader) :
    r.Completes (.begin (.choiceOption none false) r) ((plainOption r).1.phrase, (plainOption r).2) :=
  optionText_completes _ r

/-- An option on a line of its own, which is marked where no choice is. -/
theorem plainOption_flagged {line : Line} (htype : line.type = .option) {rule : Rule}
    (hrule : rule.IsError) :
    (ofLine line).States ({ (plainOption (ofLine line)).1 with
      phrase := (plainOption (ofLine line)).1.phrase.flag rule (plainOption (ofLine line)).1.phrase.start 1 },
      (plainOption (ofLine line)).2) := by
  obtain ⟨more, hcontent⟩ := LineType.eq_of_ofContent_option htype
  have hoption := (ofLine line).plainOption_completes
  have hflagged := hoption.flag hrule (ofLine line).ahead_offset (.inr ⟨['#'], more, hcontent, rfl⟩) rfl
  have hstart : (plainOption (ofLine line)).1.phrase.start = (ofLine line).offset := hoption.grows.start_eq rfl
  rw [hstart]
  exact hflagged.states rfl (some .body) rfl nofun

theorem contentLine_states {line : Line} (context : Context) (htrimmed : (ofLine line).Trimmed) :
    (ofLine line).States (contentLine context line.type (ofLine line)) := by
  unfold contentLine
  split
  · exact sceneListEntry_states _
  · exact textLine_states _
  · exact (plainOption_completes _).states rfl (some .body) rfl nofun
  · rename_i htype
    exact plainOption_flagged htype rfl
  · rename_i htype
    exact command_states _ htype htrimmed
  · exact textLine_states _

/-- Every line with content holds one statement, which ends with the line. -/
theorem statement_states {line : Line} (context : Context) (htrimmed : (ofLine line).Trimmed)
    {statement : Statement} {behind : Reader}
    (hfound : (ofLine line).statement context line.type = (some statement, behind)) :
    (ofLine line).States (statement, behind) := by
  simp only [Reader.statement] at hfound
  split at hfound
  · cases hfound
  · split at hfound
    · cases hfound
      exact commentLine_states _
    · cases hfound
      exact checkChoice_states context (contentLine_states context htrimmed)

theorem statement_none {context : Context} {type : LineType} {behind : Reader}
    (hfound : r.statement context type = (none, behind)) : r.rest = [] ∧ behind = r := by
  simp only [Reader.statement] at hfound
  split at hfound
  · rename_i hend
    cases hfound
    exact ⟨atEnd_iff.mp hend, rfl⟩
  · split at hfound <;> cases hfound

end Reader

end Gamebook
