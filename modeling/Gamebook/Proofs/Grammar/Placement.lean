import Gamebook.Proofs.Grammar.Genuine
import Gamebook.Proofs.Grammar.Words

/-!
Where statements belong. Whatever a line holds, it is marked as an option outside of a choice if it is one and
no choice is around it, and as something else than an option if it stands where a choice has its options;
nothing inside a statement is marked with either. Only a command that is not known is marked as such. Below a
statement a choice has its options if the statement is a choice, or a conditional among the options of a choice.
-/

namespace Gamebook

namespace Kind

def isChoice : Kind → Bool
  | .choiceCommand _ => true
  | _ => false

def isConditional : Kind → Bool
  | .standardCommand name => Command.isConditional name
  | _ => false

def isUnknown : Kind → Bool
  | .command _ => true
  | _ => false

/-- The rules that a statement of the kind can break, wherever it stands. -/
def breaks (kind : Kind) (rule : Rule) : Bool := rule.isLocal && (kind.isUnknown || rule != .unknownCommand)

theorem breaks_of_isTrailing (kind : Kind) (rule : Rule) (h : rule.isTrailing = true) : kind.breaks rule = true := by
  obtain ⟨hlocal, hother⟩ := Bool.and_eq_true_iff.mp h
  rw [breaks, hlocal, hother, Bool.or_true]
  rfl

theorem breaks_of_isInner (kind : Kind) (rule : Rule) (h : rule.isInner = true) : kind.breaks rule = true :=
  breaks_of_isTrailing kind rule (Rule.isTrailing_of_isInner h)

theorem isLocal_of_breaks {kind : Kind} {rule : Rule} (h : kind.breaks rule = true) : rule.isLocal = true :=
  (Bool.and_eq_true_iff.mp h).1

theorem isUnknown_of_breaks {kind : Kind} (h : kind.breaks .unknownCommand = true) : kind.isUnknown = true := by
  simpa [breaks, Rule.isLocal, Rule.isPlacement] using h

end Kind

theorem Reader.belongsInChoice_eq (kind : Kind) :
    belongsInChoice kind = (kind.isOption || kind.isConditional || kind == .comment) := by
  cases kind <;> simp [belongsInChoice, Kind.isOption, Kind.isConditional]

def CommandForm.isConditional : CommandForm → Bool
  | condition | otherwise => true
  | _ => false

theorem CommandForm.kind_plain (name : String) (form : CommandForm) :
    (form.kind name).isOption = false ∧ (form.kind name).isName = false := by
  cases form
  case plain =>
    unfold kind
    cases Command.classify name <;> exact ⟨rfl, rfl⟩
  all_goals exact ⟨rfl, rfl⟩

theorem isConditional_standardCommand (name : String) :
    (Kind.standardCommand name).isConditional = (CommandForm.ofName name).isConditional := by
  show Command.conditionals.contains name = _
  by_cases hname : name ∈ Command.conditionals
  · rw [List.contains_iff_mem.mpr hname]
    simp only [Command.conditionals, List.mem_cons, List.not_mem_nil, or_false] at hname
    rcases hname with rfl | rfl | rfl | rfl <;> rfl
  · rw [Bool.eq_false_iff.mpr (fun h => hname (List.contains_iff_mem.mp h))]
    unfold CommandForm.ofName
    split <;> first
      | rfl
      | exact absurd (by decide) hname

namespace Reader

open Phrase (Genuine Gains gains_add gains_reach gains_finish gains_flag genuine_leaf)

variable {r behind : Reader} {phrase : Phrase}

theorem finishLine_gains : Gaining Rule.isTrailing Phrase.finishLine := by
  intro phrase r
  unfold Phrase.finishLine
  split
  · exact gains_finish _
  · exact (gains_flag rfl _ _).trans (gains_finish _)

theorem markRest_gains {rule : Rule} (hrule : rule.isTrailing = true) (phrase : Phrase) (r : Reader) :
    phrase.Gains Rule.isTrailing r (phrase.markRest rule r).1 :=
  (gains_flag hrule _ _).trans (gains_finish _)

/-! ### Arguments -/

theorem argument_genuine (r : Reader) : r.argument.1.Genuine r := by
  unfold argument
  split
  · exact stringValue_genuine r
  · have hname : (argumentKind r.run).isName = false := by
      unfold argumentKind
      split
      · rfl
      · split <;> rfl
    exact (gains_reach _ : (Phrase.empty _ r.offset).Gains Rule.isInner r _).genuine hname

theorem argumentsWithin_gaining (budget : Nat) : Gaining Rule.isTrailing (argumentsWithin budget) := by
  induction budget with
  | zero => exact fun _ _ => .refl _ _ _
  | succ budget ih =>
      intro phrase r
      simp only [argumentsWithin]
      split
      · exact .refl _ _ _
      · exact (gains_add r.argument_genuine).trans ((ih _ _).after r.argument_reads.reaches)

theorem expressionsWithin_gaining (budget : Nat) : Gaining Rule.isTrailing (expressionsWithin budget) := by
  induction budget with
  | zero => exact fun _ _ => .refl _ _ _
  | succ budget ih =>
      intro phrase r
      have hvalue := expression_genuinely r
      have hreaches := (expression_regular r).reaches
      unfold expressionsWithin
      split
      · exact .refl _ _ _
      · generalize expression r = outcome at hvalue hreaches
        obtain ⟨found, behind⟩ := outcome
        cases found with
        | none => exact (finishLine_gains phrase behind).after hreaches
        | some value => exact (gains_add (hvalue value rfl)).trans ((ih _ _).after hreaches)

theorem finishArguments_gaining (takes : Bool) : Gaining Rule.isTrailing (finishArguments takes) := by
  intro phrase r
  cases takes with
  | false => exact finishLine_gains phrase r
  | true =>
      exact (expressionsWithin_gaining r.budget phrase r).trans
        ((finishLine_gains _ _).after (expressionsWithin_extends r.budget phrase r).reaches)

theorem requireExpressions_gaining (count : Nat) : Gaining Rule.isTrailing (requireExpressions count) := by
  induction count with
  | zero => exact finishLine_gains
  | succ count ih =>
      intro phrase r
      have hvalue := expression_genuinely r
      have hreaches := (expression_regular r).reaches
      unfold requireExpressions
      generalize expression r = outcome at hvalue hreaches
      obtain ⟨found, behind⟩ := outcome
      cases found with
      | none => exact (markRest_gains rfl phrase behind).after hreaches
      | some value => exact (gains_add (hvalue value rfl)).trans ((ih _ _).after hreaches)

/-! ### The forms of commands -/

theorem requireName_gaining (expressions : Nat) : Gaining Rule.isTrailing (requireName expressions) := by
  intro phrase r
  have hname := variableName_genuinely r
  have hreaches := (variableName_regular r).reaches
  unfold requireName
  generalize variableName r = outcome at hname hreaches
  obtain ⟨found, behind⟩ := outcome
  cases found with
  | none => exact (markRest_gains rfl phrase behind).after hreaches
  | some name => exact (gains_add (hname name rfl)).trans ((requireExpressions_gaining expressions _ _).after hreaches)

theorem declaration_gaining (kind : Declaration) : Gaining Rule.isTrailing (declaration kind) := by
  intro phrase r
  have hname := variableName_genuinely r
  have hreaches := (variableName_regular r).reaches
  unfold declaration
  generalize variableName r = outcome at hname hreaches
  obtain ⟨found, behind⟩ := outcome
  cases found with
  | none => exact (markRest_gains rfl phrase behind).after hreaches
  | some name =>
      have hvalue := expression_genuinely behind
      have hfurther := (expression_regular behind).reaches
      refine (gains_add (hname name rfl)).trans (Gains.after ?_ hreaches)
      dsimp only
      generalize expression behind = outcome at hvalue hfurther
      obtain ⟨found, further⟩ := outcome
      cases found with
      | none =>
          dsimp only
          split
          · exact (finishLine_gains _ further).after hfurther
          · exact (markRest_gains rfl _ further).after hfurther
      | some value => exact (gains_add (hvalue value rfl)).trans ((finishLine_gains _ further).after hfurther)

theorem assignedValue_genuinely (byReference : Bool) (target : Phrase) :
    Genuinely (assignedValue byReference target) := by
  intro r phrase hfound
  simp only [assignedValue] at hfound
  split at hfound
  · cases hfound
    exact assignedOperation_genuine target _ r
  · exact expression_genuinely r phrase hfound

theorem assignment_gaining (byReference : Bool) : Gaining Rule.isTrailing (assignment byReference) := by
  intro phrase r
  have htarget : ∀ target, (if byReference then expression r else assignable r).1 = some target →
      target.Genuine r := by
    split
    · exact expression_genuinely r
    · exact assignable_genuinely r
  have hreaches : r.Reaches (if byReference then expression r else assignable r).2 := by
    split
    · exact (expression_regular r).reaches
    · exact (assignable_regular r).reaches
  have hrule : (if byReference then Rule.expressionExpected else .variableNameExpected).isTrailing = true := by
    cases byReference <;> rfl
  unfold assignment
  generalize (if byReference then expression r else assignable r) = outcome at htarget hreaches
  obtain ⟨found, behind⟩ := outcome
  cases found with
  | none => exact (markRest_gains hrule phrase behind).after hreaches
  | some target =>
      have hvalue := assignedValue_genuinely byReference target behind
      have hfurther := (assignedValue_regular byReference target behind).reaches
      refine (gains_add (htarget target rfl)).trans (Gains.after ?_ hreaches)
      dsimp only
      split
      · exact (gains_flag rfl _ _).trans (gains_finish _)
      · generalize assignedValue byReference target behind = outcome at hvalue hfurther
        obtain ⟨found, further⟩ := outcome
        cases found with
        | none => exact (markRest_gains rfl _ further).after hfurther
        | some value => exact (gains_add (hvalue value rfl)).trans ((finishLine_gains _ further).after hfurther)

theorem namesWithin_gaining (budget : Nat) : Gaining Rule.isTrailing (namesWithin budget) := by
  induction budget with
  | zero => exact fun _ _ => gains_finish _
  | succ budget ih =>
      intro phrase r
      have hname := variableName_genuinely r
      have hreaches := (variableName_regular r).reaches
      unfold namesWithin
      split
      · exact gains_finish _
      · generalize variableName r = outcome at hname hreaches
        obtain ⟨found, behind⟩ := outcome
        cases found with
        | none => exact (markRest_gains rfl phrase behind).after hreaches
        | some name => exact (gains_add (hname name rfl)).trans ((ih _ _).after hreaches)

theorem leafRun_genuine {kind : Kind} (hkind : kind = .label ∨ kind = .sceneRef) (hend : ¬r.atEnd = true) :
    (r.leafRun kind).1.Genuine r :=
  .run hkind .refl fun hnil => hend (atEnd_iff.mpr hnil)

theorem labelDeclaration_gaining : Gaining Rule.isTrailing labelDeclaration := by
  intro phrase r
  simp only [labelDeclaration]
  split
  · exact markRest_gains rfl phrase r
  · rename_i hend
    exact (gains_add (leafRun_genuine (.inl rfl) hend)).trans ((finishLine_gains _ _).after r.reaches_nextRun)

theorem jump_gaining (takes : Bool) : Gaining Rule.isTrailing (jump takes) := by
  intro phrase r
  simp only [jump]
  split
  · exact markRest_gains rfl phrase r
  · rename_i hend
    have hreference : ((Phrase.begin .labelRef r).add (r.leafRun .label).1).Genuine r :=
      (gains_add (leafRun_genuine (.inl rfl) hend)).genuine rfl
    exact (gains_add hreference).trans ((finishArguments_gaining takes _ _).after r.reaches_nextRun)

theorem sceneJump_gaining (takes : Bool) : Gaining Rule.isTrailing (sceneJump takes) := by
  intro phrase r
  simp only [sceneJump]
  split
  · exact markRest_gains rfl phrase r
  · rename_i hend
    have hscene : (r.leafRun .sceneRef).1.Genuine r := leafRun_genuine (.inr rfl) hend
    split
    · exact (gains_add hscene).trans ((finishArguments_gaining takes _ _).after r.reaches_nextRun)
    · rename_i hlabelled
      have hlabel : (r.nextRun.leafRun .label).1.Genuine r :=
        (leafRun_genuine (.inl rfl) hlabelled).after r.reaches_nextRun
      have hwrapped : (Phrase.around .labelRef (r.leafRun .sceneRef).1.start [(r.leafRun .sceneRef).1]).Genuine r :=
        hscene.around rfl _
      have hreference := hwrapped.gain rfl (gains_add hlabel)
      exact (gains_add hreference).trans ((finishArguments_gaining takes _ _).after
        (r.reaches_nextRun.trans (reaches_nextRun _)))

/-- A command of no particular form goes on behind its name if it is known, and is marked if it is not. -/
theorem plainCommand_gains (start : Nat) (name : String) (r : Reader) :
    (Phrase.empty (CommandForm.plain.kind name) start).Gains (CommandForm.plain.kind name).breaks r
      (plainCommand start name r).1 := by
  have hknown : ∀ kind : Kind, (Phrase.empty kind start).Gains kind.breaks r
      (if Command.takesProse name then prose ((Phrase.empty kind start).finish r.next) (r.next.switch .text)
      else ((arguments ((Phrase.empty kind start).finish r.next) r.next).1.finish
        (arguments ((Phrase.empty kind start).finish r.next) r.next).2,
        (arguments ((Phrase.empty kind start).finish r.next) r.next).2)).1 := by
    intro kind
    refine (gains_finish r.next).trans ?_
    split
    · exact ((prose_gaining _ _).loosen kind.breaks_of_isInner).after (r.reaches_next.switch .text)
    · exact (((argumentsWithin_gaining _ _ _).loosen kind.breaks_of_isTrailing).after r.reaches_next).trans
        (gains_finish _)
  simp only [plainCommand, CommandForm.kind]
  cases Command.classify name with
  | ordinary => exact hknown _
  | flow => exact hknown _
  | unknown => exact (gains_flag rfl _ _).trans (gains_finish _)

/-- A command goes on behind its name with what its form takes. -/
theorem commandNamed_gains (start : Nat) (context : Context) (r : Reader) :
    (Phrase.empty ((CommandForm.ofName r.word).kind r.word) start).Gains
      ((CommandForm.ofName r.word).kind r.word).breaks r (commandNamed start context r).1.phrase := by
  have hform {kind : Kind} {grown : Phrase}
      (h : ((Phrase.empty kind start).finish r.next).Gains Rule.isTrailing r.next grown) :
      (Phrase.empty kind start).Gains kind.breaks r grown :=
    (gains_finish r.next).trans ((h.loosen kind.breaks_of_isTrailing).after r.reaches_next)
  simp only [commandNamed]
  cases CommandForm.ofName r.word
  case declaration kind => exact hform (declaration_gaining kind _ _)
  case assignment byReference => exact hform (assignment_gaining byReference _ _)
  case random => exact hform (requireName_gaining 2 _ _)
  case label => exact hform (labelDeclaration_gaining _ _)
  case jump takes => exact hform (jump_gaining takes _ _)
  case sceneJump takes => exact hform (sceneJump_gaining takes _ _)
  case computedJump | value | condition => exact hform (requireExpressions_gaining 1 _ _)
  case input bounded => exact hform (requireName_gaining _ _ _)
  case parameters => exact hform (namesWithin_gaining _ _ _)
  case otherwise | sceneList => exact hform (finishLine_gains _ _)
  case choice fake => exact hform (argumentsWithin_gaining _ _ _)
  case proseBlock => exact hform (argumentsWithin_gaining _ _ _)
  case plain => exact plainCommand_gains start r.word r

/-! ### Statements -/

/-- A statement that stands in the given context, apart from being checked against it. -/
structure Placed (context : Context) (site : Reader) (statement : Statement) : Prop where
  parts : ∀ part ∈ statement.phrase.parts, part.Genuine site
  issues : ∀ issue ∈ statement.phrase.issues,
    statement.phrase.kind.breaks issue.rule = true ∨ issue.rule = .optionOutsideChoice
  misplaced : (∃ issue ∈ statement.phrase.issues, issue.rule = .optionOutsideChoice) ↔
    statement.phrase.kind.isOption = true ∧ context ≠ .choice
  opens : ∀ inner ∈ statement.opens, inner = .choice ↔ statement.phrase.kind.isChoice = true ∨
    statement.phrase.kind.isConditional = true ∧ context = .choice
  name : statement.phrase.kind.isName = false ∨ context = .sceneList

variable {context : Context} {statement : Statement} {kind : Kind} {start : Nat}

/-- A statement that is no option, where nothing but what it holds was looked at. -/
theorem placed_of_gains (hgains : (Phrase.empty kind start).Gains kind.breaks r phrase)
    (hkind : kind.isOption = false) (hname : kind.isName = false ∨ context = .sceneList) {opens : Option Context}
    (hopens : ∀ inner ∈ opens, inner = .choice ↔ kind.isChoice = true ∨ kind.isConditional = true ∧ context = .choice) :
    Placed context r ⟨phrase, opens⟩ := by
  have hphrase : phrase.kind = kind := hgains.kind
  have hbroken : ∀ issue ∈ phrase.issues, kind.breaks issue.rule = true :=
    fun issue hissue => (hgains.issues issue hissue).resolve_left List.not_mem_nil
  refine ⟨fun part hpart => (hgains.parts part hpart).resolve_left List.not_mem_nil,
    fun issue hissue => .inl (hphrase ▸ hbroken issue hissue), ⟨?_, ?_⟩, by rwa [hphrase], by rwa [hphrase]⟩
  · rintro ⟨issue, hissue, hrule⟩
    have := Kind.isLocal_of_breaks (hbroken issue hissue)
    rw [hrule] at this
    cases this
  · rintro ⟨hoption, _⟩
    rw [hphrase, hkind] at hoption
    cases hoption

/-- The same, of a statement with no lines below it. -/
theorem placed_of_closed (hgains : (Phrase.empty kind start).Gains kind.breaks r phrase)
    (hkind : kind.isOption = false) (hname : kind.isName = false ∨ context = .sceneList) :
    Placed context r ⟨phrase, none⟩ :=
  placed_of_gains hgains hkind hname fun _ hinner => absurd hinner (Option.not_mem_none _)

/-- An option, marked where no choice is around it. -/
theorem placed_option {option : Phrase} {reuse : Option Reuse} {conditional : Bool} {offset length : Nat}
    (hgains : option.Gains Rule.isInner r phrase) (hkind : option.kind = .choiceOption reuse conditional)
    (hissues : option.issues = []) (hparts : ∀ part ∈ option.parts, part.Genuine r) :
    Placed context r ⟨if context = .choice then phrase else phrase.flag .optionOutsideChoice offset length,
      some .body⟩ := by
  have hphrase := hgains.kind.trans hkind
  have hinner : ∀ issue ∈ phrase.issues, issue.rule.isInner = true := by
    intro issue hissue
    rcases hgains.issues issue hissue with hold | hnew
    · rw [hissues] at hold
      cases hold
    · exact hnew
  have hbroken : ∀ issue ∈ phrase.issues, phrase.kind.breaks issue.rule = true :=
    fun issue hissue => Kind.breaks_of_isInner _ _ (hinner issue hissue)
  have hgenuine : ∀ part ∈ phrase.parts, part.Genuine r :=
    fun part hpart => (hgains.parts part hpart).elim (hparts part) id
  have hopens : ∀ inner ∈ some Context.body, inner = .choice ↔
      phrase.kind.isChoice = true ∨ phrase.kind.isConditional = true ∧ context = .choice := by
    rintro inner hinner
    cases hinner
    rw [hphrase]
    simp [Kind.isChoice, Kind.isConditional]
  have hname : phrase.kind.isName = false := by
    rw [hphrase]
    rfl
  by_cases hcontext : context = .choice
  · rw [if_pos hcontext]
    refine ⟨hgenuine, fun issue hissue => .inl (hbroken issue hissue), ⟨?_, fun h => absurd hcontext h.2⟩, hopens,
      .inl hname⟩
    rintro ⟨issue, hissue, hrule⟩
    have := hinner issue hissue
    rw [hrule] at this
    cases this
  · rw [if_neg hcontext]
    refine ⟨hgenuine, fun issue hissue => ?_, ⟨fun _ => ⟨by rw [Phrase.flag_kind, hphrase]; rfl, hcontext⟩,
      fun _ => Phrase.exists_issue_flag.mpr (.inr rfl)⟩, hopens, .inl hname⟩
    exact (Phrase.mem_issues_flag.mp hissue).imp (hbroken issue) fun hsame => by rw [hsame]

theorem below_eq_choice_iff (context : Context) : context.below = .choice ↔ context = .choice := by
  cases context <;> simp [Context.below]

/-- Below a command the lines are where a choice has its options if it is a choice, or goes on with one. -/
theorem commandNamed_opens (start : Nat) (context : Context) (r : Reader) :
    ∀ inner ∈ (commandNamed start context r).1.opens, inner = .choice ↔
      ((CommandForm.ofName r.word).kind r.word).isChoice = true ∨
        ((CommandForm.ofName r.word).kind r.word).isConditional = true ∧ context = .choice := by
  have hconditional := isConditional_standardCommand r.word
  simp only [commandNamed]
  cases hform : CommandForm.ofName r.word <;> rw [hform] at hconditional
  case condition | otherwise =>
    rintro _ ⟨⟩
    rw [below_eq_choice_iff, CommandForm.kind, hconditional]
    simp [Kind.isChoice, CommandForm.isConditional]
  case choice fake =>
    rintro _ ⟨⟩
    simp [CommandForm.kind, Kind.isChoice]
  case sceneList | proseBlock =>
    rintro _ ⟨⟩
    rw [CommandForm.kind, hconditional]
    simp [Kind.isChoice, CommandForm.isConditional]
  all_goals rintro _ ⟨⟩

/-- A command is what its form says. -/
theorem commandNamed_placed (context : Context) (start : Nat) (r : Reader) :
    Placed context r (commandNamed start context r).1 :=
  have hplain := CommandForm.kind_plain r.word (CommandForm.ofName r.word)
  placed_of_gains (commandNamed_gains start context r) hplain.1 (.inl hplain.2) (commandNamed_opens start context r)

/-! ### Options -/

theorem optionText_gains (option : Phrase) (r : Reader) : option.Gains Rule.isInner r (optionText option r).1 :=
  (prose_gaining _ _).after ((r.reaches_accept .hash).switch .text)

theorem plainOption_placed (context : Context) (r : Reader) (offset length : Nat) :
    Placed context r ⟨if context = .choice then (plainOption r).1.phrase
      else (plainOption r).1.phrase.flag .optionOutsideChoice offset length, some .body⟩ :=
  placed_option (optionText_gains (.begin (.choiceOption none false) r) r) rfl rfl fun _ hpart =>
    absurd hpart List.not_mem_nil

/-- The modifiers of an option stand inside it. -/
theorem modifiersWithin_genuine {budget : Nat} {found modifiers : Modifiers} {site : Reader} (hsite : site.Reaches r)
    (hfound : ∀ part ∈ found.phrases, part.Genuine site)
    (hread : modifiersWithin budget found r = some (modifiers, behind)) :
    (∀ part ∈ modifiers.phrases, part.Genuine site) ∧ site.Reaches behind := by
  refine modifiersWithin_induction (motive := fun phrases place => (∀ part ∈ phrases, part.Genuine site) ∧
    site.Reaches place) hread ⟨hfound, hsite⟩ fun {place _ _ _} _ hmodifier ⟨hphrases, hreach⟩ => ?_
  have hnamed := hreach.trans (place.reaches_next.trans place.next.reaches_next)
  have hphrase : ((Phrase.empty (.standardCommand place.next.word) place.offset).finish
      place.next.next).Genuine site := (gains_finish _).genuine rfl
  refine ⟨List.forall_mem_append.mpr ⟨hphrases, List.forall_mem_singleton.mpr ?_⟩,
    hreach.trans hmodifier.grows.reaches⟩
  cases hmodifier with
  | alone => exact hphrase
  | conditional hcondition =>
      have hgenuine := expression_genuinely place.next.next _ (by rw [hcondition])
      exact hphrase.gain rfl (gains_add (hgenuine.after hnamed))

theorem modifiedOption_placed {option : Statement} (hfound : modifiedOption context r = (some option, behind)) :
    Placed context r option := by
  simp only [modifiedOption] at hfound
  split at hfound
  · cases hfound
  · rename_i found before hread
    split at hfound
    · cases hfound
      obtain ⟨hparts, hreaches⟩ := modifiersWithin_genuine .refl (List.forall_mem_nil _) hread
      refine placed_option ((optionText_gains _ before).after hreaches) rfl rfl ?_
      intro part hpart
      rw [Phrase.around_eq_settled, Phrase.settled_parts, Phrase.addAll_parts] at hpart
      exact hparts part hpart
    · cases hfound

/-! ### The content of a line -/

theorem textLine_placed (context : Context) (r : Reader) : Placed context r (textLine r).1 :=
  placed_of_closed ((prose_gaining _ _).loosen (Kind.breaks_of_isInner _)) rfl (.inl rfl)

theorem sceneListEntry_placed (r : Reader) : Placed .sceneList r (sceneListEntry r).1 := by
  have haccept := r.reaches_accept .dollar
  simp only [sceneListEntry]
  split
  · exact placed_of_closed (((markRest_gains rfl (.empty .sceneRef r.offset) _).after haccept).loosen
      (Kind.breaks_of_isTrailing _)) rfl (.inr rfl)
  · have hrun : (Phrase.empty .sceneRef (r.accept .dollar).2.offset).Gains Rule.isTrailing r
        ((r.accept .dollar).2.leafRun .sceneRef).1 := gains_reach _
    exact placed_of_closed ((hrun.trans ((finishLine_gains _ _).after (haccept.trans (reaches_nextRun _)))).loosen
      (Kind.breaks_of_isTrailing _)) rfl (.inr rfl)

theorem command_placed (context : Context) (r : Reader) : Placed context r (command context r).1 := by
  have hoption := fun option behind => @modifiedOption_placed r behind context option
  unfold command
  rcases modifiedOption_cases context r with ⟨option, behind, hfound, _⟩ | hnone
  · rw [hfound]
    exact hoption option behind hfound
  · rw [hnone]
    have hplaced := commandNamed_placed context r.offset r.next
    exact { hplaced with parts := fun part hpart => (hplaced.parts part hpart).after r.reaches_next }

theorem contentLine_placed (context : Context) (type : LineType) (r : Reader) :
    Placed context r (contentLine context type r).1 := by
  unfold contentLine
  split
  · exact sceneListEntry_placed r
  · exact textLine_placed _ r
  · exact plainOption_placed .choice r 0 0
  · rename_i hlist hprose hchoice
    have hplaced := plainOption_placed context r (plainOption r).1.phrase.start 1
    rwa [if_neg fun hsame => hchoice hsame] at hplaced
  · exact command_placed context r
  · exact textLine_placed context r

/-- A statement where it stands: its parts, what is marked on it, and what the lines below it are. -/
structure Fitted (context : Context) (site : Reader) (statement : Statement) : Prop where
  parts : ∀ part ∈ statement.phrase.parts, part.Genuine site
  issues : ∀ issue ∈ statement.phrase.issues, issue.rule ≠ .noChoiceOptions
  unknown : ∀ issue ∈ statement.phrase.issues, issue.rule = .unknownCommand → statement.phrase.kind.isUnknown = true
  misplaced : (∃ issue ∈ statement.phrase.issues, issue.rule = .optionOutsideChoice) ↔
    statement.phrase.kind.isOption = true ∧ context ≠ .choice
  unfit : (∃ issue ∈ statement.phrase.issues, issue.rule = .choiceOptionExpected) ↔
    context = .choice ∧ belongsInChoice statement.phrase.kind = false
  opens : ∀ inner ∈ statement.opens, inner = .choice ↔ statement.phrase.kind.isChoice = true ∨
    statement.phrase.kind.isConditional = true ∧ context = .choice
  name : statement.phrase.kind.isName = false ∨ context = .sceneList

theorem Placed.fitted (h : Placed context r statement) (behind : Reader) :
    Fitted context r (checkChoice context statement behind) := by
  have hissues : ∀ issue ∈ statement.phrase.issues, issue.rule ≠ .noChoiceOptions ∧
      issue.rule ≠ .choiceOptionExpected := by
    intro issue hissue
    rcases h.issues issue hissue with hbroken | hrule
    · have hlocal := Kind.isLocal_of_breaks hbroken
      constructor <;>
      · rintro hrule
        rw [hrule] at hlocal
        cases hlocal
    · rw [hrule]
      decide
  have hunknown : ∀ issue ∈ statement.phrase.issues, issue.rule = .unknownCommand →
      statement.phrase.kind.isUnknown = true := by
    intro issue hissue hrule
    rcases h.issues issue hissue with hbroken | hother
    · exact Kind.isUnknown_of_breaks (hrule ▸ hbroken)
    · cases hrule.symm.trans hother
  unfold checkChoice
  dsimp only
  split
  · rename_i hunfit
    obtain ⟨hcontext, hkind⟩ := Bool.and_eq_true_iff.mp hunfit
    have hcontext : context = .choice := of_decide_eq_true hcontext
    have hkind : belongsInChoice statement.phrase.kind = false := by simpa using hkind
    have hmisplaced : (∃ issue ∈ statement.phrase.issues, issue.rule = .optionOutsideChoice) ∨
        Rule.choiceOptionExpected = .optionOutsideChoice ↔
        ∃ issue ∈ statement.phrase.issues, issue.rule = .optionOutsideChoice := or_iff_left nofun
    refine ⟨h.parts, fun issue hissue => ?_, fun issue hissue hrule => ?_,
      Phrase.exists_issue_flag.trans (hmisplaced.trans h.misplaced),
      ⟨fun _ => ⟨hcontext, hkind⟩, fun _ => Phrase.exists_issue_flag.mpr (.inr rfl)⟩, h.opens, h.name⟩
    · rcases Phrase.mem_issues_flag.mp hissue with hissue | rfl
      · exact (hissues issue hissue).1
      · rintro ⟨⟩
    · rcases Phrase.mem_issues_flag.mp hissue with hissue | rfl
      · exact hunknown issue hissue hrule
      · cases hrule
  · rename_i hfit
    refine ⟨h.parts, fun issue hissue => (hissues issue hissue).1, hunknown, h.misplaced, ⟨?_, ?_⟩, h.opens, h.name⟩
    · rintro ⟨issue, hissue, hrule⟩
      exact absurd hrule (hissues issue hissue).2
    · rintro ⟨hcontext, hkind⟩
      exact absurd (by rw [hcontext, hkind]; rfl) hfit

/-- Every line with content holds a statement that is marked by where it stands. -/
theorem statement_fitted (context : Context) (type : LineType) (r : Reader)
    (hfound : (r.statement context type).1 = some statement) : Fitted context r statement := by
  simp only [Reader.statement] at hfound
  split at hfound
  · cases hfound
  · split at hfound
    · cases hfound
      have hcomment : Placed context r (commentLine r).1 := placed_of_closed (gains_finish _) rfl (.inl rfl)
      have hfitted := hcomment.fitted r
      rwa [checkChoice, if_neg (by simp [commentLine, Phrase.begin, Phrase.finish, Phrase.reach, Phrase.grow,
        Phrase.empty, belongsInChoice])] at hfitted
    · cases hfound
      exact (contentLine_placed context type r).fitted _

end Reader

end Gamebook
