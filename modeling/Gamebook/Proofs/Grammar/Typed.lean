import Gamebook.Proofs.Grammar.Prose
import Gamebook.Proofs.Grammar.Types
import Gamebook.Proofs.Scene.Lines

/-!
The types of a scene. Prose, statements and lines have no types themselves; they carry expressions, each of
which has the type that its parts determine. Only the value of an assignment is read against another part, the
variable in front of it.
-/

namespace Gamebook

namespace Reader

open Phrase (Carrier carrier_empty carrier_leaf carrier_leafRun)

variable {r : Reader} {phrase : Phrase}

/-! ### Prose -/

/-- The rule leaves a phrase without a type of its own, and adds what has its types. -/
def Carries (rule : Phrase → Reader → Phrase × Reader) : Prop :=
  ∀ (phrase : Phrase) (r : Reader), phrase.Carrier → (rule phrase r).1.Carrier

theorem closeBrace_carries : Carries closeBrace := by
  intro phrase r hphrase
  simp only [closeBrace]
  split
  · exact hphrase.finish _
  · exact (hphrase.complain _ _).finish _

theorem replacement_types : Types replacement := by
  intro r phrase hphrase
  simp only [replacement] at hphrase
  split at hphrase
  · cases hphrase
  · split at hphrase
    · cases hphrase
      have hvalue := expression_values.types ((bangs r.rest.length r.next).2.next.switch .command)
      exact (closeBrace_carries _ _ ((carrier_empty rfl _).addOr hvalue _ _)).typed
    · cases hphrase

theorem branches_carries {content : Phrase → Reader → Phrase × Reader} (hcontent : Carries content) (budget : Nat)
    (hphrase : phrase.Carrier) : (branches content budget phrase r).2.1.Carrier := by
  induction budget generalizing phrase r with
  | zero => exact hphrase
  | succ budget ih =>
      have hbranch := hcontent (.begin .multiReplaceOption r) r (carrier_empty rfl _)
      have hadded := hphrase.add (hbranch.finish (content (.begin .multiReplaceOption r) r).2).typed
      simp only [branches]
      split
      · exact ih hadded
      · exact hadded

theorem multireplace_types {content : Phrase → Reader → Phrase × Reader} (hcontent : Carries content)
    (budget : Nat) : Types (multireplace budget content) := by
  intro r phrase hphrase
  simp only [multireplace] at hphrase
  split at hphrase
  · cases hphrase
    have hselector := term_values.types (r.next.next.switch .command)
    have hbegun : (Phrase.begin .multiReplace r).Carrier := carrier_empty rfl _
    have hbranches := branches_carries (r := (term (r.next.next.switch .command)).2.switch .text) hcontent budget
      (hbegun.addOr hselector .expressionExpected (term (r.next.next.switch .command)).2)
    refine (closeBrace_carries _ _ ?_).typed
    split
    · exact hbranches.flag _ _ _
    · exact hbranches
  · cases hphrase

theorem prosePart_types {budget : Nat} (hprose : Carries (proseWithin budget endsBranch)) (kind : TokenKind) :
    Types (prosePart budget kind) := by
  intro r phrase hphrase
  unfold prosePart at hphrase
  split at hphrase
  · cases hphrase
    exact (carrier_leaf rfl r).typed
  · exact replacement_types r phrase hphrase
  · exact multireplace_types hprose budget r phrase hphrase
  · cases hphrase

theorem proseWithin_carries (budget : Nat) (ends : TokenKind → Bool) : Carries (proseWithin budget ends) := by
  induction budget generalizing ends with
  | zero => exact fun _ _ hphrase => hphrase
  | succ budget ih =>
      intro phrase r hphrase
      rw [proseWithin_succ]
      split
      · exact hphrase
      · rename_i kind _
        split
        · exact hphrase
        · have hpart := prosePart_types (ih endsBranch) kind r
          generalize prosePart budget kind r = outcome at hpart
          obtain ⟨found, behind⟩ := outcome
          cases found with
          | none => exact ih ends _ _ hphrase
          | some part => exact ih ends _ _ (hphrase.add (hpart part rfl))

theorem prose_carries : Carries prose := fun phrase r hphrase =>
  (proseWithin_carries r.budget (fun _ => false) phrase r hphrase).finish _

/-! ### The forms of commands -/

theorem argument_carrier (r : Reader) : r.argument.1.Carrier := by
  unfold argument
  split
  · exact r.stringValue_carrier.1
  · refine carrier_leafRun ?_ r
    unfold argumentKind
    split
    · rfl
    · split <;> rfl

theorem argumentsWithin_carries (budget : Nat) : Carries (argumentsWithin budget) := by
  induction budget with
  | zero => exact fun _ _ hphrase => hphrase
  | succ budget ih =>
      intro phrase r hphrase
      simp only [argumentsWithin]
      split
      · exact hphrase
      · exact ih _ _ (hphrase.add r.argument_carrier.typed)

theorem expressionsWithin_carries (budget : Nat) : Carries (expressionsWithin budget) := by
  induction budget with
  | zero => exact fun _ _ hphrase => hphrase
  | succ budget ih =>
      intro phrase r hphrase
      have hvalue := expression_values.types r
      unfold expressionsWithin
      split
      · exact hphrase
      · generalize expression r = outcome at hvalue
        obtain ⟨found, behind⟩ := outcome
        cases found with
        | none => exact hphrase.finishLine behind
        | some value => exact ih _ _ (hphrase.add (hvalue value rfl))

theorem finishArguments_carries (takes : Bool) : Carries (finishArguments takes) := by
  intro phrase r hphrase
  have hread : (if takes then expressionsWithin r.budget phrase r else (phrase, r)).1.Carrier := by
    split
    · exact expressionsWithin_carries r.budget phrase r hphrase
    · exact hphrase
  exact hread.finishLine _

theorem requireExpressions_carries (count : Nat) : Carries (requireExpressions count) := by
  induction count with
  | zero => exact fun _ r hphrase => hphrase.finishLine r
  | succ count ih =>
      intro phrase r hphrase
      have hvalue := expression_values.types r
      unfold requireExpressions
      generalize expression r = outcome at hvalue
      obtain ⟨found, behind⟩ := outcome
      cases found with
      | none => exact hphrase.markRest _ behind
      | some value => exact ih _ _ (hphrase.add (hvalue value rfl))

theorem requireName_carries (expressions : Nat) : Carries (requireName expressions) := by
  intro phrase r hphrase
  have hname := variableName_types r
  unfold requireName
  generalize variableName r = outcome at hname
  obtain ⟨found, behind⟩ := outcome
  cases found with
  | none => exact hphrase.markRest _ behind
  | some name => exact requireExpressions_carries expressions _ _ (hphrase.add (hname name rfl))

theorem declaration_carries (kind : Declaration) : Carries (declaration kind) := by
  intro phrase r hphrase
  have hname := variableName_types r
  unfold declaration
  generalize variableName r = outcome at hname
  obtain ⟨found, behind⟩ := outcome
  cases found with
  | none => exact hphrase.markRest _ behind
  | some name =>
      have hnamed := hphrase.add (hname name rfl)
      have hvalue := expression_values.types behind
      dsimp only
      generalize expression behind = outcome at hvalue
      obtain ⟨found, behind⟩ := outcome
      cases found with
      | none =>
          dsimp only
          split
          · exact hnamed.finishLine behind
          · exact hnamed.markRest _ behind
      | some value => exact (hnamed.add (hvalue value rfl)).finishLine behind

theorem labelDeclaration_carries : Carries labelDeclaration := by
  intro phrase r hphrase
  simp only [labelDeclaration]
  split
  · exact hphrase.markRest _ r
  · exact (hphrase.add (carrier_leafRun rfl r).typed).finishLine _

theorem jump_carries (takes : Bool) : Carries (jump takes) := by
  intro phrase r hphrase
  simp only [jump]
  split
  · exact hphrase.markRest _ r
  · have hreference : ((Phrase.begin .labelRef r).add (r.leafRun .label).1).Carrier :=
      Carrier.add (carrier_empty rfl _) (carrier_leafRun rfl r).typed
    exact finishArguments_carries takes _ _ (hphrase.add hreference.typed)

theorem sceneJump_carries (takes : Bool) : Carries (sceneJump takes) := by
  intro phrase r hphrase
  have hscene : (r.leafRun .sceneRef).1.Carrier := carrier_leafRun rfl r
  simp only [sceneJump]
  split
  · exact hphrase.markRest _ r
  · split
    · exact finishArguments_carries takes _ _ (hphrase.add hscene.typed)
    · have haround : (Phrase.around .labelRef (r.leafRun .sceneRef).1.start [(r.leafRun .sceneRef).1]).Carrier :=
        ⟨rfl, List.forall_mem_singleton.mpr hscene.typed⟩
      exact finishArguments_carries takes _ _
        (hphrase.add (haround.add (carrier_leafRun rfl (r.leafRun .sceneRef).2).typed).typed)

theorem namesWithin_carries (budget : Nat) : Carries (namesWithin budget) := by
  induction budget with
  | zero => exact fun _ r hphrase => hphrase.finish r
  | succ budget ih =>
      intro phrase r hphrase
      have hname := variableName_types r
      unfold namesWithin
      split
      · exact hphrase.finish r
      · generalize variableName r = outcome at hname
        obtain ⟨found, behind⟩ := outcome
        cases found with
        | none => exact hphrase.markRest _ behind
        | some name => exact ih _ _ (hphrase.add (hname name rfl))

theorem plainCommand_carrier (start : Nat) (name : String) (r : Reader) : (plainCommand start name r).1.Carrier := by
  have hknown : ∀ kind : Kind, kind.isExpression = false →
      (if Command.takesProse name then prose ((Phrase.empty kind start).finish r.next) (r.next.switch .text)
      else ((arguments ((Phrase.empty kind start).finish r.next) r.next).1.finish
        (arguments ((Phrase.empty kind start).finish r.next) r.next).2,
        (arguments ((Phrase.empty kind start).finish r.next) r.next).2)).1.Carrier := by
    intro kind hkind
    have hnamed : ((Phrase.empty kind start).finish r.next).Carrier := (carrier_empty hkind start).finish _
    split
    · exact prose_carries _ _ hnamed
    · exact (argumentsWithin_carries _ _ _ hnamed).finish _
  simp only [plainCommand]
  split
  · exact hknown _ rfl
  · exact hknown _ rfl
  · exact (carrier_empty rfl start).markRest _ _

end Reader

/-! ### Statements -/

namespace Phrase

/-- A phrase outside of expressions, with the types in it. -/
structure Outer (phrase : Phrase) : Prop where
  kind : phrase.kind.isExpression = false
  typed : phrase.Typed none

variable {phrase : Phrase}

theorem Carrier.outer (h : phrase.Carrier) : phrase.Outer := ⟨h.kind, h.typed⟩

theorem Outer.flag (h : phrase.Outer) (rule : Rule) (offset length : Nat) : (phrase.flag rule offset length).Outer :=
  ⟨h.kind, h.typed.congr rfl rfl rfl⟩

theorem finishLine_same (phrase : Phrase) (r : Reader) : (phrase.finishLine r).1.kind = phrase.kind ∧
    (phrase.finishLine r).1.parts = phrase.parts := by
  unfold finishLine
  split <;> exact ⟨rfl, rfl⟩

/-- Lines that follow a statement change no type in it: what is assigned stays in front. -/
theorem Outer.addAll (h : phrase.Outer) {block : List Phrase} (hblock : ∀ part ∈ block, part.Typed none) :
    (phrase.addAll block).Outer := by
  have hkind : (phrase.addAll block).kind.isExpression = false := h.kind
  refine ⟨hkind, ?_⟩
  have hno : ∀ {kind : Kind}, phrase.kind = kind → kind.isExpression = true → False := by
    rintro _ rfl hexpression
    exact Bool.false_ne_true (h.kind.symm.trans hexpression)
  cases h.typed with
  | operation hown => exact (hno hown (Operator.isExpression_kind _ _)).elim
  | group hown => exact (hno hown rfl).elim
  | call hown => exact (hno hown rfl).elim
  | literal hown => exact (hno hown rfl).elim
  | reference hown => exact (hno hown rfl).elim
  | assignment hown hinner =>
      refine .assignment hown ?_
      rw [addAll_parts]
      refine List.forall_mem_append.mpr ⟨fun part hpart => ?_, fun part hpart => (hblock part hpart).any _⟩
      rw [List.head?_append_of_ne_nil _ (List.ne_nil_of_mem hpart)]
      exact hinner part hpart
  | other _ hinner =>
      refine .other hkind ?_
      rw [addAll_parts]
      exact List.forall_mem_append.mpr ⟨hinner, hblock⟩

end Phrase

namespace Reader

open Phrase (Carrier Outer Typed carrier_empty carrier_leaf carrier_leafRun)

variable {r : Reader} {phrase : Phrase}

theorem assignedValue_typed (byReference : Bool) (target : Phrase) (r : Reader) :
    ∀ value ∈ (assignedValue byReference target r).1,
      value.Typed (if byReference then none else some target) := by
  intro value hvalue
  simp only [assignedValue] at hvalue
  split at hvalue
  · rename_i op hop
    cases hvalue
    have hset : byReference = false := by
      have hcondition := (Option.filter_eq_some_iff.mp hop).2
      rw [Bool.and_eq_true_iff] at hcondition
      exact Bool.not_eq_true' _ ▸ hcondition.2
    rw [hset]
    exact assignedOperation_typed target op r
  · exact (expression_values.types r value hvalue).any _

/-- What is assigned stands before its value, so that the value is read against the first part. -/
theorem assignment_outer (byReference : Bool) {start : Phrase} (hkind : start.kind = .setCommand byReference)
    (hparts : start.parts = []) (r : Reader) : (assignment byReference start r).1.Outer := by
  have hstart : start.Carrier := Phrase.carrier_of_parts_nil (hkind ▸ rfl) hparts
  have htarget : ∀ target ∈ (if byReference then expression r else assignable r).1, target.Typed none := by
    split
    · exact expression_values.types r
    · exact assignable_types r
  unfold assignment
  generalize (if byReference then expression r else assignable r) = outcome at htarget
  obtain ⟨found, behind⟩ := outcome
  cases found with
  | none => exact (hstart.markRest _ behind).outer
  | some target =>
      have hadded := hstart.add (htarget target rfl)
      have hvalue := assignedValue_typed byReference target behind
      dsimp only
      split
      · exact ((hadded.complain _ _).finish _).outer
      · generalize assignedValue byReference target behind = outcome at hvalue
        obtain ⟨found, behind⟩ := outcome
        cases found with
        | none => exact (hadded.markRest _ behind).outer
        | some value =>
            obtain ⟨hsame, hboth⟩ := Phrase.finishLine_same ((start.add target).add value) behind
            have hall : (((start.add target).add value).finishLine behind).1.parts = [target, value] := by
              rw [hboth, Phrase.add_parts, Phrase.add_parts, hparts]
              rfl
            cases byReference with
            | true => exact ((hadded.add (hvalue value rfl)).finishLine behind).outer
            | false =>
                refine ⟨(hsame.trans hkind) ▸ rfl, .assignment (hsame.trans hkind) ?_⟩
                rw [hall]
                exact List.forall_mem_cons.mpr ⟨(htarget target rfl).any _,
                  List.forall_mem_singleton.mpr (hvalue value rfl)⟩

theorem commandNamed_outer (start : Nat) (context : Context) (r : Reader) :
    (commandNamed start context r).1.phrase.Outer := by
  have hnamed : ∀ {kind : Kind}, kind.isExpression = false → ((Phrase.empty kind start).finish r.next).Carrier :=
    fun hkind => (carrier_empty hkind start).finish _
  simp only [commandNamed]
  split
  case h_1 kind _ => exact (declaration_carries kind _ _ (hnamed rfl)).outer
  case h_2 byReference _ => exact assignment_outer byReference rfl rfl _
  case h_3 => exact (requireName_carries 2 _ _ (hnamed rfl)).outer
  case h_4 => exact (labelDeclaration_carries _ _ (hnamed rfl)).outer
  case h_5 takes _ => exact (jump_carries takes _ _ (hnamed rfl)).outer
  case h_6 takes _ => exact (sceneJump_carries takes _ _ (hnamed rfl)).outer
  case h_7 => exact (requireExpressions_carries 1 _ _ (hnamed rfl)).outer
  case h_8 => exact (requireExpressions_carries 1 _ _ (hnamed rfl)).outer
  case h_9 bounded _ => exact (requireName_carries _ _ _ (hnamed rfl)).outer
  case h_10 => exact (namesWithin_carries _ _ _ (hnamed rfl)).outer
  case h_11 => exact (requireExpressions_carries 1 _ _ (hnamed rfl)).outer
  case h_12 => exact ((hnamed rfl).finishLine _).outer
  case h_13 fake _ => exact (argumentsWithin_carries _ _ _ (hnamed rfl)).outer
  case h_14 => exact ((hnamed rfl).finishLine _).outer
  case h_15 => exact (argumentsWithin_carries _ _ _ (hnamed rfl)).outer
  case h_16 => exact (plainCommand_carrier start _ r).outer

/-! ### Options -/

theorem modifiersWithin_carriers {budget : Nat} {found modifiers : Modifiers} {behind : Reader}
    (hfound : ∀ phrase ∈ found.phrases, phrase.Carrier)
    (hread : modifiersWithin budget found r = some (modifiers, behind)) :
    ∀ phrase ∈ modifiers.phrases, phrase.Carrier := by
  refine modifiersWithin_induction (motive := fun phrases _ => ∀ phrase ∈ phrases, phrase.Carrier) hread hfound
    fun {place _ _ _} _ hmodifier hphrases => ?_
  have hnamed : ((Phrase.empty (.standardCommand place.next.word) place.offset).finish place.next.next).Carrier :=
    (carrier_empty rfl place.offset).finish _
  refine List.forall_mem_append.mpr ⟨hphrases, List.forall_mem_singleton.mpr ?_⟩
  cases hmodifier with
  | alone => exact hnamed
  | conditional hcondition => exact hnamed.add (expression_values.types place.next.next _ (congrArg Prod.fst hcondition))

theorem optionText_carries : Carries optionText := fun phrase _ hphrase => prose_carries phrase _ hphrase

theorem modifiedOption_carrier (context : Context) {option : Statement}
    (hfound : (modifiedOption context r).1 = some option) : option.phrase.Carrier := by
  simp only [modifiedOption] at hfound
  split at hfound
  · cases hfound
  · rename_i found before hread
    split at hfound
    · have hmodifiers := modifiersWithin_carriers (List.forall_mem_nil _) hread
      have haround : (Phrase.around (.choiceOption found.reuse found.conditional) r.offset found.phrases).Carrier := by
        refine ⟨rfl, fun part hpart => (hmodifiers part ?_).typed⟩
        exact (List.append_nil found.phrases) ▸ hpart
      have htext := optionText_carries _ before haround
      cases hfound
      dsimp only
      split
      · exact htext
      · exact htext.flag _ _ _
    · cases hfound

theorem command_outer (context : Context) (r : Reader) : (command context r).1.phrase.Outer := by
  have hoption := @modifiedOption_carrier r context
  unfold command
  generalize modifiedOption context r = outcome at hoption
  obtain ⟨found, behind⟩ := outcome
  cases found with
  | none => exact commandNamed_outer _ _ _
  | some option => exact (hoption rfl).outer

/-! ### The content of a line -/

theorem plainOption_carrier (r : Reader) : (plainOption r).1.phrase.Carrier :=
  optionText_carries _ r (carrier_empty rfl r.offset)

theorem textLine_carrier (r : Reader) : (textLine r).1.phrase.Carrier := prose_carries _ r (carrier_empty rfl r.offset)

theorem sceneListEntry_carrier (r : Reader) : (sceneListEntry r).1.phrase.Carrier := by
  simp only [sceneListEntry]
  split
  · exact (carrier_empty rfl r.offset).markRest _ _
  · exact (carrier_leafRun rfl _).finishLine _

theorem contentLine_outer (context : Context) (type : LineType) (r : Reader) :
    (contentLine context type r).1.phrase.Outer := by
  unfold contentLine
  split
  · exact r.sceneListEntry_carrier.outer
  · exact r.textLine_carrier.outer
  · exact r.plainOption_carrier.outer
  · exact (r.plainOption_carrier.flag _ _ _).outer
  · exact command_outer context r
  · exact r.textLine_carrier.outer

theorem statement_outer (context : Context) (type : LineType) {statement : Statement}
    (hfound : (r.statement context type).1 = some statement) : statement.phrase.Outer := by
  simp only [Reader.statement] at hfound
  split at hfound
  · cases hfound
  · split at hfound
    · cases hfound
      exact (Phrase.carrier_of_parts_nil rfl rfl).outer
    · cases hfound
      have hcontent := contentLine_outer context type r
      simp only [checkChoice]
      split
      · exact hcontent.flag _ _ _
      · exact hcontent

end Reader

/-! ### Scenes -/

namespace Line

variable {source : Text} {line : Line} {context : Context} {unit : Option IndentUnit}

theorem margin_typed (unit : Option IndentUnit) : ∀ part ∈ line.margin unit, part.Typed none := by
  intro part hpart
  obtain ⟨indentation, hfound, rfl⟩ := Option.map_eq_some_iff.mp (Option.mem_toList.mp hpart)
  have hcarrier : indentation.Carrier := by
    simp only [indentation?] at hfound
    split at hfound
    · cases hfound
      split <;> exact Phrase.carrier_of_parts_nil rfl rfl
    · cases hfound
  exact (hcarrier.typed : indentation.Typed none).shift line.start

theorem stated_typed {statement : Statement} (hfound : (line.reading context).1 = some statement)
    {block : List Phrase} (hblock : ∀ part ∈ block, part.Typed none) : (line.stated block statement).Typed none := by
  have houter := Reader.statement_outer context line.type hfound
  have hmoved : (statement.phrase.shift line.start).Outer := by
    refine ⟨?_, houter.typed.shift line.start⟩
    rw [Phrase.shift_kind]
    exact houter.kind
  have hwhole : (line.withBlock block statement).Outer := hmoved.addAll hblock
  rcases line.stated_eq block statement with heq | ⟨_, _, heq⟩
  · rw [heq]
    exact hwhole.typed
  · rw [heq]
    exact (hwhole.flag _ _ _).typed

theorem phrases_typed (context : Context) {lines : List Line} (harranged : Arranged source lines) :
    ∀ part ∈ phrases unit context lines, part.Typed none := by
  induction context, lines using below_induction with
  | nil context =>
      intro part hpart
      rw [phrases] at hpart
      cases hpart
  | cons context line more ihblock ihrest =>
      have hwithin := harranged.within line List.mem_cons_self
      have hblock := ihblock (harranged.sublist (block_sublist context line more))
      rw [phrases_cons]
      refine List.forall_mem_cons.mpr ⟨.other ?_ ?_, ihrest (harranged.sublist (rest_sublist context line more))⟩
      · rw [kind_phrase hwithin]
        rfl
      · rw [parts_phrase hwithin]
        refine List.forall_mem_append.mpr ⟨margin_typed unit, fun part hpart => ?_⟩
        obtain ⟨statement, hfound, rfl⟩ := Option.map_eq_some_iff.mp (Option.mem_toList.mp hpart)
        exact stated_typed hfound hblock

end Line

theorem Scene.phrase_typed (source : Text) (name uri : Option String) : (phrase source name uri).Typed none :=
  .other rfl fun part hpart => Line.phrases_typed .scene (Line.arranged_lines source) part hpart

end Gamebook
