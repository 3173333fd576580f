import Gamebook.Proofs.Grammar.Placement
import Gamebook.Proofs.Lexeme.Prose

/-!
Commands and their names. The kind of a command tells its name, and where it was told by the tables alone it is that
of the class of the name. The name is what was read behind the asterisk, also of a command before an option; and the
name of a command that is not known is all that is marked as such.
-/

namespace Gamebook

namespace Kind

/-- The tables have the name of a command in the class that the kind is for. -/
def Tabled : Kind → Prop
  | .standardCommand name => Command.classify name = .ordinary
  | .flowCommand name => Command.classify name = .flow
  | .command name => Command.classify name = .unknown
  | _ => True

theorem tabled_of_isModifier {kind : Kind} (h : kind.isModifier = true) : kind.Tabled := by
  have hall : ∀ name ∈ Command.optionModifiers, Command.classify name = .ordinary := by decide +kernel
  cases kind with
  | standardCommand name => exact hall name (List.contains_iff_mem.mp h)
  | _ => cases h

theorem tabled_of_commandName?_eq_none {kind : Kind} (h : kind.commandName? = none) : kind.Tabled := by
  cases kind <;> trivial

/-- Inside a statement there are no commands but the modifiers of an option. -/
theorem isModifier_of_admits_command {outer inner : Kind} (houter : outer.isContent = true)
    (hinner : inner.commandName?.isSome = true) (h : outer.admits inner = true) :
    outer.isOption = true ∧ inner.isModifier = true := by
  cases inner with
  | command | standardCommand | flowCommand | setCommand | randCommand | choiceCommand | variableDeclaration
  | labelDeclaration => cases outer <;> simp_all [admits, isContent, isInner, isPart, isName, isOption, isModifier]
  | _ => cases hinner

theorem isContent_of_commandName? {kind : Kind} (h : kind.commandName?.isSome = true) : kind.isContent = true := by
  cases kind <;> first | rfl | cases h

theorem isOption_of_isPart {kind : Kind} (h : kind.isPart = true) : kind.isOption = false := by
  cases kind <;> first | rfl | cases h

theorem commandName?_of_isInner {kind : Kind} (h : kind.isInner = true) : kind.commandName? = none := by
  cases kind <;> first | rfl | cases h

end Kind

namespace CommandForm

theorem tabled_plain (name : String) : (plain.kind name).Tabled := by
  unfold kind
  cases hclass : Command.classify name <;> exact hclass

/-- The forms agree with the tables. -/
theorem tabled_ofName (name : String) : ((ofName name).kind name).Tabled := by
  unfold ofName
  split <;> first
    | exact tabled_plain name
    | trivial

theorem commandName?_plain (name : String) : (plain.kind name).commandName? = some name := by
  unfold kind
  cases Command.classify name <;> rfl

/-- The kind of a command tells its name. -/
theorem commandName?_ofName (name : String) : ((ofName name).kind name).commandName? = some name := by
  unfold ofName
  split <;> first
    | exact commandName?_plain name
    | rfl

theorem isUnknown_kind_iff {name : String} {form : CommandForm} :
    (form.kind name).isUnknown = true ↔ form = .plain ∧ Command.classify name = .unknown := by
  cases form
  case plain =>
    unfold kind
    cases Command.classify name <;> simp [Kind.isUnknown]
  all_goals simp [kind, Kind.isUnknown]

end CommandForm

namespace Reader

variable {r site place behind : Reader} {context : Context} {type : LineType} {statement : Statement} {phrase : Phrase}

/-! ### What is written -/

/-- A command is ahead of the reader at the offset: an asterisk, perhaps blanks, and the name. -/
def Calls (site : Reader) (offset : Nat) (name : Text) : Prop :=
  ∃ place text rest, site.Reaches place ∧ place.offset = offset ∧ place.rest = '*' :: text ∧ name ≠ [] ∧
    text.dropWhile Text.isBlank = name ++ rest

/-- Whatever command the phrase is by its kind is ahead of the reader where the phrase begins. -/
def Spells (site : Reader) (phrase : Phrase) : Prop :=
  ∀ name, phrase.kind.commandName? = some name → site.Calls phrase.start name.toList

theorem calls_of_sees (hreach : site.Reaches place) (hasterisk : place.sees .asterisk = true)
    (hrest : place.next.rest ≠ []) : site.Calls place.offset place.next.text := by
  obtain ⟨asterisk, text, hfirst, hkind, hnext⟩ := exists_of_kind? (beq_iff_eq.mp hasterisk)
  obtain ⟨name, rest, hname⟩ := Lexeme.exists_first? place.next.mode hrest
  have htext : place.next.text = name.text := by
    rw [Reader.text, lexeme?, hname]
    rfl
  have hbehind : place.next.rest = text.dropWhile Text.isBlank := by
    rw [hnext]
    rfl
  rw [htext]
  refine ⟨place, text, rest, hreach, rfl, ?_, Lexeme.ne_nil_of_first? hname, ?_⟩
  · rw [← Lexeme.append_of_first? hfirst, Lexeme.text_eq_asterisk hfirst hkind]
    rfl
  · rw [Lexeme.append_of_first? hname, hbehind]

theorem toList_word (r : Reader) : r.word.toList = r.text := String.toList_ofList

/-- The next lexeme is the front of what is left. -/
theorem exists_text_append (r : Reader) : ∃ left, r.rest = r.text ++ left := by
  rw [text, lexeme?]
  cases hfirst : Lexeme.first? r.mode r.rest with
  | none => exact ⟨r.rest, rfl⟩
  | some found => exact ⟨found.2, (Lexeme.append_of_first? hfirst).symm⟩

/-! ### Modifiers -/

theorem modifiersWithin_spells {budget : Nat} {modifiers : Modifiers}
    (hread : modifiersWithin budget {} r = some (modifiers, behind)) :
    r.Reaches behind ∧ ∀ part ∈ modifiers.phrases, r.Spells part := by
  refine modifiersWithin_induction (motive := fun phrases place => r.Reaches place ∧ ∀ part ∈ phrases, r.Spells part)
    hread ⟨.refl, List.forall_mem_nil _⟩ fun {place _ _ _} hat hmodifier ⟨hreach, hphrases⟩ => ?_
  refine ⟨hreach.trans hmodifier.grows.reaches,
    List.forall_mem_append.mpr ⟨hphrases, List.forall_mem_singleton.mpr fun name hname => ?_⟩⟩
  rw [hmodifier.grows.kind_eq] at hname
  cases hname
  rw [hmodifier.grows.start_eq rfl, toList_word]
  exact calls_of_sees hreach hat.asterisk (rest_ne_nil_of_sees hat.name)

/-- Prose adds no commands. -/
theorem optionText_spells {option : Phrase} (hordered : place.Ordered) (hoption : ∀ part ∈ option.parts, r.Spells part) :
    ∀ part ∈ (optionText option place).1.parts, r.Spells part := by
  obtain ⟨more, hparts, hinner⟩ := (optionText_enlarges option hordered).parts
  rw [hparts]
  refine List.forall_mem_append.mpr ⟨hoption, fun part hpart name hname => ?_⟩
  rw [Kind.commandName?_of_isInner (hinner part hpart).kind] at hname
  cases hname

theorem modifiedOption_spells {option : Statement} (hordered : r.Ordered)
    (hfound : modifiedOption context r = (some option, behind)) : ∀ part ∈ option.phrase.parts, r.Spells part := by
  simp only [modifiedOption] at hfound
  split at hfound
  · cases hfound
  · rename_i found before hread
    obtain ⟨hreach, hphrases⟩ := modifiersWithin_spells hread
    split at hfound
    · have hparts : (Phrase.around (.choiceOption found.reuse found.conditional) r.offset found.phrases).parts =
          found.phrases := List.append_nil _
      have htext := optionText_spells (hreach.ordered hordered) (hparts ▸ hphrases)
      cases hfound
      dsimp only
      split
      · exact htext
      · exact htext
    · cases hfound

/-- The commands in an option were read where they are. -/
theorem contentLine_spells (hordered : r.Ordered) (hoption : (contentLine context type r).1.phrase.kind.isOption = true) :
    ∀ part ∈ (contentLine context type r).1.phrase.parts, r.Spells part := by
  have hplain : ∀ part ∈ (plainOption r).1.phrase.parts, r.Spells part :=
    optionText_spells hordered (List.forall_mem_nil _)
  unfold contentLine at hoption ⊢
  split at hoption
  · rw [sceneListEntry_kind] at hoption
    cases hoption
  · rw [textLine_kind] at hoption
    cases hoption
  · exact hplain
  · exact hplain
  · unfold command at hoption ⊢
    rcases modifiedOption_cases context r with ⟨option, behind, hfound, -⟩ | hnone
    · rw [hfound]
      exact modifiedOption_spells hordered hfound
    · rw [hnone] at hoption
      have hkind := (CommandForm.kind_plain r.next.word (CommandForm.ofName r.next.word)).1
      rw [(commandNamed_gains r.offset context r.next).kind] at hoption
      cases hkind.symm.trans hoption
  · rw [textLine_kind] at hoption
    cases hoption

/-! ### Statements -/

theorem statement_spells_parts (hordered : r.Ordered) (hfound : (r.statement context type).1 = some statement)
    (hoption : statement.phrase.kind.isOption = true) : ∀ part ∈ statement.phrase.parts, r.Spells part := by
  rcases statement_cases hfound with hcomment | ⟨-, hcontent⟩
  · rw [hcomment] at hoption
    cases hoption
  · obtain ⟨hkind, hparts, -⟩ := checkChoice_same context (contentLine context type r).1 (contentLine context type r).2
    rw [hcontent, hkind] at hoption
    rw [hcontent, hparts]
    exact contentLine_spells hordered hoption

theorem commandNamed_grows (context : Context) (htrimmed : r.Trimmed) :
    (Phrase.begin ((CommandForm.ofName r.next.word).kind r.next.word) r).Grows r
      (commandNamed r.offset context r.next).1.phrase (commandNamed r.offset context r.next).2 :=
  ((commandNamed_completes r.offset context (r.reaches_next.trimmed htrimmed)).after (.skip .refl r.reaches_next)).grows

theorem commandNamed_unknown (start : Nat) (context : Context)
    (h : ((CommandForm.ofName r.word).kind r.word).isUnknown = true) :
    (commandNamed start context r).1.phrase.issues = [⟨.unknownCommand, r.offset, Text.bytes r.text⟩] := by
  obtain ⟨hform, hclass⟩ := CommandForm.isUnknown_kind_iff.mp h
  simp only [commandNamed, hform, plainCommand, hclass]
  rfl

theorem checkChoice_unknown (context : Context) (statement : Statement) (behind : Reader) :
    (checkChoice context statement behind).phrase.issues.filter (·.rule == .unknownCommand) =
      statement.phrase.issues.filter (·.rule == .unknownCommand) := by
  unfold checkChoice
  dsimp only
  split
  · rw [Phrase.flag_issues, List.filter_append]
    exact List.append_nil _
  · rfl

section Lines

variable {line : Line} (htrimmed : (ofLine line).Trimmed)
  (hfound : ((ofLine line).statement context line.type).1 = some statement)
include hfound

/-- The kind of a statement agrees with the tables. -/
theorem statement_tabled : statement.phrase.kind.Tabled := by
  cases hname : statement.phrase.kind.commandName? with
  | none => exact Kind.tabled_of_commandName?_eq_none hname
  | some name =>
      obtain ⟨-, hcommand⟩ := statement_commandNamed hfound (by rw [hname]; rfl)
      rw [hcommand, (checkChoice_same context _ _).1, (commandNamed_gains _ context _).kind]
      exact CommandForm.tabled_ofName _

include htrimmed

/-- A command begins with the asterisk of its line, and its name is what stands right behind. -/
theorem statement_name {name : String} (hname : statement.phrase.kind.commandName? = some name) :
    name = (ofLine line).next.word ∧ statement.phrase.start = (ofLine line).offset ∧
      statement.phrase.start + 1 = (ofLine line).next.offset := by
  obtain ⟨htype, hcommand⟩ := statement_commandNamed hfound (by rw [hname]; rfl)
  obtain ⟨hkind, -, hstart⟩ := checkChoice_same context (commandNamed (ofLine line).offset context (ofLine line).next).1
    (commandNamed (ofLine line).offset context (ofLine line).next).2
  have hgrows := commandNamed_grows context htrimmed
  rw [hcommand, hkind, hgrows.kind_eq] at hname
  rw [hcommand, hstart, hgrows.start_eq rfl, next_offset_of_command htype]
  exact ⟨Option.some.inj (hname.symm.trans (CommandForm.commandName?_ofName _)), rfl, rfl⟩

/-- A statement that is a command was read where it is. -/
theorem statement_spells : (ofLine line).Spells statement.phrase := by
  intro name hname
  obtain ⟨rfl, hstart, -⟩ := statement_name htrimmed hfound hname
  obtain ⟨htype, -⟩ := statement_commandNamed hfound (by rw [hname]; rfl)
  obtain ⟨c, more, hc, hfirst⟩ := first?_of_command htype
  have hasterisk : (ofLine line).sees .asterisk = true := by
    rw [sees, kind?, lexeme?, hfirst]
    rfl
  have hrest : (ofLine line).next.rest = c :: more := by
    rw [next_of_first? hfirst]
    exact List.dropWhile_cons_of_neg (Bool.eq_false_iff.mp hc)
  rw [hstart, toList_word]
  exact calls_of_sees .refl hasterisk (hrest ▸ List.cons_ne_nil _ _)

/-- A command that is not known is marked as such once, on its name. -/
theorem statement_unknown {name : String} (hkind : statement.phrase.kind = .command name) :
    statement.phrase.issues.filter (·.rule == .unknownCommand) =
      [⟨.unknownCommand, statement.phrase.start + 1, Text.bytes name.toList⟩] := by
  obtain ⟨rfl, -, hstart⟩ := statement_name htrimmed hfound (by rw [hkind]; rfl)
  obtain ⟨-, hcommand⟩ := statement_commandNamed hfound (by rw [hkind]; rfl)
  have hform : ((CommandForm.ofName (ofLine line).next.word).kind (ofLine line).next.word).isUnknown = true := by
    rw [hcommand, (checkChoice_same context _ _).1, (commandNamed_grows context htrimmed).kind_eq] at hkind
    exact congrArg Kind.isUnknown hkind
  rw [hstart, hcommand, checkChoice_unknown, commandNamed_unknown _ context hform, toList_word]
  rfl

end Lines

end Reader

end Gamebook
