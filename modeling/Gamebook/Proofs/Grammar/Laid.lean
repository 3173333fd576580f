import Gamebook.Proofs.Grammar.Tidy

/-!
Every statement is laid out well. Whatever a rule adds to a statement stands inside statements, except for
the label of a declaration and for the modifiers of an option. The modifiers are read one after the other:
each begins where the reader stands behind the one before it, or with the next lexeme, its asterisk, already
marked by an error there.
-/

namespace Gamebook

open Phrase (Tidy Enlarges Inner Successive tidy_leaf)

namespace Reader

variable {r behind : Reader} {phrase : Phrase}

/-! ### Prose -/

def Enlarging (rule : Phrase → Reader → Phrase × Reader) : Prop :=
  ∀ (phrase : Phrase) (r : Reader), r.Ordered → phrase.Enlarges (rule phrase r).1

theorem closeBrace_enlarges (phrase : Phrase) (r : Reader) : phrase.Enlarges (closeBrace phrase r).1 := by
  simp only [closeBrace]
  split
  · exact Phrase.enlarges_finish _ _
  · exact (Phrase.enlarges_complain _ _ _).trans (Phrase.enlarges_finish _ _)

/-- A phrase that is begun with an inner kind and enlarged is an inner one. -/
theorem inner_of_enlarges {kind : Kind} (hkind : kind.isInner = true) (hname : kind.isName = false)
    (hholder : kind.isHolder = true) (h : (Phrase.begin kind r).Enlarges phrase) : phrase.Inner :=
  ⟨h.laid (Phrase.laid_empty hname (Kind.isScoped_of_isInner hkind) _) hholder, h.kind ▸ hkind⟩

theorem addOr_enlarges {found : Option Phrase} {rule : Rule} (hfound : ∀ part, found = some part → part.Inner)
    (phrase : Phrase) (r : Reader) : phrase.Enlarges (phrase.addOr found rule r) := by
  cases found with
  | none => exact Phrase.enlarges_complain _ _ _
  | some part => exact (hfound part rfl).enlarges phrase

theorem replacement_inner (hordered : r.Ordered) (hfound : (replacement r).1 = some phrase) : phrase.Inner := by
  have hmarked := r.reaches_next.trans (reaches_bangs r.rest.length r.next)
  simp only [replacement] at hfound
  split at hfound
  · cases hfound
  · split at hfound
    · cases hfound
      have hvalue := expression_neat ((bangs r.rest.length r.next).2.next.switch .command)
        ((hmarked.trans (reaches_next _)).ordered hordered)
      exact inner_of_enlarges rfl rfl rfl ((addOr_enlarges (fun part hpart => (hvalue part hpart).inner) _ _).trans
        (closeBrace_enlarges _ _))
    · cases hfound

theorem branches_enlarges {content : Phrase → Reader → Phrase × Reader} (hextending : Extending content)
    (hcontent : Enlarging content) (budget : Nat) (phrase : Phrase) (hordered : r.Ordered) :
    phrase.Enlarges (branches content budget phrase r).2.1 := by
  induction budget generalizing phrase r with
  | zero => exact .refl phrase
  | succ budget ih =>
      have hgrows := hextending (.begin .multiReplaceOption r) r
      have hbranch := hcontent (.begin .multiReplaceOption r) r hordered
      have hadded := (inner_of_enlarges rfl rfl rfl (hbranch.trans (Phrase.enlarges_finish _
        (content (.begin .multiReplaceOption r) r).2))).enlarges phrase
      have haccept := (content (.begin .multiReplaceOption r) r).2.reaches_accept .pipe
      simp only [branches]
      split
      · rename_i next hnext
        rw [hnext] at haccept
        exact hadded.trans (ih _ ((hgrows.reaches.trans haccept).ordered hordered))
      · exact hadded

theorem multireplace_inner {content : Phrase → Reader → Phrase × Reader} (hextending : Extending content)
    (hcontent : Enlarging content) (budget : Nat) (hordered : r.Ordered)
    (hfound : (multireplace budget content r).1 = some phrase) : phrase.Inner := by
  simp only [multireplace] at hfound
  split at hfound
  · cases hfound
    have hopened : (r.next.next.switch .command).Ordered :=
      (r.reaches_next.trans (r.next.reaches_next.switch .command)).ordered hordered
    have hselector := term_neat _ hopened
    have hbehind : ((term (r.next.next.switch .command)).2.switch .text).Ordered :=
      ((term_regular _).reaches.switch .text).ordered hopened
    have hselected : (Phrase.begin .multiReplace r).Enlarges ((Phrase.begin .multiReplace r).addOr _
        .expressionExpected (term (r.next.next.switch .command)).2) :=
      addOr_enlarges (fun part hpart => (hselector part hpart).inner) _ _
    have hbranches := hselected.trans (branches_enlarges hextending hcontent budget _ hbehind)
    refine inner_of_enlarges rfl rfl rfl ((hbranches.trans ?_).trans (closeBrace_enlarges _ _))
    split
    · exact Phrase.enlarges_flag _ _ _ _
    · exact .refl _
  · cases hfound

theorem prosePart_inner {budget : Nat} (hprose : Enlarging (proseWithin budget endsBranch)) {kind : TokenKind}
    (hordered : r.Ordered) (hfound : (prosePart budget kind r).1 = some phrase) : phrase.Inner := by
  unfold prosePart at hfound
  split at hfound
  · cases hfound
    exact (tidy_leaf rfl hordered nofun : (r.leaf .realWord).1.Tidy r.next).inner
  · exact replacement_inner hordered hfound
  · exact multireplace_inner (proseWithin_extending budget endsBranch) hprose budget hordered hfound
  · cases hfound

theorem proseWithin_enlarging (budget : Nat) (ends : TokenKind → Bool) : Enlarging (proseWithin budget ends) := by
  induction budget generalizing ends with
  | zero => exact fun phrase _ _ => .refl phrase
  | succ budget ih =>
      intro phrase r hordered
      rw [proseWithin_succ]
      split
      · exact .refl phrase
      · rename_i kind _
        split
        · exact .refl phrase
        · have hpart : ∀ part, (prosePart budget kind r).1 = some part → part.Inner :=
            fun _ => prosePart_inner (ih endsBranch) hordered
          have hreaches := (prosePart_mayYield (proseWithin_extending budget endsBranch) r kind).reaches
          generalize prosePart budget kind r = outcome at hpart hreaches
          obtain ⟨found, behind⟩ := outcome
          cases found with
          | none => exact ih ends _ _ ((hreaches.trans behind.reaches_next).ordered hordered)
          | some part => exact ((hpart part rfl).enlarges phrase).trans (ih ends _ _ (hreaches.ordered hordered))

theorem prose_enlarging : Enlarging prose := fun phrase r hordered =>
  (proseWithin_enlarging r.budget (fun _ => false) phrase r hordered).trans (Phrase.enlarges_finish _ _)

/-! ### The forms of commands -/

theorem finishLine_enlarges (phrase : Phrase) (r : Reader) : phrase.Enlarges (phrase.finishLine r).1 := by
  unfold Phrase.finishLine
  split
  · exact Phrase.enlarges_finish _ _
  · exact (Phrase.enlarges_flag _ _ _ _).trans (Phrase.enlarges_finish _ _)

theorem markRest_enlarges (phrase : Phrase) (rule : Rule) (r : Reader) :
    phrase.Enlarges (phrase.markRest rule r).1 :=
  (Phrase.enlarges_complain _ _ _).trans (Phrase.enlarges_finish _ _)

theorem argument_inner (hordered : r.Ordered) : r.argument.1.Inner := by
  unfold argument
  split
  · exact (stringValue_tidy hordered).inner
  · have hkind : (argumentKind r.run).isInner = true ∧ (argumentKind r.run).isName = false := by
      unfold argumentKind
      split
      · exact ⟨rfl, rfl⟩
      · split <;> exact ⟨rfl, rfl⟩
    exact ⟨(Phrase.laid_empty hkind.2 (Kind.isScoped_of_isInner hkind.1) _).reach _, hkind.1⟩

theorem argumentsWithin_enlarging (budget : Nat) : Enlarging (argumentsWithin budget) := by
  induction budget with
  | zero => exact fun phrase _ _ => .refl phrase
  | succ budget ih =>
      intro phrase r hordered
      simp only [argumentsWithin]
      split
      · exact .refl phrase
      · exact ((argument_inner hordered).enlarges phrase).trans (ih _ _ (r.argument_reads.reaches.ordered hordered))

theorem expressionsWithin_enlarging (budget : Nat) : Enlarging (expressionsWithin budget) := by
  induction budget with
  | zero => exact fun phrase _ _ => .refl phrase
  | succ budget ih =>
      intro phrase r hordered
      have hvalue := expression_neat r hordered
      have hreaches := (expression_regular r).reaches
      unfold expressionsWithin
      split
      · exact .refl phrase
      · generalize expression r = outcome at hvalue hreaches
        obtain ⟨found, behind⟩ := outcome
        cases found with
        | none => exact finishLine_enlarges phrase behind
        | some value => exact ((hvalue value rfl).inner.enlarges phrase).trans (ih _ _ (hreaches.ordered hordered))

theorem finishArguments_enlarging (takes : Bool) : Enlarging (finishArguments takes) := by
  intro phrase r hordered
  have hread : phrase.Enlarges (if takes then expressionsWithin r.budget phrase r else (phrase, r)).1 := by
    split
    · exact expressionsWithin_enlarging r.budget phrase r hordered
    · exact .refl phrase
  exact hread.trans (finishLine_enlarges _ _)

theorem requireExpressions_enlarging (count : Nat) : Enlarging (requireExpressions count) := by
  induction count with
  | zero => exact fun phrase r _ => finishLine_enlarges phrase r
  | succ count ih =>
      intro phrase r hordered
      have hvalue := expression_neat r hordered
      have hreaches := (expression_regular r).reaches
      unfold requireExpressions
      generalize expression r = outcome at hvalue hreaches
      obtain ⟨found, behind⟩ := outcome
      cases found with
      | none => exact markRest_enlarges phrase _ behind
      | some value => exact ((hvalue value rfl).inner.enlarges phrase).trans (ih _ _ (hreaches.ordered hordered))

theorem requireName_enlarging (expressions : Nat) : Enlarging (requireName expressions) := by
  intro phrase r hordered
  have hname := variableName_neat r hordered
  unfold requireName
  generalize variableName r = outcome at hname
  obtain ⟨found, behind⟩ := outcome
  cases found with
  | none => exact markRest_enlarges phrase _ behind
  | some name =>
      exact ((hname name rfl).inner.enlarges phrase).trans
        (requireExpressions_enlarging expressions _ _ (hname name rfl).ordered)

theorem declaration_enlarging (kind : Declaration) : Enlarging (declaration kind) := by
  intro phrase r hordered
  have hname := variableName_neat r hordered
  unfold declaration
  generalize variableName r = outcome at hname
  obtain ⟨found, behind⟩ := outcome
  cases found with
  | none => exact markRest_enlarges phrase _ behind
  | some name =>
      have hvalue := expression_neat behind (hname name rfl).ordered
      refine ((hname name rfl).inner.enlarges phrase).trans ?_
      dsimp only
      generalize expression behind = outcome at hvalue
      obtain ⟨found, behind⟩ := outcome
      cases found with
      | none =>
          dsimp only
          split
          · exact finishLine_enlarges _ _
          · exact markRest_enlarges _ _ _
      | some value => exact ((hvalue value rfl).inner.enlarges _).trans (finishLine_enlarges _ _)

theorem assignedValue_neat (byReference : Bool) (target : Phrase) : Neat (assignedValue byReference target) := by
  intro r hordered phrase hfound
  simp only [assignedValue] at hfound ⊢
  split at hfound
  · cases hfound
    exact assignedOperation_tidy target _ hordered
  · exact expression_neat r hordered phrase hfound

theorem assignment_enlarging (byReference : Bool) : Enlarging (assignment byReference) := by
  intro phrase r hordered
  have htarget : ∀ target, (if byReference then expression r else assignable r).1 = some target →
      target.Tidy (if byReference then expression r else assignable r).2 := by
    split
    · exact expression_neat r hordered
    · exact assignable_neat r hordered
  unfold assignment
  generalize (if byReference then expression r else assignable r) = outcome at htarget
  obtain ⟨found, behind⟩ := outcome
  cases found with
  | none => exact markRest_enlarges phrase _ behind
  | some target =>
      have hvalue := assignedValue_neat byReference target behind (htarget target rfl).ordered
      refine ((htarget target rfl).inner.enlarges phrase).trans ?_
      dsimp only
      split
      · exact (Phrase.enlarges_complain _ _ _).trans (Phrase.enlarges_finish _ _)
      · generalize assignedValue byReference target behind = outcome at hvalue
        obtain ⟨found, behind⟩ := outcome
        cases found with
        | none => exact markRest_enlarges _ _ _
        | some value => exact ((hvalue value rfl).inner.enlarges _).trans (finishLine_enlarges _ _)

theorem namesWithin_enlarging (budget : Nat) : Enlarging (namesWithin budget) := by
  induction budget with
  | zero => exact fun phrase r _ => Phrase.enlarges_finish phrase r
  | succ budget ih =>
      intro phrase r hordered
      have hname := variableName_neat r hordered
      unfold namesWithin
      split
      · exact Phrase.enlarges_finish phrase r
      · generalize variableName r = outcome at hname
        obtain ⟨found, behind⟩ := outcome
        cases found with
        | none => exact markRest_enlarges phrase _ behind
        | some name => exact ((hname name rfl).inner.enlarges phrase).trans (ih _ _ (hname name rfl).ordered)

/-- The run up to the next blank as a name. -/
theorem leafRun_laid (kind : Kind) (htrimmed : r.Trimmed) (hend : ¬r.atEnd = true) : (r.leafRun kind).1.Laid :=
  Phrase.laid_reach (offset_lt_nextRun htrimmed fun hnil => hend (atEnd_iff.mpr hnil))

theorem jump_enlarges (takes : Bool) (phrase : Phrase) (hordered : r.Ordered) (htrimmed : r.Trimmed) :
    phrase.Enlarges (jump takes phrase r).1 := by
  simp only [jump]
  split
  · exact markRest_enlarges phrase _ r
  · rename_i hend
    have hlabel := leafRun_laid .label htrimmed hend
    have hreference : ((Phrase.begin .labelRef r).add (r.leafRun .label).1).Inner :=
      ⟨(Phrase.laid_empty rfl rfl _).add hlabel rfl (List.forall_mem_nil _)
        (fun hkind => by cases hkind), rfl⟩
    exact (hreference.enlarges phrase).trans
      (finishArguments_enlarging takes _ _ (r.reaches_nextRun.ordered hordered))

theorem sceneJump_enlarges (takes : Bool) (phrase : Phrase) (hordered : r.Ordered) (htrimmed : r.Trimmed) :
    phrase.Enlarges (sceneJump takes phrase r).1 := by
  have hbehind := r.reaches_nextRun.ordered hordered
  simp only [sceneJump]
  split
  · exact markRest_enlarges phrase _ r
  · rename_i hend
    have hscene : (r.leafRun .sceneRef).1.Inner := ⟨leafRun_laid .sceneRef htrimmed hend, rfl⟩
    split
    · exact (hscene.enlarges phrase).trans (finishArguments_enlarging takes _ _ hbehind)
    · rename_i hlabelled
      have hlabel := leafRun_laid (r := r.nextRun) .label (r.reaches_nextRun.trimmed htrimmed) hlabelled
      have hreference : ((Phrase.around .labelRef (r.leafRun .sceneRef).1.start [(r.leafRun .sceneRef).1]).add
          (r.nextRun.leafRun .label).1).Inner := by
        refine ⟨Phrase.Laid.add ?_ hlabel rfl ?_ (fun hkind => by cases hkind), rfl⟩
        · rw [Phrase.around_eq_settled, Phrase.addAll_singleton]
          have hempty : (Phrase.empty .labelRef (r.leafRun .sceneRef).1.start).Laid := Phrase.laid_empty rfl rfl _
          exact (hempty.add hscene.laid rfl (List.forall_mem_nil _) fun hkind => by cases hkind).settled
        · intro left hleft
          rw [List.mem_singleton.mp hleft]
          exact .left hscene.plain
      exact (hreference.enlarges phrase).trans
        (finishArguments_enlarging takes _ _ ((reaches_nextRun _).ordered hbehind))

theorem finishLine_laid (hphrase : phrase.Laid) (r : Reader) : (phrase.finishLine r).1.Laid := by
  unfold Phrase.finishLine
  split
  · exact hphrase.finish _
  · exact (hphrase.flag _ _ _).finish _

theorem labelDeclaration_laid (hphrase : phrase.Laid) (hkind : phrase.kind = .labelDeclaration)
    (hparts : phrase.parts = []) (htrimmed : r.Trimmed) : (labelDeclaration phrase r).1.Laid := by
  simp only [labelDeclaration]
  split
  · exact (hphrase.complain _ _).finish _
  · rename_i hend
    refine finishLine_laid (hphrase.add (leafRun_laid .label htrimmed hend) ?_ ?_ fun _ => hparts) _
    · rw [hkind]
      rfl
    · rw [hparts]
      exact List.forall_mem_nil _

theorem plainCommand_laid {start : Nat} (name : String) (hordered : r.Ordered) (hfilled : start < r.next.lastEnd) :
    (plainCommand start name r).1.Laid := by
  have hnext := hordered.next
  have hknown : ∀ kind : Kind, kind.isHolder = true →
      (if Command.takesProse name then prose ((Phrase.empty kind start).finish r.next) (r.next.switch .text)
      else ((arguments ((Phrase.empty kind start).finish r.next) r.next).1.finish
        (arguments ((Phrase.empty kind start).finish r.next) r.next).2,
        (arguments ((Phrase.empty kind start).finish r.next) r.next).2)).1.Laid := by
    intro kind hkind
    have hnamed : ((Phrase.empty kind start).finish r.next).Laid := Phrase.laid_reach hfilled
    split
    · exact (prose_enlarging _ (r.next.switch .text) hnext).laid hnamed hkind
    · exact ((argumentsWithin_enlarging _ _ _ hnext).laid hnamed hkind).finish _
  simp only [plainCommand]
  split
  · exact hknown _ rfl
  · exact hknown _ rfl
  · exact (markRest_enlarges _ _ _).laid (Phrase.laid_empty rfl rfl _) rfl

/-- A command is laid out well, whatever its form; the reader stands before its name. -/
theorem commandNamed_laid {start : Nat} (context : Context) (hordered : r.Ordered) (htrimmed : r.Trimmed)
    (hfilled : start < r.next.lastEnd) : (commandNamed start context r).1.phrase.Laid := by
  have hnext := hordered.next
  have hnamed : ∀ kind : Kind, ((Phrase.empty kind start).finish r.next).Laid :=
    fun kind => Phrase.laid_reach hfilled
  have hlaid : ∀ (kind : Kind) (grown : Phrase), kind.isHolder = true →
      ((Phrase.empty kind start).finish r.next).Enlarges grown → grown.Laid :=
    fun kind grown hkind henlarges => henlarges.laid (hnamed kind) hkind
  simp only [commandNamed]
  split
  case h_1 kind _ => exact hlaid _ _ rfl (declaration_enlarging kind _ _ hnext)
  case h_2 byReference _ => exact hlaid _ _ rfl (assignment_enlarging byReference _ _ hnext)
  case h_3 => exact hlaid _ _ rfl (requireName_enlarging 2 _ _ hnext)
  case h_4 => exact labelDeclaration_laid (hnamed _) rfl rfl (r.reaches_next.trimmed htrimmed)
  case h_5 takes _ => exact hlaid _ _ rfl (jump_enlarges takes _ hnext (r.reaches_next.trimmed htrimmed))
  case h_6 takes _ => exact hlaid _ _ rfl (sceneJump_enlarges takes _ hnext (r.reaches_next.trimmed htrimmed))
  case h_7 => exact hlaid _ _ rfl (requireExpressions_enlarging 1 _ _ hnext)
  case h_8 => exact hlaid _ _ rfl (requireExpressions_enlarging 1 _ _ hnext)
  case h_9 bounded _ => exact hlaid _ _ rfl (requireName_enlarging _ _ _ hnext)
  case h_10 => exact hlaid _ _ rfl (namesWithin_enlarging _ _ _ hnext)
  case h_11 => exact hlaid _ _ rfl (requireExpressions_enlarging 1 _ _ hnext)
  case h_12 => exact hlaid _ _ rfl (finishLine_enlarges _ _)
  case h_13 fake _ => exact hlaid _ _ rfl (argumentsWithin_enlarging _ _ _ hnext)
  case h_14 => exact hlaid _ _ rfl (finishLine_enlarges _ _)
  case h_15 => exact hlaid _ _ rfl (argumentsWithin_enlarging _ _ _ hnext)
  case h_16 => exact plainCommand_laid _ hordered hfilled

end Reader

/-! ### Modifiers -/

theorem Lexeme.text_eq_asterisk {mode : Mode} {text rest : Text} {lexeme : Lexeme}
    (hfound : first? mode text = some (lexeme, rest)) (hkind : lexeme.kind = .asterisk) : lexeme.text = ['*'] := by
  refine text_eq_of_fixed hfound (by simp [hkind]) ?_
  rw [hkind]
  cases mode <;>
    simp [Mode.patterns, Pattern.ofCommands, Pattern.ofProse, Pattern.signs, Pattern.fixed]

theorem Reader.bytes_text_of_asterisk {r : Reader} (h : r.sees .asterisk = true) : Text.bytes r.text = 1 := by
  unfold text
  unfold sees kind? at h
  cases hlexeme : r.lexeme? with
  | none =>
      rw [hlexeme] at h
      cases h
  | some lexeme =>
      rw [hlexeme] at h
      obtain ⟨found, hfound, rfl⟩ := Option.map_eq_some_iff.mp hlexeme
      have htext : found.1.text = ['*'] := Lexeme.text_eq_asterisk hfound (Option.some.inj (eq_of_beq h))
      simp only [Option.map_some, Option.getD_some, htext]
      rfl

namespace Phrase

theorem around_start_le (kind : Kind) (offset : Nat) (parts : List Phrase) :
    (around kind offset parts).start ≤ offset := by
  rw [around_eq_settled]
  exact addAll_start_le _ parts

/-- A modifier of an option that was read on the way to a reader. -/
structure Modifies (phrase : Phrase) (r : Reader) : Prop where
  kind : phrase.kind.isModifier = true
  laid : phrase.Laid
  plain : ∀ part ∈ phrase.parts, part.Plain
  filled : phrase.start + 1 < phrase.stop
  start : phrase.start < r.offset
  stop : phrase.stop ≤ r.offset + Text.bytes r.text
  clean : phrase.Clean → phrase.stop ≤ r.offset

variable {phrase part : Phrase} {r behind : Reader}

theorem Modifies.skip (h : phrase.Modifies r) (hreach : r.next.Reaches behind) : phrase.Modifies behind :=
  have hle := Nat.le_trans r.textEnd_le_next hreach.offset_le
  have hstop := Nat.le_trans h.stop hle
  { h with
    start := Nat.lt_of_lt_of_le h.start (Nat.le_trans (Nat.le_add_right _ _) hle)
    stop := Nat.le_trans hstop (Nat.le_add_right _ _)
    clean := fun _ => hstop }

/-- The condition of a modifier. -/
theorem Modifies.add (h : phrase.Modifies r) (hpart : part.Tidy r) : (phrase.add part).Modifies r := by
  have hholder : phrase.kind.isHolder = true := by
    have hkind := h.kind
    cases hphrase : phrase.kind <;> rw [hphrase] at hkind <;> first | rfl | cases hkind
  refine ⟨h.kind, h.laid.addInner hholder hpart.inner, ?_, ?_, ?_, Nat.max_le.mpr ⟨h.stop, hpart.stop⟩, ?_⟩
  · rw [add_parts]
    exact List.forall_mem_append.mpr ⟨h.plain, List.forall_mem_singleton.mpr hpart.inner.plain⟩
  · exact Nat.lt_of_le_of_lt (Nat.add_le_add_right (Nat.min_le_left _ _) 1)
      (Nat.lt_of_lt_of_le h.filled (Nat.le_max_left _ _))
  · exact Nat.lt_of_le_of_lt (Nat.min_le_left _ _) h.start
  · intro hclean
    obtain ⟨hphrase, hadded⟩ := clean_add.mp hclean
    exact Nat.max_le.mpr ⟨h.clean hphrase, hpart.clean hadded⟩

theorem Modifies.successive {next : Phrase} (h : phrase.Modifies r) (hsees : r.sees .asterisk = true)
    (hnext : next.Modifies behind) (hstart : next.start = r.offset) : phrase.Successive next where
  kinds := ⟨h.kind, hnext.kind⟩
  plain := ⟨h.plain, hnext.plain⟩
  start := hstart ▸ Nat.le_of_lt h.start
  stop := by
    have hstop := h.stop
    rwa [Reader.bytes_text_of_asterisk hsees, ← hstart] at hstop
  behind := hnext.filled
  clean := hstart ▸ h.clean

/-- The asterisk and the name of a modifier. -/
theorem modifies_named (hordered : r.Ordered) (hsees : r.sees .asterisk = true) (hname : r.next.sees .ident = true)
    (hmodifier : Command.isOptionModifier r.next.word = true) :
    ((empty (.standardCommand r.next.word) r.offset).finish r.next.next).Modifies r.next.next := by
  have hnext := r.textEnd_le_next
  rw [Reader.bytes_text_of_asterisk hsees] at hnext
  have hfilled := Reader.offset_lt_next (Reader.rest_ne_nil_of_sees hname)
  have hlast : r.next.next.lastEnd ≤ r.next.next.offset := hordered.next.next
  have hstart : ((empty (.standardCommand r.next.word) r.offset).finish r.next.next).start = r.offset :=
    reach_start _ _
  have hstop : ((empty (.standardCommand r.next.word) r.offset).finish r.next.next).stop =
      max r.offset r.next.next.lastEnd := reach_stop _ _
  refine ⟨hmodifier, laid_reach (by omega), nofun, ?_, ?_, ?_, fun _ => ?_⟩ <;> omega

end Phrase

namespace Reader

variable {r behind : Reader} {phrase : Phrase}

/-- The modifiers that are read before an option follow each other. -/
theorem modifiersWithin_successive {budget : Nat} {found modifiers : Modifiers} (hordered : r.Ordered)
    (hmodifies : ∀ phrase ∈ found.phrases, phrase.Modifies r) (hpairs : found.phrases.Pairwise Successive)
    (hread : modifiersWithin budget found r = some (modifiers, behind)) :
    (∀ phrase ∈ modifiers.phrases, phrase.Modifies behind) ∧ modifiers.phrases.Pairwise Successive := by
  refine (modifiersWithin_induction (motive := fun phrases place => place.Ordered ∧
    (∀ phrase ∈ phrases, phrase.Modifies place) ∧ phrases.Pairwise Successive) hread ⟨hordered, hmodifies, hpairs⟩
    fun {place further phrases next} hat hmodifier ⟨hordered, hmodifies, hpairs⟩ => ?_).2
  have hnamed := Phrase.modifies_named hordered hat.asterisk hat.name hat.modifier
  have hgrows := hmodifier.grows
  have hstart : next.start = place.offset := hgrows.start_eq rfl
  obtain ⟨hnext, hreach⟩ : next.Modifies further ∧ place.next.Reaches further := by
    cases hmodifier with
    | alone => exact ⟨hnamed, place.next.reaches_next⟩
    | conditional hcondition =>
        have htidy := expression_neat place.next.next hordered.next.next _ (by rw [hcondition])
        have hregular := expression_regular place.next.next
        rw [hcondition] at htidy hregular
        cases hregular with
        | found hyields =>
            exact ⟨(hnamed.skip hyields.taken).add htidy, place.next.reaches_next.trans hyields.reads.reaches⟩
  refine ⟨hgrows.reaches.ordered hordered, List.forall_mem_append.mpr ⟨fun phrase hphrase => ?_,
    List.forall_mem_singleton.mpr hnext⟩,
    List.pairwise_append.mpr ⟨hpairs, List.pairwise_singleton _ _, fun left hleft right hright => ?_⟩⟩
  · exact (hmodifies phrase hphrase).skip hreach
  · rw [List.mem_singleton.mp hright]
    exact (hmodifies left hleft).successive hat.asterisk hnext hstart

/-! ### The content of a line -/

/-- A reader that comes to the end of a line takes something on the way, unless it was there before. -/
theorem Reaches.offset_lt_lastEnd (h : r.Reaches behind) (hordered : r.Ordered) (htrimmed : r.Trimmed)
    (hrest : r.rest ≠ []) (hend : behind.rest = []) : r.offset < behind.lastEnd := by
  have hmoved : (behind.rest = r.rest ∧ behind.offset = r.offset) ∨ r.offset < behind.lastEnd := by
    clear hend
    induction h with
    | refl => exact .inl ⟨rfl, rfl⟩
    | switch _ _ ih => exact ih
    | @advance middle taken left hmiddle hsplit ih =>
        have hlast : middle.lastEnd ≤ middle.offset := hmiddle.ordered hordered
        have hadvanced : (middle.advance taken left).lastEnd = middle.offset + Text.bytes taken := rfl
        rcases ih with ⟨hsame, hoffset⟩ | hlt
        · by_cases htaken : taken = []
          · have hleft : left = r.rest := by rw [← hsame, hsplit, htaken, List.nil_append]
            obtain ⟨hblank, hkept⟩ := Text.trimmed_iff.mp (hleft ▸ htrimmed : ∀ c ∈ left.head?, _)
            refine .inl ⟨hkept.trans hleft, ?_⟩
            show middle.offset + Text.bytes taken + (left.takeWhile Text.isBlank).length = r.offset
            rw [hblank, htaken, hoffset]
            rfl
          · have hpos := Text.bytes_pos htaken
            exact .inr (by omega)
        · exact .inr (by omega)
  rcases hmoved with ⟨hsame, _⟩ | hlt
  · exact absurd (hsame.symm.trans hend) hrest
  · exact hlt

theorem optionText_enlarges (option : Phrase) (hordered : r.Ordered) : option.Enlarges (optionText option r).1 :=
  prose_enlarging option _ ((r.reaches_accept .hash).ordered hordered)

/-- An option with its modifiers, where something is left of the line to be its text. -/
theorem optionText_laid {option : Phrase} {reuse : Option Reuse} {conditional : Bool} {before : Reader}
    (hkind : option.kind = .choiceOption reuse conditional) (hstart : option.start ≤ r.offset)
    (hmodifies : ∀ part ∈ option.parts, part.Modifies before) (hpairs : option.parts.Pairwise Successive)
    (hreach : r.Reaches before) (hordered : r.Ordered) (htrimmed : r.Trimmed) (hrest : r.rest ≠ []) :
    (optionText option before).1.Laid := by
  have henlarges := optionText_enlarges option (hreach.ordered hordered)
  have hcompletes := optionText_completes option before
  have hlast : r.offset < (optionText option before).2.lastEnd :=
    (hreach.trans hcompletes.grows.reaches).offset_lt_lastEnd hordered htrimmed hrest hcompletes.rest
  have hstop : (optionText option before).2.lastEnd ≤ (optionText option before).1.stop := Nat.le_max_right _ _
  have hfilled : (optionText option before).1.start < (optionText option before).1.stop := by
    have := henlarges.start
    omega
  refine henlarges.laid_of_filled (by rw [hkind]; rfl) (fun part hpart => ⟨(hmodifies part hpart).laid, ?_⟩) ?_
    (Nat.le_of_lt hfilled) fun _ => hfilled
  · rw [hkind]
    simp [Kind.admits, (hmodifies part hpart).kind]
  · exact hpairs.imp fun hsuccessive => .modifiers hkind hsuccessive

theorem plainOption_laid (hordered : r.Ordered) (htrimmed : r.Trimmed) (hrest : r.rest ≠ []) :
    (plainOption r).1.phrase.Laid :=
  @optionText_laid r (.begin (.choiceOption none false) r) _ _ _ rfl (Nat.le_refl _) nofun .nil .refl hordered htrimmed
    hrest

theorem modifiedOption_laid (context : Context) (hordered : r.Ordered) (htrimmed : r.Trimmed) (hrest : r.rest ≠ [])
    {option : Statement} (hfound : (modifiedOption context r).1 = some option) : option.phrase.Laid := by
  simp only [modifiedOption] at hfound
  split at hfound
  · cases hfound
  · rename_i found before hread
    split at hfound
    · have hgrows : (Phrase.begin (.choiceOption found.reuse found.conditional) r).Grows r _ _ :=
        modifiersWithin_grows .refl hread
      have hparts : (Phrase.around (.choiceOption found.reuse found.conditional) r.offset found.phrases).parts =
          found.phrases := List.append_nil _
      obtain ⟨hmodifies, hpairs⟩ := modifiersWithin_successive hordered (List.forall_mem_nil _) .nil hread
      rw [← hparts] at hmodifies hpairs
      have hlaid := optionText_laid rfl (Phrase.around_start_le _ _ _) hmodifies hpairs hgrows.reaches hordered
        htrimmed hrest
      cases hfound
      dsimp only
      split
      · exact hlaid
      · exact hlaid.flag _ _ _
    · cases hfound

theorem sceneListEntry_laid (hordered : r.Ordered) (htrimmed : r.Trimmed) (hrest : r.rest ≠ []) :
    (sceneListEntry r).1.phrase.Laid := by
  have haccept := r.reaches_accept .dollar
  simp only [sceneListEntry]
  split
  · have hend := (haccept.trans (reaches_skipLine _)).offset_lt_lastEnd hordered htrimmed hrest (skipLine_rest _)
    refine Phrase.laid_of_filled rfl (Nat.lt_of_le_of_lt ?_ (Nat.lt_of_lt_of_le hend (Nat.le_max_right _ _)))
    exact (markRest_enlarges (.empty .sceneRef r.offset) .sceneNameExpected _).start
  · rename_i hend
    exact finishLine_laid (leafRun_laid .sceneRef (haccept.trimmed htrimmed) hend) _

theorem checkChoice_laid (context : Context) {statement : Statement} (h : statement.phrase.Laid) (r : Reader) :
    (checkChoice context statement r).phrase.Laid := by
  simp only [checkChoice]
  split
  · exact h.flag _ _ _
  · exact h

theorem contentLine_laid (context : Context) (type : LineType) (hordered : r.Ordered) (htrimmed : r.Trimmed)
    (hrest : r.rest ≠ []) : (contentLine context type r).1.phrase.Laid := by
  have htext : (textLine r).1.phrase.Laid :=
    (prose_enlarging (.begin .textLine r) r hordered).laid (Phrase.laid_empty rfl rfl _) rfl
  unfold contentLine
  split
  · exact sceneListEntry_laid hordered htrimmed hrest
  · exact htext
  · exact plainOption_laid hordered htrimmed hrest
  · exact (plainOption_laid hordered htrimmed hrest).flag _ _ _
  · have hoption := fun option => @modifiedOption_laid r context hordered htrimmed hrest option
    unfold command
    rcases modifiedOption_cases context r with ⟨option, behind, hfound, _⟩ | hnone
    · rw [hfound] at hoption ⊢
      exact hoption option rfl
    · rw [hnone]
      exact commandNamed_laid context hordered.next (r.reaches_next.trimmed htrimmed)
        (Nat.lt_of_lt_of_le (offset_lt_next hrest) (r.next.reaches_next.lastEnd_le hordered.next))
  · exact htext

/-- Every line with content holds a statement that is laid out well. -/
theorem statement_laid (context : Context) (type : LineType) (hordered : r.Ordered) (htrimmed : r.Trimmed)
    {statement : Statement} (hfound : (r.statement context type).1 = some statement) : statement.phrase.Laid := by
  simp only [Reader.statement] at hfound
  split at hfound
  · cases hfound
  · rename_i hend
    have hrest : r.rest ≠ [] := fun hnil => hend (atEnd_iff.mpr hnil)
    split at hfound
    · cases hfound
      exact (Phrase.laid_empty rfl rfl _ : (Phrase.begin .comment r).Laid).finish _
    · cases hfound
      exact checkChoice_laid context (contentLine_laid context type hordered htrimmed hrest) _

end Reader

end Gamebook
