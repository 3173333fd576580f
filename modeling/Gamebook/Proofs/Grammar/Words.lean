import Gamebook.Proofs.Grammar.Statement
import Gamebook.Proofs.Grammar.Tidy

/-!
What prose is made of. On its way to the end of the line prose takes every word as a part, takes the constructs
that open, and passes over everything else; so a trace of the way can be read off with the parts that it leaves.
Behind a construct the rest of the line is cut like prose, whatever it was cut like before.
-/

namespace Gamebook

namespace Kind

def isConstruct : Kind → Bool
  | .variableReplacement _ | .multiReplace => true
  | _ => false

def isWord : Kind → Bool
  | .realWord => true
  | _ => false

theorem isWord_of_isConstruct {kind : Kind} (h : kind.isConstruct = true) : kind.isWord = false := by
  cases kind <;> first | rfl | cases h

theorem commandName?_of_isOption {kind : Kind} (h : kind.isOption = true) : kind.commandName? = none := by
  cases kind <;> first | rfl | cases h

theorem isLeaf_of_isConstruct {kind : Kind} (h : kind.isConstruct = true) : kind.isLeaf = false := by
  cases kind <;> first | rfl | cases h

end Kind

theorem CommandForm.kind_ne_textLine (name : String) (form : CommandForm) : form.kind name ≠ .textLine := by
  cases form
  case plain =>
    unfold kind
    cases Command.classify name <;> nofun
  all_goals nofun

namespace Reader

variable {r behind : Reader} {phrase part : Phrase} {parts : List Phrase}

@[simp] theorem next_mode (r : Reader) : r.next.mode = r.mode := by
  unfold next
  split <;> rfl

/-- A construct is read from its sign on, up to where prose goes on. -/
structure Interrupted (r : Reader) (part : Phrase) (behind : Reader) : Prop where
  kind : part.kind.isConstruct = true
  start : part.start = r.offset
  taken : r.next.Reaches behind
  mode : behind.mode = .text
  stop : behind.lastEnd ≤ part.stop

/-- The way of prose to the end of the line, with the parts that it leaves behind. -/
inductive Passes : Reader → List Phrase → Prop
  | done {r : Reader} (hrest : r.rest = []) : Passes r []
  | word {r : Reader} {parts : List Phrase} (hkind : r.kind? = some .word) (hmore : Passes r.next parts) :
      Passes r ((r.leaf .realWord).1 :: parts)
  | construct {r behind : Reader} {part : Phrase} {parts : List Phrase}
      (hsign : r.kind? = some .dollar ∨ r.kind? = some .atSign) (hpart : r.Interrupted part behind)
      (hmore : Passes behind parts) : Passes r (part :: parts)
  | other {r : Reader} {kind : TokenKind} {parts : List Phrase} (hkind : r.kind? = some kind) (hword : kind ≠ .word)
      (hmore : Passes r.next parts) : Passes r parts

/-- Behind the brace that closes a construct there is prose. -/
theorem closeBrace_behind (phrase : Phrase) (r : Reader) :
    (closeBrace phrase r).2.mode = .text ∧ (closeBrace phrase r).2.lastEnd ≤ (closeBrace phrase r).1.stop := by
  simp only [closeBrace]
  split <;> exact ⟨rfl, Nat.le_max_right _ _⟩

/-- A phrase that is begun at a sign and is read on behind it, and closed by a brace, is a construct. -/
theorem interrupted_of_closeBrace {kind : Kind} (hkind : kind.isConstruct = true)
    (h : (Phrase.begin kind r).Grows r phrase behind) (htaken : r.next.Reaches behind) :
    r.Interrupted (closeBrace phrase behind).1 (closeBrace phrase behind).2 := by
  have hleaf : phrase.kind.isLeaf = false := by
    rw [h.kind_eq]
    exact Kind.isLeaf_of_isConstruct hkind
  have hclosed := closeBrace_extends hleaf behind
  obtain ⟨hmode, hstop⟩ := closeBrace_behind phrase behind
  refine ⟨?_, (h.trans hclosed).start_eq rfl, htaken.trans hclosed.reaches, hmode, hstop⟩
  rw [(h.trans hclosed).kind_eq]
  exact hkind

theorem replacement_interrupted (h : replacement r = (some part, behind)) : r.Interrupted part behind := by
  have hmarked := reaches_bangs r.rest.length r.next
  simp only [replacement] at h
  split at h
  · cases h
  · rename_i fold _
    split at h
    · have hvalue : (Phrase.begin (.variableReplacement fold) r).Grows r.next _ _ :=
        inner_grows expression_regular (.skip .refl (hmarked.trans ((reaches_next _).switch .command))) rfl
      have hread := (Phrase.Grows.skip .refl r.reaches_next).trans hvalue
      cases h
      exact @interrupted_of_closeBrace r _ _ (.variableReplacement fold) rfl hread hvalue.reaches
    · cases h

theorem multireplace_interrupted {content : Phrase → Reader → Phrase × Reader} (hcontent : Extending content)
    {budget : Nat} (h : multireplace budget content r = (some part, behind)) : r.Interrupted part behind := by
  simp only [multireplace] at h
  split at h
  · have hopened := r.next.reaches_next.switch .command
    have hselector : (Phrase.begin .multiReplace r).Grows r.next _ _ :=
      (Phrase.Grows.skip .refl hopened).addOr (term_regular _) (rfl : Rule.expressionExpected.IsError) rfl
    have hgrown := (Phrase.Grows.skip hselector (.switch .refl .text)).trans (branches_extends hcontent budget _ _)
    have hread := (Phrase.Grows.skip .refl r.reaches_next).trans hgrown
    have hkind := hread.kind_eq
    cases h
    refine @interrupted_of_closeBrace r _ _ .multiReplace rfl ?_ hgrown.reaches
    split
    · exact grows_flagWhole hread (.inl (by decide)) (by rw [hkind]; exact Bool.noConfusion)
    · exact hread
  · cases h

/-- What prose makes of a lexeme: a word, a construct, or nothing. -/
theorem prosePart_cases {budget : Nat} {kind : TokenKind} (hkind : r.kind? = some kind) :
    (kind = .word ∧ prosePart budget kind r = (some (r.leaf .realWord).1, r.next)) ∨
      (∃ part behind, (r.kind? = some .dollar ∨ r.kind? = some .atSign) ∧
        prosePart budget kind r = (some part, behind) ∧ r.Interrupted part behind) ∨
      kind ≠ .word ∧ prosePart budget kind r = (none, r) := by
  have hprose := proseWithin_extending budget endsBranch
  have hregular := prosePart_mayYield hprose r kind
  cases hpart : prosePart budget kind r with
  | mk part behind =>
      rw [hpart] at hregular
      unfold prosePart at hpart
      split at hpart
      · exact .inl ⟨rfl, by rw [← hpart]; rfl⟩
      · cases hregular with
        | none => exact .inr (.inr ⟨nofun, rfl⟩)
        | found => exact .inr (.inl ⟨_, _, .inl hkind, rfl, replacement_interrupted hpart⟩)
      · cases hregular with
        | none => exact .inr (.inr ⟨nofun, rfl⟩)
        | found => exact .inr (.inl ⟨_, _, .inr hkind, rfl, multireplace_interrupted hprose hpart⟩)
      · rename_i hword _ _
        cases hpart
        exact .inr (.inr ⟨hword, rfl⟩)

/-- Prose leaves what is on its way. -/
theorem proseWithin_passes {budget : Nat} (hbudget : r.rest.length ≤ budget) (phrase : Phrase) :
    ∃ parts, r.Passes parts ∧
      (proseWithin budget (fun _ => false) phrase r).1.parts = phrase.parts ++ parts := by
  induction budget generalizing phrase r with
  | zero =>
      exact ⟨[], .done (List.eq_nil_of_length_eq_zero (Nat.le_zero.mp hbudget)), (List.append_nil _).symm⟩
  | succ budget ih =>
      rw [proseWithin_succ]
      split
      · rename_i hkind
        exact ⟨[], .done (kind?_eq_none_iff.mp hkind), (List.append_nil _).symm⟩
      · rename_i kind hkind
        have hlt := next_length_lt (rest_ne_nil_of_kind? hkind)
        rw [if_neg Bool.false_ne_true]
        rcases @prosePart_cases r budget kind hkind with
            ⟨rfl, heq⟩ | ⟨part, behind, hsign, heq, hpart⟩ | ⟨hword, heq⟩ <;>
          rw [heq] <;> dsimp only
        · obtain ⟨parts, hpasses, hparts⟩ := @ih r.next (by omega) (phrase.add (r.leaf .realWord).1)
          exact ⟨_, .word hkind hpasses, by rw [hparts, Phrase.add_parts, List.append_assoc]; rfl⟩
        · have hle := hpart.taken.length_le
          obtain ⟨parts, hpasses, hparts⟩ := @ih behind (by omega) (phrase.add part)
          exact ⟨_, .construct hsign hpart hpasses, by rw [hparts, Phrase.add_parts, List.append_assoc]; rfl⟩
        · obtain ⟨parts, hpasses, hparts⟩ := @ih r.next (by omega) phrase
          exact ⟨parts, .other hkind hword hpasses, hparts⟩

theorem textLine_passes (r : Reader) :
    r.Passes (textLine r).1.phrase.parts ∧ (textLine r).1.phrase.start = r.offset := by
  obtain ⟨parts, hpasses, hparts⟩ := @proseWithin_passes r r.budget (Nat.le_succ _) (.begin .textLine r)
  have hwhole : (textLine r).1.phrase.parts = parts := hparts
  rw [hwhole]
  exact ⟨hpasses, (prose_extending (.begin .textLine r) r).start_eq rfl⟩

/-! ### What the parts are -/

/-- A word covers itself, and a construct its sign. -/
theorem Passes.filled (h : r.Passes parts) (hordered : r.Ordered) : ∀ part ∈ parts, part.start < part.stop := by
  induction h with
  | done => exact nofun
  | @word r _ hkind _ ih =>
      refine List.forall_mem_cons.mpr ⟨?_, ih (r.reaches_next.ordered hordered)⟩
      have hlt := offset_lt_next (rest_ne_nil_of_kind? hkind)
      show min r.offset r.offset < max r.offset r.next.lastEnd
      omega
  | @construct r behind part _ hsign hpart _ ih =>
      have hnext := r.reaches_next.ordered hordered
      refine List.forall_mem_cons.mpr ⟨?_, ih (hpart.taken.ordered hnext)⟩
      have hlt := offset_lt_next (hsign.elim rest_ne_nil_of_kind? rest_ne_nil_of_kind?)
      have hle := hpart.taken.lastEnd_le hnext
      have hstart := hpart.start
      have hstop := hpart.stop
      omega
  | @other r _ _ _ _ _ ih => exact ih (r.reaches_next.ordered hordered)

theorem kind?_ne_word (hmode : r.mode = .command) : r.kind? ≠ some .word := by
  intro hkind
  obtain ⟨lexeme, hlexeme, hword⟩ := Option.map_eq_some_iff.mp hkind
  obtain ⟨⟨_, left⟩, hfirst, rfl⟩ := Option.map_eq_some_iff.mp hlexeme
  rw [hmode] at hfirst
  have hnone : ∀ pattern ∈ Mode.command.patterns, pattern.kind ≠ .word := by
    simp [Mode.patterns, Pattern.ofCommands, Pattern.signs, Pattern.fixed]
  rcases Lexeme.pattern_cases_of_first? hfirst with ⟨pattern, hmem, hsame, -⟩ | ⟨c, hdelim⟩
  · exact hnone pattern hmem (hsame.trans hword)
  · cases hdelim.symm.trans hword

/-- There are no words where the line is cut like a command, and so none before the first construct. -/
theorem Passes.command (h : r.Passes parts) (hmode : r.mode = .command) :
    parts = [] ∨ ∃ before behind part more, r.Reaches before ∧ before.mode = .command ∧
      before.Interrupted part behind ∧ behind.Passes more ∧ parts = part :: more := by
  induction h with
  | done => exact .inl rfl
  | word hkind => exact absurd hkind (kind?_ne_word hmode)
  | construct _ hpart hmore => exact .inr ⟨_, _, _, _, .refl, hmode, hpart, hmore, rfl⟩
  | @other r _ _ _ _ _ ih =>
      refine (ih (r.next_mode.trans hmode)).imp id ?_
      rintro ⟨before, behind, part, more, hreach, hcut, hpart, hmore⟩
      exact ⟨before, behind, part, more, r.reaches_next.trans hreach, hcut, hpart, hmore⟩

/-! ### The kinds of statements -/

/-- A command is of the kind that its name and its form say. -/
theorem commandNamed_kind (start : Nat) (context : Context) (htrimmed : r.Trimmed) :
    (commandNamed start context r).1.phrase.kind = (CommandForm.ofName r.word).kind r.word :=
  (commandNamed_completes start context htrimmed).grows.kind_eq

theorem textLine_kind (r : Reader) : (textLine r).1.phrase.kind = .textLine := (prose_completes _ _).grows.kind_eq

theorem sceneListEntry_kind (r : Reader) : (sceneListEntry r).1.phrase.kind = .sceneRef := by
  simp only [sceneListEntry]
  split
  · exact (markRest_completes (.empty .sceneRef r.offset) (by decide) _).grows.kind_eq
  · exact (finishLine_completes _ _).grows.kind_eq

theorem modifiedOption_kind {context : Context} {option : Statement}
    (hfound : modifiedOption context r = (some option, behind)) : option.phrase.kind.isOption = true := by
  simp only [modifiedOption] at hfound
  split at hfound
  · cases hfound
  · rename_i found before _
    split at hfound
    · have htext := (optionText_completes
        (.around (.choiceOption found.reuse found.conditional) r.offset found.phrases) before).grows.kind_eq
      cases hfound
      split
      · exact congrArg Kind.isOption htext
      · exact congrArg Kind.isOption htext
    · cases hfound

/-- What a line with content holds: a scene, prose, an option or a command. -/
theorem contentLine_cases (context : Context) (type : LineType) (r : Reader) :
    (contentLine context type r).1.phrase.kind = .sceneRef ∨ contentLine context type r = textLine r ∨
      (contentLine context type r).1.phrase.kind.isOption = true ∨
      type = .command ∧ contentLine context type r = commandNamed r.offset context r.next := by
  have hoption : (plainOption r).1.phrase.kind.isOption = true :=
    congrArg Kind.isOption r.plainOption_completes.grows.kind_eq
  unfold contentLine
  split
  · exact .inl r.sceneListEntry_kind
  · exact .inr (.inl rfl)
  · exact .inr (.inr (.inl hoption))
  · exact .inr (.inr (.inl hoption))
  · unfold command
    rcases modifiedOption_cases context r with ⟨option, behind, hfound, -⟩ | hnone
    · rw [hfound]
      exact .inr (.inr (.inl (modifiedOption_kind hfound)))
    · rw [hnone]
      exact .inr (.inr (.inr ⟨rfl, rfl⟩))
  · exact .inr (.inl rfl)

/-- To check a statement against its context is at most to mark it. -/
theorem checkChoice_same (context : Context) (statement : Statement) (behind : Reader) :
    (checkChoice context statement behind).phrase.kind = statement.phrase.kind ∧
      (checkChoice context statement behind).phrase.parts = statement.phrase.parts ∧
      (checkChoice context statement behind).phrase.start = statement.phrase.start := by
  unfold checkChoice
  dsimp only
  split
  · exact ⟨rfl, rfl, Nat.min_self _⟩
  · exact ⟨rfl, rfl, rfl⟩

/-! ### Statements -/

/-- A statement is a comment, or what its line holds apart from comments, checked against where it stands. -/
theorem statement_cases {context : Context} {type : LineType} {statement : Statement}
    (hfound : (r.statement context type).1 = some statement) :
    statement.phrase.kind = .comment ∨ type ≠ .comment ∧
      statement = checkChoice context (contentLine context type r).1 (contentLine context type r).2 := by
  simp only [Reader.statement] at hfound
  split at hfound
  · cases hfound
  · split at hfound
    · cases hfound
      exact .inl rfl
    · rename_i hcomment
      cases hfound
      exact .inr ⟨hcomment, rfl⟩

/-- A statement with the name of a command is that command. -/
theorem statement_commandNamed {context : Context} {type : LineType} {statement : Statement}
    (hfound : (r.statement context type).1 = some statement)
    (hname : statement.phrase.kind.commandName?.isSome = true) :
    type = .command ∧ statement = checkChoice context (commandNamed r.offset context r.next).1
      (commandNamed r.offset context r.next).2 := by
  rcases statement_cases hfound with hcomment | ⟨-, hcontent⟩
  · rw [hcomment] at hname
    cases hname
  · obtain ⟨hsame, -⟩ := checkChoice_same context (contentLine context type r).1 (contentLine context type r).2
    rw [hcontent, hsame] at hname
    rcases contentLine_cases context type r with hscene | htext | hoption | ⟨htype, hcommand⟩
    · rw [hscene] at hname
      cases hname
    · rw [htext, textLine_kind] at hname
      cases hname
    · rw [Kind.commandName?_of_isOption hoption] at hname
      cases hname
    · exact ⟨htype, by rw [hcontent, hcommand]⟩

/-! ### Lines of prose -/

theorem contentLine_passes {context : Context} {type : LineType} (htrimmed : r.Trimmed)
    (hkind : (contentLine context type r).1.phrase.kind = .textLine) :
    r.Passes (contentLine context type r).1.phrase.parts ∧
      (contentLine context type r).1.phrase.start = r.offset := by
  rcases contentLine_cases context type r with hscene | htext | hoption | ⟨-, hcommand⟩
  · rw [hscene] at hkind
    cases hkind
  · rw [htext]
    exact r.textLine_passes
  · rw [hkind] at hoption
    cases hoption
  · rw [hcommand, commandNamed_kind _ _ (r.reaches_next.trimmed htrimmed)] at hkind
    exact absurd hkind (CommandForm.kind_ne_textLine _ _)

/-- Whatever counts as a line of prose is read as such, and is no comment. -/
theorem statement_passes {context : Context} {type : LineType} {statement : Statement} (htrimmed : r.Trimmed)
    (hfound : (r.statement context type).1 = some statement) (hkind : statement.phrase.kind = .textLine) :
    type ≠ .comment ∧ r.Passes statement.phrase.parts ∧ statement.phrase.start = r.offset := by
  rcases statement_cases hfound with hcomment | ⟨hcomment, hcontent⟩
  · cases hcomment.symm.trans hkind
  · obtain ⟨hsame, hparts, hstart⟩ := checkChoice_same context (contentLine context type r).1 (contentLine context type r).2
    rw [hcontent, hsame] at hkind
    rw [hcontent, hparts, hstart]
    exact ⟨hcomment, contentLine_passes htrimmed hkind⟩

end Reader

end Gamebook
