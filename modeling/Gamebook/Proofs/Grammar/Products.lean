import Gamebook.Proofs.Grammar.Modifiers
import Gamebook.Proofs.Grammar.Placement
import Gamebook.Proofs.Grammar.Types

/-!
Conditions before further modifiers. The asterisk of the further modifier is taken as the operator of a product, whose
left operand is the group of the condition. So the command of the condition does not hold the group itself, and
nothing that is read of such a line is an option behind all of its modifiers.
-/

namespace Gamebook

namespace Phrase

/-- The phrase is no term, as operations are not. -/
def Compound (phrase : Phrase) : Prop := ∀ type form, phrase.kind ≠ .term type form

/-- The phrase holds a group and nothing else. -/
def HoldsGroup (phrase : Phrase) : Prop := ∃ group type, phrase.parts = [group] ∧ group.kind = .term type .group

theorem HoldsGroup.of_shift {phrase : Phrase} {distance : Nat} (h : (phrase.shift distance).HoldsGroup) :
    phrase.HoldsGroup := by
  obtain ⟨moved, type, hparts, hkind⟩ := h
  rw [shift_parts] at hparts
  obtain ⟨group, hgroup, rfl⟩ := List.map_eq_singleton_iff.mp hparts
  exact ⟨group, type, hgroup, (shift_kind distance group).symm.trans hkind⟩

end Phrase

namespace Reader

variable {r behind : Reader} {phrase grown left : Phrase} {level : Precedence} {op : Operator} {operand : Reading}

/-! ### Products -/

theorem compound_operationOn (left : Phrase) (op : Operator) (r : Reader) (found : Option Phrase × Reader) :
    (operationOn left op r found).Compound := by
  intro type form
  have hkind : (operationOn left op r found).kind = op.kind (op.infer left.operand (Phrase.operand? found.1)) :=
    Phrase.addOr_kind _ _ _ _
  rw [hkind]
  exact op.kind_ne_term _ _ _

theorem compound_chain (h : left.Compound) (budget : Nat) (r : Reader) :
    (chain level operand budget left r).1.Compound := by
  induction budget generalizing left r with
  | zero => exact h
  | succ budget ih =>
      cases hop : r.operatorAt? level with
      | none =>
          rw [chain_none hop]
          exact h
      | some op =>
          rw [chain_some hop]
          exact ih (compound_operationOn left op r _) _

/-- Where an operator follows an operand, they are the beginning of an operation. -/
theorem compound_operations {budget : Nat} (hbudget : 0 < budget) (hoperand : operand r = (some left, behind))
    (hop : left.Compound ∨ ∃ op, behind.operatorAt? level = some op) :
    ∃ whole further, operations budget operand level r = (some whole, further) ∧ whole.Compound := by
  obtain ⟨budget, rfl⟩ := Nat.exists_eq_add_one.mpr hbudget
  have heq : operations (budget + 1) operand level r = (some (chain level operand (budget + 1) left behind).1,
      (chain level operand (budget + 1) left behind).2) := by
    rw [operations, hoperand]
  refine ⟨_, _, heq, ?_⟩
  rcases hop with hcompound | ⟨op, hop⟩
  · exact compound_chain hcompound _ _
  · rw [chain_some hop]
    exact compound_chain (compound_operationOn left op behind _) _ _

/-- An operator belongs to one level. -/
theorem operatorAt?_of_ne {other : Precedence} (hop : r.operatorAt? level = some op) (hne : other ≠ level) :
    r.operatorAt? other = none := by
  obtain ⟨hfound, hlevel⟩ := Option.filter_eq_some_iff.mp hop
  rw [operatorAt?, hfound, Option.filter_some, if_neg]
  rw [beq_iff_eq.mp hlevel, beq_iff_eq]
  exact hne.symm

/-- A term that an operator follows is not the whole expression. -/
theorem expression_of_operator {term : Phrase} (hrest : r.rest ≠ [])
    (hterm : termOver r.rest.length (expressionWithin r.rest.length) r = (some term, behind))
    (hop : behind.operatorAt? level = some op) :
    ∃ whole further, expression r = (some whole, further) ∧ whole.Compound := by
  have hbudget : 0 < r.rest.length := List.length_pos_iff.mpr hrest
  have hlevels := @expressionOver_induction
    (fun rank rule => (level.rank < rank → rule r = (some term, behind)) ∧
      (rank ≤ level.rank → ∃ whole further, rule r = (some whole, further) ∧ whole.Compound))
    r.rest.length (termOver r.rest.length (expressionWithin r.rest.length)) ⟨fun _ => hterm, ?_⟩ ?_
  · exact hlevels.2 (Nat.zero_le _)
  · intro hrank
    exact absurd hrank (Nat.not_le.mpr (by cases level <;> decide))
  · rintro other operand ⟨hbefore, hbehind⟩
    refine ⟨fun hlt => ?_, fun hle => ?_⟩
    · have hsame := hbefore (Nat.lt_succ_of_lt hlt)
      rw [operations, hsame]
      simp only [chain_none (operatorAt?_of_ne hop (show other ≠ level by rintro rfl; exact Nat.lt_irrefl _ hlt))]
    · rcases Nat.lt_or_eq_of_le hle with hlt | heq
      · obtain ⟨whole, further, hwhole, hcompound⟩ := hbehind hlt
        exact compound_operations hbudget hwhole (.inl hcompound)
      · obtain rfl := Precedence.rank_inj heq
        exact compound_operations hbudget (hbefore (Nat.lt_succ_self _)) (.inr ⟨op, hop⟩)

/-- A group before an asterisk is the left operand of a product. -/
theorem Groups.exists_product {text between more : Text} (h : r.Groups text (between ++ '*' :: more) phrase behind)
    (htrimmed : r.Trimmed) (hbetween : ∀ c ∈ between, Text.isBlank c = true) :
    ∃ whole further, expression r = (some whole, further) ∧ whole.Compound := by
  have hrest : r.rest ≠ [] := by
    rw [h.ahead]
    exact List.cons_ne_nil _ _
  obtain ⟨offset, hlexemes⟩ := h.lexemes
  have hfirst : Lexeme.first? .command ((between ++ '*' :: more).dropWhile Text.isBlank) =
      some (⟨.asterisk, ['*']⟩, more) := by
    rw [Text.dropWhile_blanks hbetween]
    exact Lexeme.first?_sign .command (by decide) more
  rw [Lexeme.sequence_of_first? hfirst] at hlexemes
  have hbefore := before_of_lexemes (h.reaches.trimmed htrimmed) hlexemes
  exact expression_of_operator hrest h.term (@operatorAt?_eq_some _ _ _ .multiplicative .multiply hbefore rfl rfl)

/-! ### Modifiers -/

/-- A condition before a further modifier does not hold its group. -/
theorem modifiersWithin_product {selectable : Bool} {gap text between more : Text} {shape : Shape}
    (hmode : r.mode = .command) (htrimmed : r.Trimmed) (hordered : r.Ordered)
    (hrest : r.rest = (Modifier.condition selectable gap text).written ++ (between ++ '*' :: more))
    (hgap : ∀ c ∈ gap, Text.isBlank c = true) (hbetween : ∀ c ∈ between, Text.isBlank c = true)
    (hderives : Derives 0 (Lexeme.sequence .command 0 text) shape) (budget : Nat) (found : Modifiers) :
    ∃ command behind, modifiersWithin (budget + 1) found r = modifiersWithin budget
        { found with phrases := found.phrases ++ [command], conditional := true } behind ∧ ¬command.HoldsGroup := by
  obtain ⟨hmeets, -, group, place, hgroup⟩ := exists_condition hmode htrimmed hordered hrest hgap hderives
  have hreach : r.Reaches r.next.next := r.reaches_next.trans r.next.reaches_next
  obtain ⟨whole, behind, hexpression, hcompound⟩ := hgroup.exists_product (hreach.trimmed htrimmed) hbetween
  refine ⟨(r.commandOf (.condition selectable gap text)).add whole, behind, ?_, ?_⟩
  · rw [hmeets.modifiersWithin_eq budget found]
    simp only [Modifier.reuse?, hexpression]
  · rintro ⟨part, type, hparts, hkind⟩
    obtain rfl : whole = part := List.singleton_inj.mp hparts
    exact hcompound type .group hkind

/-- What was read of modifiers stays in front of what is read further on. -/
theorem modifiersWithin_prefix {budget : Nat} {found all : Modifiers}
    (hread : modifiersWithin budget found r = some (all, behind)) : found.phrases <+: all.phrases := by
  induction budget generalizing found r with
  | zero =>
      cases hread
      exact List.prefix_rfl
  | succ budget ih =>
      unfold modifiersWithin at hread
      dsimp only at hread
      split at hread
      · split at hread
        · split at hread
          · exact (List.prefix_append _ _).trans (ih hread)
          · split at hread
            · cases hread
            · exact (List.prefix_append _ _).trans (ih hread)
        · cases hread
      · cases hread
        exact List.prefix_rfl

/-- Behind the phrases there were is what was read next. -/
theorem getElem?_of_modifiersWithin {budget : Nat} {found all : Modifiers} {phrases : List Phrase} {command : Phrase}
    (hread : modifiersWithin budget found r = some (all, behind)) (hfound : found.phrases = phrases ++ [command]) :
    all.phrases[phrases.length]? = some command := by
  obtain ⟨others, hall⟩ := modifiersWithin_prefix hread
  rw [← hall, hfound, List.append_assoc, List.getElem?_append_right (Nat.le_refl _), Nat.sub_self]
  rfl

/-- Where a condition stands before another modifier, there is one whose command does not hold its group. -/
theorem exists_product_of_precede {modifiers : List Modifier} {text rest : Text}
    (h : Modifier.Precede modifiers text ('#' :: rest))
    (hearly : ∃ modifier ∈ modifiers.dropLast, modifier.isCondition = true) (hmode : r.mode = .command)
    (htrimmed : r.Trimmed) (hordered : r.Ordered) (hrest : r.rest = text) {budget : Nat}
    (hbudget : text.length < budget) {found all : Modifiers}
    (hread : modifiersWithin budget found r = some (all, behind)) :
    ∃ index modifier command, modifiers[index]? = some modifier ∧ modifier.isCondition = true ∧
      all.phrases[found.phrases.length + index]? = some command ∧ ¬command.HoldsGroup := by
  induction modifiers generalizing r text budget found with
  | nil =>
      obtain ⟨modifier, hmem, -⟩ := hearly
      cases hmem
  | cons modifier others ih =>
      cases h with
      | @cons _ _ gap text _ hproper hgap hmore =>
          obtain ⟨budget, rfl⟩ := Nat.exists_eq_add_one.mpr (Nat.zero_lt_of_lt hbudget)
          have hshorter : text.length < budget :=
            Nat.lt_of_lt_of_le (modifier.length_lt_written gap text) (Nat.le_of_lt_succ hbudget)
          have hothers : others ≠ [] := by
            rintro rfl
            obtain ⟨modifier, hmem, -⟩ := hearly
            cases hmem
          rw [List.dropLast_cons_of_ne_nil hothers] at hearly
          cases modifier with
          | reuse own =>
              obtain ⟨command, place, hstep, -, hreach, hmode', hrest'⟩ :=
                modifiersWithin_reuse hmode hrest (Modifier.Precede.apart hproper hgap hmore) budget found
              have hleft : place.rest = text := hrest'.trans (hmore.dropWhile_gap hgap)
              have hlater : ∃ modifier ∈ others.dropLast, modifier.isCondition = true := by
                obtain ⟨modifier, hmem, hcondition⟩ := hearly
                rcases List.mem_cons.mp hmem with rfl | hmem
                · cases hcondition
                · exact ⟨modifier, hmem, hcondition⟩
              obtain ⟨index, modifier, product, hmodifier, hcondition, hproduct, hgroup⟩ := ih hmore hlater hmode'
                (hreach.trimmed htrimmed) (hreach.ordered hordered) hleft hshorter (hstep ▸ hread)
              rw [List.length_append, List.length_singleton, Nat.add_assoc, Nat.add_comm 1] at hproduct
              exact ⟨index + 1, modifier, product, hmodifier, hcondition, hproduct, hgroup⟩
          | condition selectable inner expression =>
              -- the text of the next modifier begins with its asterisk
              obtain ⟨left, htext⟩ : ∃ left, text = '*' :: left := by
                cases hmore with
                | nil => exact absurd rfl hothers
                | cons _ _ _ => exact ⟨_, rfl⟩
              subst htext
              obtain ⟨hinner, shape, hderives⟩ := hproper
              obtain ⟨command, place, hstep, hgroup⟩ :=
                modifiersWithin_product hmode htrimmed hordered hrest hinner hgap hderives budget found
              exact ⟨0, _, command, rfl, rfl, getElem?_of_modifiersWithin (hstep ▸ hread) rfl, hgroup⟩

/-! ### Options -/

/-- What a phrase held stays in front of what it grows by. -/
theorem parts_prefix (h : phrase.Grows r grown behind) : phrase.parts <+: grown.parts := by
  induction h with
  | refl => exact List.prefix_rfl
  | skip _ _ ih => exact ih
  | add _ _ _ ih _ =>
      rw [Phrase.add_parts]
      exact ih.trans (List.prefix_append _ _)
  | settle _ ih =>
      rw [Phrase.settled_parts]
      exact ih
  | finish _ ih => exact ih
  | flag _ _ _ _ _ ih => exact ih

/-- What a command is does not depend on where it stands, so that no command is an option. -/
theorem isOption_commandNamed (start : Nat) (context : Context) (r : Reader) :
    (commandNamed start context r).1.phrase.kind.isOption = false := by
  have hsame (other : Context) : (commandNamed start context r).1.phrase = (commandNamed start other r).1.phrase := by
    unfold commandNamed
    dsimp only
    split <;> rfl
  refine Bool.eq_false_iff.mpr fun hoption => ?_
  -- an option would be marked outside of choices, and is marked nowhere
  have hmarked : ∃ issue ∈ (commandNamed start .body r).1.phrase.issues, issue.rule = .optionOutsideChoice :=
    (commandNamed_placed .body start r).misplaced.mpr ⟨hsame .body ▸ hoption, by decide⟩
  rw [← hsame .body, hsame .choice] at hmarked
  exact ((commandNamed_placed .choice start r).misplaced.mp hmarked).2 rfl

theorem parts_modifiedOption {option : Statement} (hfound : modifiedOption .choice r = (some option, behind)) :
    ∃ all before tail, modifiersWithin r.budget {} r = some (all, before) ∧
      option.phrase.parts = all.phrases ++ tail := by
  simp only [modifiedOption] at hfound
  split at hfound
  · cases hfound
  · rename_i all before hread
    split at hfound
    · cases hfound
      have hparts : (Phrase.around (.choiceOption all.reuse all.conditional) r.offset all.phrases).parts =
        all.phrases := List.append_nil _
      have hprefix := parts_prefix (optionText_completes
        (.around (.choiceOption all.reuse all.conditional) r.offset all.phrases) before).grows
      rw [hparts] at hprefix
      obtain ⟨tail, htail⟩ := hprefix
      exact ⟨all, before, tail, hread, htail.symm⟩
    · cases hfound

/-- An option on a line that begins with a command begins with the modifiers that were read there. -/
theorem exists_modifiers_of_isOption {found : Statement} (hfound : (statement .choice .command r).1 = some found)
    (hoption : found.phrase.kind.isOption = true) :
    ∃ all before tail, modifiersWithin r.budget {} r = some (all, before) ∧
      found.phrase.parts = all.phrases ++ tail := by
  have hchecked (read : Statement) (place : Reader) :
      (checkChoice .choice read place).phrase.kind = read.phrase.kind ∧
        (checkChoice .choice read place).phrase.parts = read.phrase.parts := by
    unfold checkChoice
    dsimp only
    split <;> exact ⟨rfl, rfl⟩
  rw [statement] at hfound
  split at hfound
  · cases hfound
  · have hsame : found = checkChoice .choice (command .choice r).1 (command .choice r).2 :=
      (Option.some.inj hfound).symm
    obtain ⟨hkind, hparts⟩ := hchecked (command .choice r).1 (command .choice r).2
    rw [hsame, hkind] at hoption
    rw [hsame, hparts]
    rcases modifiedOption_cases .choice r with ⟨option, behind, hread, -⟩ | hnone
    · have hcommand : (command .choice r).1 = option := by rw [command, hread]
      rw [hcommand]
      exact parts_modifiedOption hread
    · have hcommand : (command .choice r).1 = (commandNamed r.offset .choice r.next).1 := by rw [command, hnone]
      rw [hcommand, isOption_commandNamed] at hoption
      cases hoption

/-- Where a condition stands before another modifier, an option has a command that does not hold its group. -/
theorem exists_product_of_statement {modifiers : List Modifier} {text : Text} {found : Statement}
    (h : Modifier.Precede modifiers r.rest ('#' :: text))
    (hearly : ∃ modifier ∈ modifiers.dropLast, modifier.isCondition = true) (hmode : r.mode = .command)
    (htrimmed : r.Trimmed) (hordered : r.Ordered) (hfound : (statement .choice .command r).1 = some found)
    (hoption : found.phrase.kind.isOption = true) :
    ∃ (index : Nat) (modifier : Modifier) (command : Phrase), modifiers[index]? = some modifier ∧
      modifier.isCondition = true ∧
      found.phrase.parts[index]? = some command ∧ ¬command.HoldsGroup := by
  obtain ⟨all, before, tail, hread, hparts⟩ := exists_modifiers_of_isOption hfound hoption
  obtain ⟨index, modifier, command, hmodifier, hcondition, hcommand, hgroup⟩ :=
    exists_product_of_precede h hearly hmode htrimmed hordered rfl (Nat.lt_succ_self _) hread
  have hcommand : all.phrases[index]? = some command := by simpa using hcommand
  refine ⟨index, modifier, command, hmodifier, hcondition, ?_, hgroup⟩
  rw [hparts, List.getElem?_append_left (List.getElem?_eq_some_iff.mp hcommand).1, hcommand]

end Reader

end Gamebook
