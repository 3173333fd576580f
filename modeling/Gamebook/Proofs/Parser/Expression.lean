import Gamebook.Proofs.Parser.Operand
import Gamebook.Proofs.Parser.Trace

/-!
Expressions by token and by lexeme. Every rule for expressions makes the nodes of the phrase that the reading
of the same construct recognises, and leaves the parser where the reader is left.
-/

namespace Gamebook

namespace Phrase

theorem addOr_setKind (phrase : Phrase) (kind : Kind) (part : Option Phrase) (rule : Rule) (r : Reader) :
    ({ phrase with kind } : Phrase).addOr part rule r = { phrase.addOr part rule r with kind } := by
  cases part <;> rfl

theorem close_setKind (phrase : Phrase) (kind : Kind) (sign : TokenKind) (rule : Rule) (r : Reader) :
    ({ phrase with kind } : Phrase).close sign rule r =
      ((phrase.close sign rule r).1, { (phrase.close sign rule r).2.1 with kind }, (phrase.close sign rule r).2.2) := by
  unfold close
  split <;> rfl

/-- It makes no difference when the kind of a phrase is set. -/
theorem closed_setKind (before after : Kind) (r behind : Reader) (part : Option Phrase) (sign : TokenKind)
    (missing unclosed : Rule) :
    ((begin after r).addOr part missing behind).close sign unclosed behind =
      ((((begin before r).addOr part missing behind).close sign unclosed behind).1,
        { (((begin before r).addOr part missing behind).close sign unclosed behind).2.1 with kind := after },
        (((begin before r).addOr part missing behind).close sign unclosed behind).2.2) := by
  rw [← close_setKind, ← addOr_setKind]
  rfl

end Phrase

namespace Reader

theorem rest_ne_nil_of_operator? {r : Reader} {op : Operator} (h : r.operator? = some op) : r.rest ≠ [] := by
  obtain ⟨lexeme, hlexeme, -⟩ := Option.bind_eq_some_iff.mp h
  exact rest_ne_nil_of_kind? (congrArg (Option.map Lexeme.kind) hlexeme)

theorem rest_ne_nil_of_operatorAt? {r : Reader} {level : Precedence} {op : Operator}
    (h : r.operatorAt? level = some op) : r.rest ≠ [] :=
  rest_ne_nil_of_operator? (Option.filter_eq_some_iff.mp h).1

end Reader

namespace Parser

variable {site : Site} {old : Tree} {p q : Parser} {r behind : Reader} {phrase part : Phrase} {id child : Nat}

theorem Reads.takeOperator (h : p.Reads site r) (hrest : r.rest ≠ []) (op : Operator) :
    Accords site p.tree (takeOperator op p) (r.takeOperator op) := by
  have hleaf := h.leaf hrest (.operator op op.resultType)
  unfold Parser.takeOperator Reader.takeOperator
  dsimp only
  split
  · exact hleaf.flagWhole .deprecatedModulo
  · exact hleaf

theorem variableName_refines : Refines site variableName Reader.variableName := by
  intro p r h
  unfold variableName Reader.variableName
  rw [h.seesName]
  split
  · rename_i hname
    rw [Reader.seesName, Bool.and_eq_true] at hname
    exact .made (h.leaf (Reader.rest_ne_nil_of_sees hname.1) .var)
  · exact .none

theorem Stands.stringValue (h : p.Stands site r) (hrest : r.rest ≠ []) :
    Accords site p.tree (stringValue p) r.stringValue := by
  have hleaf := h.leaf hrest .stringValue
  unfold Parser.stringValue Reader.stringValue
  dsimp only
  rw [h.sees rfl]
  split
  · exact hleaf.flagWhole .missingClosingQuote
  · exact hleaf

theorem Stands.termOf (h : p.Stands site r) (type : ValueType) {literal : Parser → Nat × Parser}
    {read : Phrase × Reader} (hliteral : Accords site (p.create (.term type .literal)).2.tree
      (literal (p.create (.term type .literal)).2) read) :
    Accords site p.tree (termOf type literal p) (Reader.termOf type r read) :=
  (h.wrap (.term type .literal) hliteral).finish

/-! ### Operations -/

theorem chain_agrees {operand : Parsing} {reading : Reading} (hoperand : Refines site operand reading)
    (hvalues : Reader.Values reading) (level : Precedence) (budget : Nat) (h : Agrees site old id p phrase r)
    (hvalued : phrase.Valued) :
    Accords site old (Grammar.chain Id level operand budget id p) (Reader.chain level reading budget phrase r) := by
  induction budget generalizing p r id phrase with
  | zero => exact h
  | succ budget ih =>
      have hnext := h.reads.operatorAt? level
      unfold Reader.chain
      cases hop : r.operatorAt? level with
      | none =>
          rw [Grammar.chain_succ_none (hnext.trans hop)]
          exact h
      | some op =>
          obtain ⟨node, hnode, -, hoffset, -⟩ := h.holds.node?
          rw [Grammar.chain_succ (hnext.trans hop)]
          unfold Parser.beginOperation Parser.endOperation
          dsimp only
          rw [hnode, Option.map_some, Option.getD_some, hoffset]
          have haround := h.around (op.kind .unknown) phrase.start
          have hsigned := haround.adopt (haround.reads.takeOperator (Reader.rest_ne_nil_of_operatorAt? hop) op)
          have hfound := hoperand hsigned.reads
          have hright := hsigned.adoptOr hfound .termExpected rfl
          -- both operands are classified in the tree that holds the whole operation
          rw [h.operand?_before hvalued.typed.opened hright (Phrase.addOr_before _ _ _ _),
            hsigned.operand?_eq hfound (hvalues.types.opened _) hright (Phrase.addOr_before _ _ _ _)
              (Phrase.addOr_after _ _ _ _)]
          have hwhole := (hright.setKind (op.kind (op.infer phrase.operand
            (Phrase.operand? (reading (r.takeOperator op).2).1)))).finish
          rw [← Phrase.addOr_setKind] at hwhole
          exact ih hwhole (Reader.operationOn_valued hvalued (hvalues.types _) op r)

theorem operations_refines {operand : Parsing} {reading : Reading} (hoperand : Refines site operand reading)
    (hvalues : Reader.Values reading) (budget : Nat) (level : Precedence) :
    Refines site (Grammar.operations Id budget operand level) (Reader.operations budget reading level) := by
  intro p r h
  have hleft := hoperand h
  have hvalued := hvalues r
  unfold Grammar.operations Reader.operations
  generalize operand p = outcome at hleft ⊢
  generalize reading r = found at hleft hvalued ⊢
  cases hleft with
  | none => exact .none
  | made hleft => exact .made (chain_agrees hoperand hvalues level budget hleft (hvalued _ rfl))

theorem expressionOver_refines {term : Parsing} {reading : Reading} (hterm : Refines site term reading)
    (hvalues : Reader.Values reading) (budget : Nat) :
    Refines site (Grammar.expressionOver Id budget term) (Reader.expressionOver budget reading) := by
  have hlevels : ∀ (levels : List Precedence) (operand : Parsing) (reading : Reading), Refines site operand reading →
      Reader.Values reading →
        Refines site (levels.foldl (Grammar.operations Id budget) operand)
          (levels.foldl (Reader.operations budget) reading) := by
    intro levels
    induction levels with
    | nil => exact fun _ _ hoperand _ => hoperand
    | cons level more ih =>
        exact fun operand reading hoperand hvalues =>
          ih _ _ (operations_refines hoperand hvalues budget level) (Reader.operations_values hvalues budget level)
  exact hlevels Reader.levels term reading hterm hvalues

/-! ### Terms -/

section Terms

variable {expression : Parsing} {reading : Reading} (hexpression : Refines site expression reading)
include hexpression

theorem Stands.group (h : p.Stands site r) (hrest : r.rest ≠ []) :
    Accords site p.tree (Grammar.group Id expression p) (Reader.group reading r) := by
  have hbegin := h.begin hrest (.term .unknown .group)
  have hinner := hexpression hbegin.reads
  obtain ⟨-, hclosed⟩ := (hbegin.adoptOr hinner .expressionExpected rfl).close .parenR .rightParenthesisExpected rfl rfl
  have htype := hbegin.bind_kind? hinner hclosed ((Phrase.close_before _ _ _ _).trans (Phrase.addOr_before _ _ _ _))
    ((Phrase.close_after _ _ _ _).trans (Phrase.addOr_after _ _ _ _)) Kind.valueType?
  unfold Grammar.group Reader.group
  dsimp only [Course.bind_counted]
  rw [htype]
  generalize ((reading r.next).1.bind (·.kind.valueType?)).getD .unknown = type
  rw [Phrase.closed_setKind (.term .unknown .group)]
  exact (hclosed.setKind (.term type .group)).finish

theorem Stands.computedReference (h : p.Stands site r) (hrest : r.rest ≠ []) :
    Accords site p.tree (Grammar.computedReference Id expression p) (Reader.computedReference reading r) := by
  have hbegin := h.begin hrest (.term .unknown .computedReference)
  have hinner := hbegin.adoptOr (hexpression hbegin.reads) .expressionExpected rfl
  unfold Grammar.computedReference Reader.computedReference
  dsimp only [Course.bind_counted]
  rcases hinner.accepts .curlyR rfl with ⟨-, hp, hr, hnext⟩ | ⟨-, hp, hr⟩
  · rw [hp, hr]
    exact hnext.finish
  · rw [hp, hr]
    exact (hinner.complain .rightCurlyExpected rfl).finish

theorem call_agrees (hvalues : Reader.Values reading) (function : Function) (h : p.Stands site r) (hrest : r.rest ≠ []) :
    MayAgree site p r (Grammar.call Id expression function p) (Reader.call reading function r) := by
  have hbegin := h.begin hrest (.term .unknown (.call function))
  unfold Grammar.call Reader.call
  dsimp only [Course.bind_counted]
  rcases hbegin.accepts .parenL rfl with ⟨hsees, hp, hr, hopened⟩ | ⟨hsees, hp, hr⟩
  · rw [hp, if_pos hsees]
    have hargument := hexpression hopened.reads
    obtain ⟨-, hclosed⟩ :=
      (hopened.adoptOr hargument .expressionExpected rfl).close .parenR .rightParenthesisExpected rfl rfl
    have hoperand := hopened.operand?_eq hargument (hvalues.types.opened _) hclosed
      ((Phrase.close_before _ _ _ _).trans (Phrase.addOr_before _ _ _ _))
      ((Phrase.close_after _ _ _ _).trans (Phrase.addOr_after _ _ _ _))
    dsimp only
    rw [hoperand]
    generalize (if Phrase.operand? (reading r.next.next).1 = .malformed then .unknown else function.resultType) = type
    rw [Phrase.closed_setKind (.term .unknown (.call function))]
    exact .made (hclosed.setKind (.term type (.call function))).finish
  · rw [hp, hsees]
    dsimp only
    rw [(p.follows_refl.create _).next.restore]
    exact .none

omit hexpression in
theorem Reads.seesIndex (h : p.Reads site r) : p.seesIndex = r.seesIndex := by
  rw [Parser.seesIndex, Reader.seesIndex, h.sees rfl, h.followsDirectly]

theorem indices_agrees (budget : Nat) (h : Agrees site old id p phrase r) :
    Agrees site old id (Grammar.indices Id expression budget id p) (Reader.indices reading budget phrase r).1
      (Reader.indices reading budget phrase r).2 := by
  induction budget generalizing p r phrase with
  | zero => exact h
  | succ budget ih =>
      rw [Grammar.indices, Course.counted_succ, Reader.indices]
      rw [h.reads.seesIndex]
      split
      · rename_i hindex
        rw [Reader.seesIndex, Bool.and_eq_true] at hindex
        have hnext := h.next (Reader.rest_ne_nil_of_sees hindex.1)
        obtain ⟨hsame, hclosed⟩ := (hnext.adoptOr (hexpression hnext.reads) .expressionExpected rfl).close .bracketR
          .rightBracketExpected rfl rfl
        dsimp only [Course.bind_counted]
        generalize Grammar.close Id id .bracketR .rightBracketExpected _ = outcome at hsame hclosed ⊢
        generalize Phrase.close _ .bracketR .rightBracketExpected _ = found at hsame hclosed ⊢
        obtain ⟨closed, q⟩ := outcome
        obtain ⟨_, term, behind⟩ := found
        obtain rfl : closed = _ := hsame
        cases closed with
        | true => exact ih hclosed
        | false => exact hclosed
      · exact h

theorem Stands.variableTerm (h : p.Stands site r) (hrest : r.rest ≠ []) (budget : Nat) :
    Accords site p.tree (Grammar.variableTerm Id budget expression p) (Reader.variableTerm budget reading r) := by
  have hname := (h.create (.term .unknown .var)).leaf hrest .var
  have hterm := h.wrap (.term .unknown .var) hname
  unfold Grammar.variableTerm Reader.variableTerm
  dsimp only [Course.bind_counted]
  rw [hterm.reads.seesIndex]
  split
  · exact (indices_agrees hexpression budget (hterm.setKind (.term .unknown .arrayIndex))).finish
  · exact (indices_agrees hexpression budget hterm).finish

theorem nameTerm_agrees (hvalues : Reader.Values reading) (budget : Nat) (h : p.Stands site r) (hrest : r.rest ≠ []) :
    MayAgree site p r (Grammar.nameTerm Id budget expression p) (Reader.nameTerm budget reading r) := by
  have hend : r.atEnd = false := by rw [← Bool.not_eq_true, Reader.atEnd_iff]; exact hrest
  unfold Grammar.nameTerm Reader.nameTerm
  dsimp only
  rw [h.word hend]
  split
  · exact .made (h.termOf .boolean ((h.create _).leaf hrest _))
  · cases Function.ofKeyword? r.word with
    | some function => exact call_agrees hexpression hvalues function h hrest
    | none =>
        dsimp only
        split
        · exact .none
        · exact .made (h.variableTerm hexpression hrest budget)

theorem termOver_refines (hvalues : Reader.Values reading) (budget : Nat) :
    Refines site (Grammar.termOver Id budget expression) (Reader.termOver budget reading) := by
  intro p r h
  unfold Grammar.termOver Reader.termOver
  dsimp only [Course.map_counted]
  rw [h.kind?]
  by_cases hend : p.atEnd = true
  · rw [if_pos hend]
    rw [Parser.atEnd] at hend
    generalize p.token.kind = kind at hend ⊢
    cases kind <;> first | exact .none | cases hend
  · have hrest : r.rest ≠ [] := by
      rwa [h.atEnd, Reader.atEnd_iff] at hend
    rw [if_neg hend]
    generalize p.token.kind = kind
    cases kind with
    | num => exact .made (h.termOf .number ((h.toStands.create _).leaf hrest _))
    | string => exact .made (h.termOf .string ((h.toStands.create _).stringValue hrest))
    | badString => exact .made (h.termOf .string ((h.toStands.create _).stringValue hrest))
    | parenL => exact .made (h.group hexpression hrest)
    | curlyL => exact .made (h.computedReference hexpression hrest)
    | ident => exact nameTerm_agrees hexpression hvalues budget h.toStands hrest
    | _ => exact .none

end Terms

theorem expressionWithin_refines (budget : Nat) :
    Refines site (Grammar.expressionWithin Id budget) (Reader.expressionWithin budget) := by
  induction budget with
  | zero => exact fun _ _ _ => .none
  | succ budget ih =>
      have hvalues := Reader.expressionWithin_values budget
      rw [Grammar.expressionWithin_succ]
      exact expressionOver_refines (termOver_refines ih hvalues budget) (Reader.termOver_values hvalues budget) budget

theorem expression_refines : Refines site (Grammar.expression Id) Reader.expression := by
  intro p r h
  unfold Grammar.expression Reader.expression
  rw [h.budget]
  exact expressionWithin_refines r.budget h

theorem term_refines : Refines site (Grammar.term Id) Reader.term := by
  intro p r h
  unfold Grammar.term Reader.term
  rw [h.budget]
  exact termOver_refines (expressionWithin_refines r.budget) (Reader.expressionWithin_values r.budget) r.budget h

/-- A word that is free to name a variable begins a variable and nothing else. -/
theorem nameTerm_of_free {budget : Nat} {expression : Parsing} (hfree : Command.isReserved p.word = false) :
    Grammar.nameTerm Id budget expression p =
      (some (Grammar.variableTerm Id budget expression p).1, (Grammar.variableTerm Id budget expression p).2) := by
  have hliteral : ¬(p.word = "true" ∨ p.word = "false") := by
    rintro (hword | hword) <;> simp [hword, Command.isReserved, Command.reserved] at hfree
  have hfunction : Function.ofKeyword? p.word = none := by
    refine List.find?_eq_none.mpr fun function _ hkeyword => ?_
    rw [← beq_iff_eq.mp hkeyword] at hfree
    cases function <;> simp [Function.keyword, Command.isReserved, Command.reserved] at hfree
  unfold Grammar.nameTerm
  dsimp only
  rw [if_neg hliteral, hfunction, hfree]
  rfl

theorem assignable_refines : Refines site (Grammar.assignable Id) Reader.assignable := by
  intro p r h
  unfold Grammar.assignable Reader.assignable
  dsimp only
  rw [h.sees rfl, h.seesName]
  by_cases hcurly : r.sees .curlyL = true
  · rw [if_pos hcurly, if_pos hcurly]
    exact .made (h.computedReference expression_refines (Reader.rest_ne_nil_of_sees hcurly))
  · rw [if_neg hcurly, if_neg hcurly]
    by_cases hname : r.seesName = true
    · have hvariable : variableName p = (some (p.leaf .var).1, (p.leaf .var).2) := by
        unfold variableName
        rw [h.seesName, if_pos hname]
      rw [if_pos hname, if_pos hname, hvariable]
      rw [Reader.seesName, Bool.and_eq_true] at hname
      have hrest := Reader.rest_ne_nil_of_sees hname.1
      have hleaf := h.leaf hrest .var
      dsimp only
      rw [hleaf.reads.seesIndex]
      split
      · -- the name is given back and read once more, with what follows it
        have hend : r.atEnd = false := by rw [← Bool.not_eq_true, Reader.atEnd_iff]; exact hrest
        have hfree : Command.isReserved p.word = false := by
          rw [h.word hend]
          simpa using hname.2
        rw [(p.follows_refl.leaf .var).follows.restore, nameTerm_of_free hfree, h.budget]
        exact .made (h.variableTerm expression_refines hrest r.budget)
      · exact .made hleaf
    · rw [if_neg hname, if_neg hname]
      exact .none

end Parser

end Gamebook
