import Gamebook.Proofs.Checked.Place

/-!
Expressions get on. Every round of a chain of operations and of a row of indices takes a token, and an expression
inside another one begins behind a token of that one; so nothing is missing from what a checked rule gives.
-/

namespace Gamebook.Checked

open Course (again again_of_advances checked_eq counted_succ descend)
open Gamebook.Parser (Stands Reads Refines)

variable {site : Site} {p q : Parser} {r : Reader} {limit spare budget : Nat}

/-- A rule that may apply, on the checked course. -/
abbrev Parsing := Grammar.Parsing Option

/-- A rule that puts what follows into a node, on the checked course. -/
abbrev Filling := Grammar.Filling Option

/-- Where less than the given number of characters is left of the line, the checked rule gives what the counted one
gives. -/
def Succeeds (site : Site) (limit : Nat) (checked : Parsing) (rule : Gamebook.Parsing) : Prop :=
  ∀ ⦃p : Parser⦄ ⦃r : Reader⦄, p.Reads site r → r.rest.length < limit → checked p = some (rule p)

/-! ### Tokens -/

theorem skipWithin_eq (h : p.Stands site r) (test : TokenKind → Bool) (hbudget : r.rest.length ≤ budget) :
    Grammar.skipWithin Option test spare p = some (Grammar.skipWithin Id test budget p) := by
  induction budget generalizing p r with
  | zero =>
      rw [Grammar.skipWithin, checked_eq, h.ends hbudget]
      rfl
  | succ budget ih =>
      unfold Grammar.skipWithin
      rw [checked_eq, counted_succ]
      split
      · rfl
      · rename_i hgoes
        have hrest : r.rest ≠ [] := by
          rintro hnil
          rw [h.atEnd, Reader.atEnd_iff.mpr hnil] at hgoes
          exact hgoes rfl
        have hlt := Reader.next_length_lt hrest
        have hnext := (h.next hrest).toStands
        rw [again_of_advances (h.advances hnext hlt)]
        exact ih hnext (by omega)

theorem skipTo_eq (h : p.Stands site r) (test : TokenKind → Bool) :
    Grammar.skipTo Option test p = some (Grammar.skipTo Id test p) :=
  skipWithin_eq h test (by rw [h.ahead])

theorem close_eq (h : p.Stands site r) (id : Nat) (kind : TokenKind) (rule : Rule) :
    Grammar.close Option id kind rule p = some (Grammar.close Id id kind rule p) := by
  unfold Grammar.close Parser.accept
  cases p.sees kind with
  | true => rfl
  | false => exact Option.bind_eq_some_iff.mpr ⟨_, skipTo_eq h _, rfl⟩

/-! ### Operations -/

theorem beginOperation_reads (h : p.Reads site r) (hrest : r.rest ≠ []) (op : Operator) (left : Nat) :
    (p.beginOperation op left).2.Reads site (r.takeOperator op).2 := by
  have haround := fun kind offset => Reads.adopt (p := (p.createAt kind offset).2) (h.retree h.source) p.tree.size left
  exact ((haround _ _).takeOperator hrest op).reads.adopt _ _

theorem endOperation_reads (h : p.Reads site r) (op : Operator) (left id : Nat) (right : Option Nat) :
    (p.endOperation op left id right).Reads site r := ((h.adoptOr id right .termExpected).setKind id _).finish id

section Operations

variable {operand : Parsing} {rule : Gamebook.Parsing} {reading : Reading} (hoperand : Succeeds site limit operand rule)
  (hrefines : Refines site rule reading) (hregular : Reader.Regular reading)
include hoperand hrefines hregular

theorem chain_eq (level : Precedence) {left : Nat} (h : p.Reads site r) (hlimit : r.rest.length ≤ limit)
    (hbudget : r.rest.length ≤ budget) :
    Grammar.chain Option level operand spare left p = some (Grammar.chain Id level rule budget left p) := by
  induction budget generalizing p r left with
  | zero =>
      have hrest := List.eq_nil_of_length_eq_zero (Nat.le_zero.mp hbudget)
      have hnone : p.operatorAt? level = none := by
        rw [h.operatorAt?]
        cases hop : r.operatorAt? level with
        | none => rfl
        | some op => exact absurd hrest (Reader.rest_ne_nil_of_operatorAt? hop)
      rw [Grammar.chain, checked_eq, hnone]
      rfl
  | succ budget ih =>
      cases hop : p.operatorAt? level with
      | none =>
          rw [Grammar.chain_succ_none hop, Grammar.chain, checked_eq, hop]
          rfl
      | some op =>
          have hrest : r.rest ≠ [] := Reader.rest_ne_nil_of_operatorAt? ((h.operatorAt? level).symm.trans hop)
          have hshorter : (r.takeOperator op).2.rest.length < r.rest.length := Reader.next_length_lt hrest
          have hbegun := beginOperation_reads h hrest op left
          have hended := fun right => endOperation_reads (hrefines.reads hbegun) op left (p.beginOperation op left).1 right
          have hbehind := (hregular (r.takeOperator op).2).reaches.length_le
          have hright := hoperand hbegun (by omega)
          rw [Grammar.chain_succ hop, Grammar.chain, checked_eq, hop]
          refine Option.bind_eq_some_iff.mpr ⟨_, hright, ?_⟩
          refine (again_of_advances (h.advances (hended _).toStands (by omega)) _).trans ?_
          exact ih (hended _) (by omega) (by omega)

theorem operations_succeeds (level : Precedence) (hbudget : limit ≤ budget + 1) :
    Succeeds site limit (Grammar.operations Option spare operand level) (Grammar.operations Id budget rule level) := by
  intro p r h hlimit
  have hleft := hrefines h
  have hle := (hregular r).reaches.length_le
  unfold Grammar.operations
  rw [hoperand h hlimit]
  generalize rule p = outcome at hleft ⊢
  generalize reading r = read at hleft hle
  cases hleft with
  | none => rfl
  | @made left q _ behind hleft =>
      change behind.rest.length ≤ r.rest.length at hle
      have hchain : Grammar.chain Option level operand spare left q = some (Grammar.chain Id level rule budget left q) :=
        chain_eq hoperand hrefines hregular level hleft.reads (by omega) (by omega)
      exact Option.bind_eq_some_iff.mpr ⟨_, rfl, Option.bind_eq_some_iff.mpr ⟨_, hchain, rfl⟩⟩

end Operations

/-- A checked rule, the rule and the reading belong together, where less than the given number of characters is left
of the line. -/
structure Aligned (site : Site) (limit : Nat) (checked : Parsing) (rule : Gamebook.Parsing) (reading : Reading) :
    Prop where
  succeeds : Succeeds site limit checked rule
  refines : Refines site rule reading
  regular : Reader.Regular reading
  values : Reader.Values reading

variable {expression operand term : Parsing} {rule : Gamebook.Parsing} {reading : Reading}

theorem Aligned.operations (h : Aligned site limit operand rule reading) (hbudget : limit ≤ budget + 1)
    (level : Precedence) : Aligned site limit (Grammar.operations Option spare operand level)
      (Grammar.operations Id budget rule level) (Reader.operations budget reading level) where
  succeeds := operations_succeeds h.succeeds h.refines h.regular level hbudget
  refines := Parser.operations_refines h.refines h.values budget level
  regular := Reader.operations_regular h.regular budget level
  values := Reader.operations_values h.values budget level

theorem Aligned.expressionOver (h : Aligned site limit term rule reading) (hbudget : limit ≤ budget + 1) :
    Aligned site limit (Grammar.expressionOver Option spare term) (Grammar.expressionOver Id budget rule)
      (Reader.expressionOver budget reading) := by
  unfold Grammar.expressionOver Reader.expressionOver
  generalize Reader.levels = levels
  induction levels generalizing term rule reading with
  | nil => exact h
  | cons level more ih => exact ih (h.operations hbudget level)

/-! ### Terms -/

section Terms

variable (hexpression : Aligned site limit expression rule reading)
include hexpression

theorem group_eq (h : p.Stands site r) (hrest : r.rest ≠ []) (hlimit : r.rest.length ≤ limit) :
    Grammar.group Option expression p = some (Grammar.group Id rule p) := by
  have hbegin := h.begin hrest (.term .unknown .group)
  have hlt := Reader.next_length_lt hrest
  have hinner := hexpression.succeeds hbegin.reads (by omega)
  have hbehind := hexpression.refines.reads hbegin.reads
  exact Option.bind_eq_some_iff.mpr ⟨_, hinner, Option.bind_eq_some_iff.mpr
    ⟨_, close_eq (hbehind.adoptOr _ _ _).toStands _ _ _, rfl⟩⟩

theorem computedReference_eq (h : p.Stands site r) (hrest : r.rest ≠ []) (hlimit : r.rest.length ≤ limit) :
    Grammar.computedReference Option expression p = some (Grammar.computedReference Id rule p) := by
  have hbegin := h.begin hrest (.term .unknown .computedReference)
  have hlt := Reader.next_length_lt hrest
  exact Option.bind_eq_some_iff.mpr ⟨_, hexpression.succeeds hbegin.reads (by omega), rfl⟩

theorem call_eq (function : Function) (h : p.Stands site r) (hrest : r.rest ≠ []) (hlimit : r.rest.length ≤ limit) :
    Grammar.call Option expression function p = some (Grammar.call Id rule function p) := by
  have hbegin := h.begin hrest (.term .unknown (.call function))
  have hlt := Reader.next_length_lt hrest
  unfold Grammar.call
  dsimp only
  rcases hbegin.reads.accept .parenL rfl with ⟨-, haccept, -, hopened⟩ | ⟨-, haccept, -⟩
  · rw [haccept]
    have hle := r.next.reaches_next.length_le
    have hargument := hexpression.succeeds hopened (by omega)
    have hbehind := hexpression.refines.reads hopened
    exact Option.bind_eq_some_iff.mpr ⟨_, hargument, Option.bind_eq_some_iff.mpr
      ⟨_, close_eq (hbehind.adoptOr _ _ _).toStands _ _ _, rfl⟩⟩
  · rw [haccept]
    rfl

theorem indices_eq {id : Nat} (h : p.Stands site r) (hlimit : r.rest.length ≤ limit)
    (hbudget : r.rest.length ≤ budget) :
    Grammar.indices Option expression spare id p = some (Grammar.indices Id rule budget id p) := by
  induction budget generalizing p r with
  | zero =>
      have hindex : ¬p.seesIndex = true := by
        rw [Parser.seesIndex, Bool.and_eq_true]
        exact fun hindex => h.not_sees hbudget rfl hindex.1
      rw [Grammar.indices, checked_eq, if_neg hindex]
      rfl
  | succ budget ih =>
      unfold Grammar.indices
      rw [checked_eq, counted_succ]
      by_cases hindex : p.seesIndex = true
      · rw [if_pos hindex, if_pos hindex]
        rw [Parser.seesIndex, h.sees rfl, Bool.and_eq_true] at hindex
        have hrest := Reader.rest_ne_nil_of_sees hindex.1
        have hlt := Reader.next_length_lt hrest
        have hnext := h.next hrest
        have hbehind := (hexpression.refines.reads hnext).adoptOr id (rule p.next).1 .expressionExpected
        have hle := (hexpression.regular r.next).reaches.length_le
        refine Option.bind_eq_some_iff.mpr ⟨_, hexpression.succeeds hnext (by omega),
          Option.bind_eq_some_iff.mpr ⟨_, close_eq hbehind.toStands _ _ _, ?_⟩⟩
        dsimp only [Course.bind_counted]
        generalize hclose : Grammar.close Id id .bracketR .rightBracketExpected _ = outcome
        obtain ⟨_ | _, q⟩ := outcome
        · rfl
        · obtain ⟨hsees, rfl⟩ := Parser.close_of_accepts hclose
          have hclosing := Reader.rest_ne_nil_of_sees ((hbehind.sees rfl).symm.trans hsees)
          have hclosed := (hbehind.next hclosing).toStands
          have hshorter := Reader.next_length_lt hclosing
          exact (again_of_advances (h.advances hclosed (by omega)) _).trans (ih hclosed (by omega) (by omega))
      · rw [if_neg hindex, if_neg hindex]
        rfl

theorem variableTerm_eq (h : p.Stands site r) (hrest : r.rest ≠ []) (hlimit : r.rest.length ≤ limit)
    (hbudget : limit ≤ budget) :
    Grammar.variableTerm Option spare expression p = some (Grammar.variableTerm Id budget rule p) := by
  have hname := (h.create (.term .unknown .var)).leaf hrest .var
  have hlt : (r.leaf .var).2.rest.length < r.rest.length := Reader.next_length_lt hrest
  have hterm := (h.wrap (.term .unknown .var) hname).reads
  unfold Grammar.variableTerm
  dsimp only
  refine Option.bind_eq_some_iff.mpr ⟨_, indices_eq hexpression (r := (r.leaf .var).2) ?_ (by omega) (by omega), rfl⟩
  split
  · exact (hterm.setKind _ _).toStands
  · exact hterm.toStands

theorem nameTerm_eq (h : p.Stands site r) (hrest : r.rest ≠ []) (hlimit : r.rest.length ≤ limit)
    (hbudget : limit ≤ budget) :
    Grammar.nameTerm Option spare expression p = some (Grammar.nameTerm Id budget rule p) := by
  unfold Grammar.nameTerm
  dsimp only
  split
  · rfl
  · cases Function.ofKeyword? p.word with
    | some function => exact call_eq hexpression function h hrest hlimit
    | none =>
        dsimp only
        rw [variableTerm_eq hexpression h hrest hlimit hbudget]
        split <;> rfl

theorem termOver_succeeds (hbudget : limit ≤ budget) :
    Succeeds site (limit + 1) (Grammar.termOver Option spare expression) (Grammar.termOver Id budget rule) := by
  intro p r h hlimit
  have hle : r.rest.length ≤ limit := Nat.le_of_lt_succ hlimit
  unfold Grammar.termOver
  by_cases hend : p.atEnd = true
  · rw [Parser.atEnd] at hend
    generalize p.token.kind = kind at hend ⊢
    cases kind <;> first | rfl | cases hend
  · have hrest : r.rest ≠ [] := by
      rwa [h.atEnd, Reader.atEnd_iff] at hend
    have hstands := h.toStands
    generalize p.token.kind = kind
    cases kind with
    | parenL => exact congrArg (Option.map Grammar.found) (group_eq hexpression hstands hrest hle)
    | curlyL => exact congrArg (Option.map Grammar.found) (computedReference_eq hexpression hstands hrest hle)
    | ident => exact nameTerm_eq hexpression hstands hrest hle hbudget
    | _ => rfl

end Terms

theorem Aligned.termOver (h : Aligned site limit expression rule reading) (hbudget : limit ≤ budget) :
    Aligned site (limit + 1) (Grammar.termOver Option spare expression) (Grammar.termOver Id budget rule)
      (Reader.termOver budget reading) where
  succeeds := termOver_succeeds h hbudget
  refines := Parser.termOver_refines h.refines h.values budget
  regular := Reader.termOver_regular h.regular budget
  values := Reader.termOver_values h.values budget

/-- A rule inside the one that was entered begins behind its start. -/
theorem Aligned.again {body : (Unit → Parsing) → Unit → Parsing}
    (hinside : Aligned site limit (descend body ()) rule reading)
    (h : p.Stands site r) (hlimit : r.rest.length ≤ limit) :
    Aligned site r.rest.length (again body p ()) rule reading where
  succeeds _ _ hq hshorter := (again_of_advances (h.advances hq.toStands hshorter) ()).trans
    (hinside.succeeds hq (Nat.lt_of_lt_of_le hshorter hlimit))
  refines := hinside.refines
  regular := hinside.regular
  values := hinside.values

theorem expressionWithin_aligned (site : Site) (spare budget : Nat) :
    Aligned site budget (Grammar.expressionWithin Option spare) (Grammar.expressionWithin Id budget)
      (Reader.expressionWithin budget) := by
  have haligned := fun budget hsucceeds => @Aligned.mk site budget (Grammar.expressionWithin Option spare) _ _ hsucceeds
    (Parser.expressionWithin_refines budget) (Reader.expressionWithin_regular budget) (Reader.expressionWithin_values budget)
  induction budget with
  | zero => exact haligned 0 fun p r h hlimit => absurd hlimit (Nat.not_lt_zero _)
  | succ budget ih =>
      refine haligned (budget + 1) fun p r h hlimit => ?_
      have hle : r.rest.length ≤ budget := Nat.le_of_lt_succ hlimit
      rw [Grammar.expressionWithin_succ, Grammar.expressionWithin, checked_eq]
      exact (((ih.again h.toStands hle).termOver hle).expressionOver (Nat.succ_le_succ hle)).succeeds h
        (Nat.lt_succ_self _)

theorem expression_eq (h : p.Reads site r) : Grammar.expression Option p = some (Grammar.expression Id p) := by
  have hlt : r.rest.length < r.budget := Nat.lt_succ_self _
  unfold Grammar.expression
  rw [h.budget]
  exact (expressionWithin_aligned site r.budget r.budget).succeeds h hlt

theorem expression_aligned (site : Site) (limit : Nat) :
    Aligned site limit (Grammar.expression Option) (Grammar.expression Id) Reader.expression :=
  ⟨fun _ _ h _ => expression_eq h, Parser.expression_refines, Reader.expression_regular, Reader.expression_values⟩

theorem term_eq (h : p.Reads site r) : Grammar.term Option p = some (Grammar.term Id p) := by
  have hlt : r.rest.length < r.budget + 1 := Nat.lt_succ_of_lt (Nat.lt_succ_self _)
  unfold Grammar.term
  rw [h.budget]
  exact ((expressionWithin_aligned site r.budget r.budget).termOver (Nat.le_refl _)).succeeds h hlt

theorem assignable_eq (h : p.Reads site r) : Grammar.assignable Option p = some (Grammar.assignable Id p) := by
  have hexpression := expression_aligned site r.rest.length
  unfold Grammar.assignable
  split
  · rename_i hcurly
    have hrest := Reader.rest_ne_nil_of_sees ((h.sees rfl).symm.trans hcurly)
    rw [computedReference_eq hexpression h.toStands hrest (Nat.le_refl _)]
    rfl
  · split
    · rename_i hname
      have hvariable : Parser.variableName p = (some (p.leaf .var).1, (p.leaf .var).2) := if_pos hname
      rw [hvariable]
      dsimp only
      split
      · rw [(p.follows_refl.leaf .var).follows.restore]
        rw [h.seesName, Reader.seesName, Bool.and_eq_true] at hname
        have hrest := Reader.rest_ne_nil_of_sees hname.1
        exact nameTerm_eq hexpression h.toStands hrest (Nat.le_refl _) (by rw [h.budget]; exact Nat.le_succ _)
      · rfl
    · rfl

end Gamebook.Checked
