import Gamebook.Proofs.Checked.Prose
import Gamebook.Proofs.Parser.Command

/-!
Commands get on. What is put into the node of a command is taken from the line, part by part; what is no part of it
is skipped up to the end of the line.
-/

namespace Gamebook.Checked

open Course (again again_of_advances checked_eq counted_succ)
open Gamebook.Parser (Stands Reads Refines MayAgree Recuts)

variable {site : Site} {p q : Parser} {r : Reader} {id spare budget : Nat}

/-- The checked rule that fills a node does what the rule does. -/
def Fills (site : Site) (checked : Filling) (rule : Parser.Filling) : Prop :=
  ∀ ⦃p : Parser⦄ ⦃r : Reader⦄ (id : Nat), p.Reads site r → checked id p = some (rule id p)

/-- Wherever the rule is applied on a line, the parser is still on the line. -/
def Leads (site : Site) (rule : Gamebook.Parsing) : Prop :=
  ∀ ⦃p : Parser⦄ ⦃r : Reader⦄, p.Reads site r → ∃ behind, (rule p).2.Reads site behind

theorem leads_of_refines {rule : Gamebook.Parsing} {reading : Reading} (h : Refines site rule reading) :
    Leads site rule := fun _ _ hreads => ⟨_, h.reads hreads⟩

/-! ### The end of a line -/

theorem finishLine_fills : Fills site (Grammar.finishLine Option) (Grammar.finishLine Id) := by
  intro p r id h
  unfold Grammar.finishLine
  split
  · rfl
  · exact Option.bind_eq_some_iff.mpr ⟨_, skipTo_eq h.toStands _, rfl⟩

theorem markRest_fills (rule : Rule) : Fills site (Grammar.markRest Option rule) (Grammar.markRest Id rule) :=
  fun _ _ id h => Option.bind_eq_some_iff.mpr ⟨_, skipTo_eq (h.complain id rule).toStands _, rfl⟩

section Attempts

variable {part : Parsing} {parsing : Gamebook.Parsing} {reading : Reading} {found missing : Filling}
  {rule other : Parser.Filling}

theorem attempt_eq {read : Option Phrase × Reader} (hpart : part p = some (parsing p))
    (hmay : MayAgree site p r (parsing p) read)
    (hfound : ∀ {q : Parser}, read.1.isSome → q.Reads site read.2 → found id q = some (rule id q))
    (hmissing : missing id p = some (other id p)) :
    Grammar.attempt Option part found missing id p = some (Grammar.attempt Id parsing rule other id p) := by
  unfold Grammar.attempt
  rw [hpart]
  generalize parsing p = outcome at hmay ⊢
  cases hmay with
  | none => exact hmissing
  | made hmade => exact hfound rfl (hmade.reads.adopt id _)

theorem attempt_fills (hpart : ∀ ⦃p : Parser⦄ ⦃r : Reader⦄, p.Reads site r → part p = some (parsing p))
    (hleads : Leads site parsing) (hfound : Fills site found rule) (hmissing : Fills site missing other) :
    Fills site (Grammar.attempt Option part found missing) (Grammar.attempt Id parsing rule other) := by
  intro p r id h
  obtain ⟨behind, hbehind⟩ := hleads h
  unfold Grammar.attempt
  rw [hpart h]
  generalize parsing p = outcome at hbehind ⊢
  obtain ⟨_ | child, q⟩ := outcome
  · exact hmissing id hbehind
  · exact hfound id (hbehind.adopt id child)

theorem require_fills (missing : Rule) (hpart : ∀ ⦃p : Parser⦄ ⦃r : Reader⦄, p.Reads site r → part p = some (parsing p))
    (hleads : Leads site parsing) (hfound : Fills site found rule) :
    Fills site (Grammar.require Option missing part found) (Grammar.require Id missing parsing rule) :=
  attempt_fills hpart hleads hfound (markRest_fills missing)

theorem requireRun_fills (missing : Rule)
    (hfound : ∀ ⦃q : Parser⦄ ⦃r : Reader⦄ (id : Nat), q.Recuts site r → found id q = some (rule id q)) :
    Fills site (Grammar.requireRun Option missing found) (Grammar.requireRun Id missing rule) := by
  intro p r id h
  unfold Grammar.requireRun
  by_cases hrest : r.rest = []
  · rw [h.not_recut hrest]
    exact markRest_fills missing id h
  · obtain ⟨q, hrecut, -, hq⟩ := h.recut hrest
    rw [hrecut]
    exact hfound id hq

end Attempts

/-! ### Arguments -/

theorem argumentsWithin_eq (id : Nat) (h : p.Reads site r) (hbudget : r.rest.length ≤ budget) :
    Grammar.argumentsWithin Option spare id p = some (Grammar.argumentsWithin Id budget id p) := by
  induction budget generalizing p r with
  | zero =>
      rw [Grammar.argumentsWithin, checked_eq, if_pos (h.ends hbudget)]
      rfl
  | succ budget ih =>
      unfold Grammar.argumentsWithin
      rw [checked_eq, counted_succ]
      split
      · rfl
      · rename_i hend
        have hrest : r.rest ≠ [] := mt Reader.atEnd_iff.mpr (h.atEnd ▸ hend)
        have hlt := Reader.argument_length_lt h.trimmed hrest
        refine attempt_eq rfl (Parser.argument_agrees h hrest) (fun _ hq => ?_) ?_
        · exact (again_of_advances (h.advances hq.toStands hlt) id).trans
            (ih hq (Nat.le_of_lt_succ (Nat.lt_of_lt_of_le hlt hbudget)))
        · rfl

theorem arguments_fills : Fills site (Grammar.arguments Option) (Grammar.arguments Id) := by
  intro p r id h
  exact argumentsWithin_eq id h (h.budget ▸ Nat.le_succ _)

/-- Behind expressions up to the end of the line the parser is still on the line. -/
theorem expressionsWithin_eq (id : Nat) (h : p.Reads site r) (hbudget : r.rest.length ≤ budget) :
    Grammar.expressionsWithin Option spare id p = some (Grammar.expressionsWithin Id budget id p) ∧
      ∃ behind, (Grammar.expressionsWithin Id budget id p).Reads site behind := by
  induction budget generalizing p r with
  | zero =>
      rw [Grammar.expressionsWithin, checked_eq, if_pos (h.ends hbudget)]
      exact ⟨rfl, r, h⟩
  | succ budget ih =>
      unfold Grammar.expressionsWithin
      rw [checked_eq, counted_succ]
      split
      · exact ⟨rfl, r, h⟩
      · rename_i hend
        have hrest : r.rest ≠ [] := mt Reader.atEnd_iff.mpr (h.atEnd ▸ hend)
        have hmay := Parser.expression_refines h
        have hyield := Reader.expression_regular r
        unfold Grammar.attempt
        rw [expression_eq h]
        generalize Grammar.expression Id p = outcome at hmay ⊢
        generalize r.expression = read at hmay hyield
        cases hmay with
        | none => exact ⟨finishLine_fills id h, h.finishLine id⟩
        | @made child q _ behind hmade =>
            cases hyield with
            | found hyield =>
                have hlt := Nat.lt_of_le_of_lt hyield.taken.length_le (Reader.next_length_lt hrest)
                have hadopted := hmade.reads.adopt id child
                obtain ⟨hmore, hreads⟩ := ih hadopted (Nat.le_of_lt_succ (Nat.lt_of_lt_of_le hlt hbudget))
                exact ⟨(again_of_advances (h.advances hadopted.toStands hlt) id).trans hmore, hreads⟩

theorem finishArguments_fills (takes : Bool) :
    Fills site (Grammar.finishArguments Option takes) (Grammar.finishArguments Id takes) := by
  intro p r id h
  cases takes with
  | false => exact Option.bind_eq_some_iff.mpr ⟨_, rfl, finishLine_fills id h⟩
  | true =>
      have hbudget : r.rest.length ≤ p.budget := h.budget ▸ Nat.le_succ _
      obtain ⟨hmore, behind, hbehind⟩ := expressionsWithin_eq id h hbudget
      exact Option.bind_eq_some_iff.mpr ⟨_, hmore, finishLine_fills id hbehind⟩

/-! ### Forms of commands -/

theorem expression_leads : Leads site (Grammar.expression Id) := leads_of_refines Parser.expression_refines

theorem variableName_leads : Leads site Parser.variableName := leads_of_refines Parser.variableName_refines

theorem requireExpressions_fills (count : Nat) :
    Fills site (Grammar.requireExpressions Option count) (Grammar.requireExpressions Id count) := by
  induction count with
  | zero => exact finishLine_fills
  | succ count ih => exact require_fills _ (fun _ _ h => expression_eq h) expression_leads ih

theorem requireName_fills (expressions : Nat) :
    Fills site (Grammar.requireName Option expressions) (Grammar.requireName Id expressions) :=
  require_fills _ (fun _ _ _ => rfl) variableName_leads (requireExpressions_fills expressions)

theorem declaration_fills (kind : Declaration) :
    Fills site (Grammar.declaration Option kind) (Grammar.declaration Id kind) := by
  refine require_fills _ (fun _ _ _ => rfl) variableName_leads
    (attempt_fills (fun _ _ h => expression_eq h) expression_leads finishLine_fills fun p r id h => ?_)
  split
  · rename_i hend
    exact finishLine_fills id h
  · exact markRest_fills _ id h

/-- An operator and its right operand are taken, whatever is on the left. -/
theorem assignedOperation_eq (target : Nat) {op : Operator} (h : p.Reads site r) (hop : p.operator? = some op) :
    Grammar.assignedOperation Option target op p = some (Grammar.assignedOperation Id target op p) ∧
      ∃ behind, (Grammar.assignedOperation Id target op p).2.Reads site behind := by
  have hrest : r.rest ≠ [] := Reader.rest_ne_nil_of_operator? (h.operator?.symm.trans hop)
  have hcreated := (h.create (op.kind .unknown)).reads
  have hsigned := (hcreated.takeOperator hrest op).reads.adopt (p.create (op.kind .unknown)).1
    (Parser.takeOperator op (p.create (op.kind .unknown)).2).1
  have hbehind := Parser.expression_refines.reads hsigned
  unfold Grammar.assignedOperation
  dsimp only [Course.bind_counted]
  exact ⟨Option.bind_eq_some_iff.mpr ⟨_, expression_eq hsigned, rfl⟩,
    _, endOperation_reads hbehind op target _ _⟩

theorem assignedValue_eq (byReference : Bool) (target : Nat) (h : p.Reads site r) :
    Grammar.assignedValue Option byReference target p = some (Grammar.assignedValue Id byReference target p) ∧
      ∃ behind, (Grammar.assignedValue Id byReference target p).2.Reads site behind := by
  unfold Grammar.assignedValue
  cases hop : p.operator?.filter fun op => op.opensAssignment && !byReference with
  | none => exact ⟨expression_eq h, expression_leads h⟩
  | some op =>
      obtain ⟨hoperation, hbehind⟩ := assignedOperation_eq target h (Option.filter_eq_some_iff.mp hop).1
      exact ⟨congrArg (Option.map Grammar.found) hoperation, hbehind⟩

theorem assignment_fills (byReference : Bool) :
    Fills site (Grammar.assignment Option byReference) (Grammar.assignment Id byReference) := by
  intro p r id h
  have hvalue : ∀ target, Fills site
      (Grammar.require Option .expressionExpected (Grammar.assignedValue Option byReference target)
        (Grammar.finishLine Option))
      (Grammar.require Id .expressionExpected (Grammar.assignedValue Id byReference target) (Grammar.finishLine Id)) :=
    fun target => require_fills _ (fun _ _ h => (assignedValue_eq byReference target h).1)
      (fun _ _ h => (assignedValue_eq byReference target h).2) finishLine_fills
  have htarget : Grammar.target Option byReference p = some (Grammar.target Id byReference p) := by
    cases byReference
    · exact assignable_eq h
    · exact expression_eq h
  have hbehind : ∃ behind, (Grammar.target Id byReference p).2.Reads site behind := by
    cases byReference
    · exact ⟨_, Parser.assignable_refines.reads h⟩
    · exact expression_leads h
  unfold Grammar.assignment
  refine Option.bind_eq_some_iff.mpr ⟨_, htarget, ?_⟩
  dsimp only [Course.bind_counted]
  generalize Grammar.target Id byReference p = outcome at hbehind ⊢
  obtain ⟨behind, hbehind⟩ := hbehind
  obtain ⟨_ | target, q⟩ := outcome
  · exact markRest_fills _ id hbehind
  · dsimp only
    split
    · rfl
    · exact hvalue target id (hbehind.adopt id target)

theorem recuts_createAt (h : p.Recuts site r) (kind : Kind) (offset : Nat) :
    (p.createAt kind offset).2.Recuts site r := h.retree h.next.source

theorem recuts_adopt (h : p.Recuts site r) (parent child : Nat) : (p.adopt parent child).Recuts site r :=
  h.retree ((Tree.source_adopt _ _ _ _).trans h.next.source)

/-- A reference around a scene takes the label behind it. -/
theorem refer_reads (h : p.Recuts site r) (scene : Nat) :
    (Parser.refer scene p).2.Reads site (r.leafRun .label).2 :=
  ((recuts_adopt (recuts_createAt h .labelRef _) p.tree.size scene).leaf .label).reads.adopt p.tree.size _

theorem labelDeclaration_fills : Fills site (Grammar.labelDeclaration Option) (Grammar.labelDeclaration Id) :=
  requireRun_fills _ fun _ _ id hq => finishLine_fills id ((hq.leaf .label).reads.adopt id _)

theorem jump_fills (takes : Bool) : Fills site (Grammar.jump Option takes) (Grammar.jump Id takes) :=
  requireRun_fills _ fun q _ id hq => finishArguments_fills takes id
    ((((recuts_createAt hq .labelRef q.token.offset).leaf .label).reads.adopt q.tree.size _).adopt id _)

theorem sceneJump_fills (takes : Bool) : Fills site (Grammar.sceneJump Option takes) (Grammar.sceneJump Id takes) := by
  refine requireRun_fills _ fun q r id hq => ?_
  have hscene := (hq.leaf .sceneRef).reads
  dsimp only
  by_cases hrest : (r.leafRun .sceneRef).2.rest = []
  · rw [hscene.not_recut hrest]
    exact finishArguments_fills takes id (hscene.adopt id _)
  · obtain ⟨s, hrecut, -, hs⟩ := hscene.recut hrest
    rw [hrecut]
    exact finishArguments_fills takes id ((refer_reads hs _).adopt id _)

theorem namesWithin_eq (id : Nat) (h : p.Reads site r) (hbudget : r.rest.length ≤ budget) :
    Grammar.namesWithin Option spare id p = some (Grammar.namesWithin Id budget id p) := by
  induction budget generalizing p r with
  | zero =>
      rw [Grammar.namesWithin, checked_eq, if_pos (h.ends hbudget)]
      rfl
  | succ budget ih =>
      unfold Grammar.namesWithin
      rw [checked_eq, counted_succ]
      split
      · rfl
      · rename_i hend
        have hrest : r.rest ≠ [] := mt Reader.atEnd_iff.mpr (h.atEnd ▸ hend)
        unfold Grammar.requireVariable Grammar.require
        refine attempt_eq rfl (Parser.variableName_refines h) (fun hname hq => ?_) (markRest_fills _ id h)
        have hyield := Reader.variableName_regular r
        generalize r.variableName = read at hname hq hyield
        cases hyield with
        | none => cases hname
        | found hyield =>
            have hlt := Nat.lt_of_le_of_lt hyield.taken.length_le (Reader.next_length_lt hrest)
            exact (again_of_advances (h.advances hq.toStands hlt) id).trans
              (ih hq (Nat.le_of_lt_succ (Nat.lt_of_lt_of_le hlt hbudget)))

theorem names_fills :
    Fills site (fun id p => Grammar.namesWithin Option p.budget id p) fun id p => Grammar.namesWithin Id p.budget id p := by
  intro p r id h
  exact namesWithin_eq id h (h.budget ▸ Nat.le_succ _)

end Gamebook.Checked
