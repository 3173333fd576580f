import Gamebook.Expression
import Gamebook.Proofs.Reader.Outcome

/-!
The rules of expressions keep to the line. Chains, groups, calls and indices are read over a rule for
what stands inside them, and have a proper outcome whenever that rule has; by the depth to which
expressions are nested, so has every expression.
-/

namespace Gamebook.Reader

open Phrase (Grows)

variable {r : Reader}

/-- The rule has a proper outcome wherever it is applied. -/
def Regular (rule : Reading) : Prop := ∀ r : Reader, r.MayYield (rule r)

theorem kind_isPart (op : Operator) (type : ValueType) : (op.kind type).isPart = true := by
  unfold Operator.kind
  cases op.family <;> rfl

theorem kind_isLeaf (op : Operator) (type : ValueType) : (op.kind type).isLeaf = false := by
  unfold Operator.kind
  cases op.family <;> rfl

theorem takeOperator_yields (r : Reader) (op : Operator) : r.Yields (r.takeOperator op) := by
  have hleaf := r.leaf_yields (.operator op op.resultType) rfl
  refine ⟨?_, hleaf.taken⟩
  show r.Reads Kind.isPart (if op = .deprecatedModulo then _ else _) _
  split
  · exact hleaf.reads.flagWhole (.inr ⟨rfl, rfl⟩) fun _ => leaf_stop_le _ _
  · exact hleaf.reads

theorem variableName_regular : Regular variableName := by
  intro r
  unfold variableName
  split
  · exact .found (r.leaf_yields _ rfl)
  · exact .none

theorem stringValue_yields (r : Reader) : r.Yields r.stringValue := by
  have hleaf := r.leaf_yields .stringValue rfl
  refine ⟨?_, hleaf.taken⟩
  show r.Reads Kind.isPart (if r.sees .badString then _ else _) _
  split
  · exact hleaf.reads.flagWhole (.inl (by decide)) fun _ => leaf_stop_le _ _
  · exact hleaf.reads

theorem termOf_yields (type : ValueType) {literal : Phrase × Reader} (hliteral : r.Yields literal) :
    r.Yields (termOf type r literal) :=
  ⟨reads_begin rfl (.finish (Grows.read .refl hliteral.reads)), hliteral.taken⟩

/-- Operations are chained as long as operators follow: each step of the chain takes an operator and
an operand, and what it leaves is the left operand of the next step. -/
theorem chain_yields {operand : Reading} (hoperand : Regular operand) (level : Precedence)
    (budget : Nat) {start : Reader} {left : Phrase} (hleft : start.Yields (left, r)) :
    start.Yields (chain level operand budget left r) := by
  induction budget generalizing left r with
  | zero => exact hleft
  | succ budget ih =>
      unfold chain
      split
      · exact hleft
      · rename_i op _
        have hsign := r.takeOperator_yields op
        have hright := hoperand (r.takeOperator op).2
        have hoperation : start.Reads Kind.isPart (.around (op.kind (op.infer left.operand
            (Phrase.operand? (operand (r.takeOperator op).2).1))) left.start [left]) r :=
          hleft.reads.around (kind_isPart op _)
        have herror : Rule.termExpected.IsError := rfl
        have hgrown := hoperation.grow (.finish ((Grows.read .refl hsign.reads).addOr hright herror
          (kind_isLeaf op _)))
        exact ih ⟨hgrown, hleft.taken.trans (hsign.reads.reaches.trans hright.reaches)⟩

theorem operations_regular {operand : Reading} (hoperand : Regular operand) (budget : Nat)
    (level : Precedence) : Regular (operations budget operand level) := by
  intro r
  unfold operations
  have hleft := hoperand r
  generalize operand r = outcome at hleft
  cases hleft with
  | none => exact .none
  | found hleft => exact .found (chain_yields hoperand level budget hleft)

theorem expressionOver_regular {term : Reading} (hterm : Regular term) (budget : Nat) :
    Regular (expressionOver budget term) := by
  have hlevels : ∀ (levels : List Precedence) (operand : Reading), Regular operand →
      Regular (levels.foldl (operations budget) operand) := by
    intro levels
    induction levels with
    | nil => exact fun _ hoperand => hoperand
    | cons level more ih => exact fun operand hoperand => ih _ (operations_regular hoperand budget level)
  exact hlevels levels term hterm

/-! ### Terms over expressions -/

variable {expression : Reading} (hexpression : Regular expression)
include hexpression

/-- An expression is read and added, or its absence is marked. -/
theorem inner_grows {phrase grown : Phrase} {behind : Reader} (h : phrase.Grows r grown behind)
    (hleaf : grown.kind.isLeaf = false) :
    phrase.Grows r (grown.addOr (expression behind).1 .expressionExpected (expression behind).2)
      (expression behind).2 :=
  h.addOr (hexpression behind) (by decide) hleaf

theorem group_yields (r : Reader) : r.Yields (group expression r) :=
  yields_begin rfl (.finish ((inner_grows hexpression .refl rfl).close _ (by decide)))

theorem computedReference_yields (r : Reader) : r.Yields (computedReference expression r) := by
  have hinner : (Phrase.begin (.term .unknown .computedReference) r).Grows r.next _ _ :=
    inner_grows hexpression .refl rfl
  have haccept := (expression r.next).2.reaches_accept .curlyR
  simp only [computedReference]
  split
  · rename_i closed hclosed
    rw [hclosed] at haccept
    exact yields_begin rfl (.finish (.skip hinner haccept))
  · rename_i closed hclosed
    rw [hclosed] at haccept
    exact yields_begin rfl (.finish ((Grows.skip hinner haccept).complain (by decide) (hinner.kind_eq ▸ rfl)))

theorem call_regular (function : Function) : Regular (call expression function) := by
  intro r
  simp only [call]
  split
  · exact .found (yields_begin rfl (.finish
      ((inner_grows hexpression (.skip .refl r.next.reaches_next) rfl).close _ (by decide))))
  · exact .none

theorem indices_extends (budget : Nat) {term : Phrase} (hterm : term.kind.isLeaf = false) (r : Reader) :
    r.Extends term (indices expression budget term r) := by
  induction budget generalizing term r with
  | zero => exact .refl
  | succ budget ih =>
      simp only [indices]
      split
      · have hinner := inner_grows hexpression (.skip .refl r.reaches_next) hterm
        have hclose := hinner.close .bracketR (by decide : Rule.rightBracketExpected.IsError)
        split
        · rename_i closed behind hclosed
          rw [hclosed] at hclose
          exact hclose.trans (ih (hclose.kind_eq ▸ hterm) behind)
        · rename_i closed behind hclosed
          rw [hclosed] at hclose
          exact hclose
      · exact .refl

theorem variableTerm_yields (budget : Nat) (r : Reader) : r.Yields (variableTerm budget expression r) := by
  have hname := r.leaf_yields .var rfl
  simp only [variableTerm]
  generalize (if (r.leaf Kind.var).2.seesIndex then TermForm.arrayIndex else TermForm.var) = form
  have hterm : (Phrase.begin (.term .unknown form) r).Grows r _ _ := .read .refl hname.reads
  have hindices : r.next.Extends ((Phrase.begin (.term .unknown form) r).add (r.leaf .var).1) _ :=
    indices_extends hexpression budget rfl r.next
  exact ⟨reads_begin rfl (.finish (hterm.trans hindices)), hindices.reaches⟩

theorem nameTerm_regular (budget : Nat) : Regular (nameTerm budget expression) := by
  intro r
  simp only [nameTerm]
  split
  · exact .found (termOf_yields .boolean (r.leaf_yields _ rfl))
  · split
    · exact call_regular hexpression _ r
    · split
      · exact .none
      · exact .found (variableTerm_yields hexpression budget r)

theorem termOver_regular (budget : Nat) : Regular (termOver budget expression) := by
  intro r
  simp only [termOver]
  split
  · exact .found (termOf_yields .number (r.leaf_yields _ rfl))
  · exact .found (termOf_yields .string r.stringValue_yields)
  · exact .found (termOf_yields .string r.stringValue_yields)
  · exact .found (group_yields hexpression r)
  · exact .found (computedReference_yields hexpression r)
  · exact nameTerm_regular hexpression budget r
  · exact .none

omit hexpression

theorem expressionWithin_regular (budget : Nat) : Regular (expressionWithin budget) := by
  induction budget with
  | zero => exact fun _ => .none
  | succ budget ih => exact expressionOver_regular (termOver_regular ih budget) budget

theorem expression_regular : Regular Reader.expression :=
  fun r => expressionWithin_regular r.budget r

theorem term_regular : Regular term :=
  fun r => termOver_regular (expressionWithin_regular r.budget) r.budget r

theorem assignable_regular : Regular assignable := by
  intro r
  simp only [assignable]
  split
  · exact .found (computedReference_yields expression_regular r)
  · split
    · split
      · exact .found (variableTerm_yields expression_regular r.budget r)
      · exact .found (r.leaf_yields _ rfl)
    · exact .none

theorem assignedOperation_yields (r : Reader) (target : Phrase) (op : Operator) :
    r.Yields (assignedOperation target op r) := by
  have hsign := r.takeOperator_yields op
  have hright := expression_regular (r.takeOperator op).2
  have hoperation : (Phrase.begin (op.kind (op.infer target.operand
      (Phrase.operand? (Reader.expression (r.takeOperator op).2).1))) r).Grows r _ _ :=
    (Grows.read .refl hsign.reads).addOr hright (rfl : Rule.termExpected.IsError) (kind_isLeaf op _)
  exact ⟨reads_begin (kind_isPart op _) (.finish hoperation), hsign.taken.trans hright.reaches⟩

end Gamebook.Reader
