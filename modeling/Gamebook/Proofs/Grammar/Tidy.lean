import Gamebook.Proofs.Grammar.Sound
import Gamebook.Proofs.Phrase.Laid

/-!
Expressions do not overlap with what follows them. An expression ends where its reader stands, or with the
next lexeme when an error was marked there, and all names in it stand alone.
-/

namespace Gamebook

namespace Reader

variable {r behind : Reader}

theorem offset_lt_next (h : r.rest ≠ []) : r.offset < r.next.lastEnd := by
  unfold next
  split
  · rename_i hfirst
    exact absurd (Lexeme.first?_eq_none_iff.mp hfirst) h
  · rename_i hfirst
    exact Nat.lt_add_of_pos_right (Text.bytes_pos (Lexeme.ne_nil_of_first? hfirst))

theorem offset_lt_nextRun (htrimmed : r.Trimmed) (h : r.rest ≠ []) : r.offset < r.nextRun.lastEnd := by
  refine Nat.lt_add_of_pos_right (Text.bytes_pos ?_)
  obtain ⟨c, more, hcons⟩ := List.exists_cons_of_ne_nil h
  have hblank : Text.isBlank c = false := htrimmed c (by rw [hcons]; rfl)
  rw [run, hcons, List.takeWhile_cons, hblank]
  simp

theorem Reaches.lastEnd_le (h : r.Reaches behind) (hordered : r.Ordered) : r.lastEnd ≤ behind.lastEnd := by
  induction h with
  | refl => exact Nat.le_refl _
  | advance hmiddle _ ih =>
      exact Nat.le_trans ih (Nat.le_trans (hmiddle.ordered hordered) (Nat.le_add_right _ _))
  | switch _ _ ih => exact ih

end Reader

namespace Phrase

/-- A phrase that an expression is made of. It ends no later than the next lexeme, and where it has no
errors no later than the reader stands. -/
structure Tidy (phrase : Phrase) (r : Reader) : Prop where
  inner : phrase.Inner
  ordered : r.Ordered
  stop : phrase.stop ≤ r.offset + Text.bytes r.text
  clean : phrase.Clean → phrase.stop ≤ r.offset

variable {phrase part : Phrase} {r behind : Reader}

theorem tidy_begin {kind : Kind} (hkind : kind.isInner = true) (hname : kind.isName = false)
    (hordered : r.Ordered) : (begin kind r).Tidy r :=
  ⟨⟨laid_empty hname (Kind.isScoped_of_isInner hkind) _, hkind⟩, hordered, Nat.le_add_right _ _,
    fun _ => Nat.le_refl _⟩

theorem Tidy.mono (h : phrase.Tidy r) (hreach : r.Reaches behind)
    (hle : r.offset + Text.bytes r.text ≤ behind.offset) : phrase.Tidy behind :=
  have hstop := Nat.le_trans h.stop hle
  ⟨h.inner, hreach.ordered h.ordered, Nat.le_trans hstop (Nat.le_add_right _ _), fun _ => hstop⟩

theorem Tidy.skip (h : phrase.Tidy r) (hreach : r.next.Reaches behind) : phrase.Tidy behind :=
  h.mono (r.reaches_next.trans hreach) (Nat.le_trans r.textEnd_le_next hreach.offset_le)

theorem Tidy.add (h : phrase.Tidy r) (hholder : phrase.kind.isHolder = true) (hpart : part.Tidy r) :
    (phrase.add part).Tidy r := by
  refine ⟨⟨h.inner.laid.addInner hholder hpart.inner, h.inner.kind⟩, h.ordered,
    Nat.max_le.mpr ⟨h.stop, hpart.stop⟩, fun hclean => ?_⟩
  obtain ⟨hphrase, hadded⟩ := clean_add.mp hclean
  exact Nat.max_le.mpr ⟨h.clean hphrase, hpart.clean hadded⟩

theorem Tidy.finish (h : phrase.Tidy r) : (phrase.finish r).Tidy r := by
  refine ⟨⟨h.inner.laid.finish r, h.inner.kind⟩, h.ordered, ?_, fun hclean => ?_⟩
  · exact Nat.max_le.mpr ⟨h.stop, Nat.le_trans h.ordered (Nat.le_add_right _ _)⟩
  · exact Nat.max_le.mpr ⟨h.clean ((clean_finish r).mp hclean), h.ordered⟩

theorem Tidy.complain (h : phrase.Tidy r) (rule : Rule) (hrule : rule.IsError) :
    (phrase.complain rule r).Tidy r := by
  refine ⟨⟨h.inner.laid.complain rule r, h.inner.kind⟩, h.ordered, Nat.max_le.mpr ⟨h.stop, Nat.le_refl _⟩,
    fun hclean => ?_⟩
  exact absurd hrule (clean_flag.mp hclean).2

theorem Tidy.flagWhole (h : phrase.Tidy r) (rule : Rule) : (phrase.flagWhole rule).Tidy r := by
  have hstop : (phrase.flagWhole rule).stop = phrase.stop := by
    show max phrase.stop (phrase.start + (phrase.stop - phrase.start)) = phrase.stop
    have := h.inner.laid.fits.ordered
    omega
  refine ⟨⟨h.inner.laid.flagWhole rule, h.inner.kind⟩, h.ordered, hstop ▸ h.stop, fun hclean => ?_⟩
  rw [hstop]
  exact h.clean (clean_flag.mp hclean).1

theorem Tidy.around {kind : Kind} (h : phrase.Tidy r) (hkind : kind.isInner = true)
    (hname : kind.isName = false) (hholder : kind.isHolder = true) :
    (Phrase.around kind phrase.start [phrase]).Tidy r := by
  have hstop : (Phrase.around kind phrase.start [phrase]).stop = phrase.stop :=
    Nat.max_eq_right h.inner.laid.fits.ordered
  refine ⟨⟨?_, hkind⟩, h.ordered, hstop ▸ h.stop, fun hclean => ?_⟩
  · rw [around_eq_settled, addAll_singleton]
    exact ((laid_empty hname (Kind.isScoped_of_isInner hkind) _).addInner hholder h.inner).settled
  · rw [hstop]
    exact h.clean ((clean_around kind phrase.start).mp hclean)

/-- What a rule recognises behind a phrase is added to it, or its absence is marked. -/
theorem Tidy.addOr {outcome : Option Phrase × Reader} (h : phrase.Tidy r)
    (hholder : phrase.kind.isHolder = true) (hyields : r.MayYield outcome)
    (hfound : ∀ part, outcome.1 = some part → part.Tidy outcome.2) (rule : Rule) (hrule : rule.IsError) :
    (phrase.addOr outcome.1 rule outcome.2).Tidy outcome.2 := by
  cases hyields with
  | none => exact h.complain rule hrule
  | found hyields => exact (h.skip hyields.taken).add hholder (hfound _ rfl)

theorem Tidy.close (h : phrase.Tidy r) (kind : TokenKind) (rule : Rule) (hrule : rule.IsError) :
    (phrase.close kind rule r).2.1.Tidy (phrase.close kind rule r).2.2 := by
  by_cases hsees : r.sees kind = true
  · rw [close_of_sees hsees]
    exact h.skip .refl
  · rw [close_of_not_sees hsees]
    exact (h.mono r.reaches_skipLine (Reader.textEnd_le_skipTo fun _ _ => rfl)).complain rule hrule

theorem tidy_leaf {kind : Kind} (hkind : kind.isInner = true) (hordered : r.Ordered)
    (hfilled : kind.isName = true → r.rest ≠ []) : (r.leaf kind).1.Tidy r.next := by
  have hle := r.reaches_next.offset_le
  have hnext : r.next.Ordered := r.reaches_next.ordered hordered
  have hstop : (r.leaf kind).1.stop ≤ r.next.offset := Nat.max_le.mpr ⟨hle, hnext⟩
  refine ⟨⟨?_, hkind⟩, hnext, Nat.le_trans hstop (Nat.le_add_right _ _), fun _ => hstop⟩
  cases hname : kind.isName with
  | true => exact laid_reach (Reader.offset_lt_next (hfilled hname))
  | false => exact (laid_empty hname (Kind.isScoped_of_isInner hkind) _).reach _

end Phrase

namespace Reader

open Phrase (Tidy tidy_begin tidy_leaf)

variable {r behind : Reader} {phrase : Phrase}

def Neat (rule : Reading) : Prop := ∀ r : Reader, r.Ordered → ∀ phrase, (rule r).1 = some phrase →
  phrase.Tidy (rule r).2

theorem Ordered.next (hordered : r.Ordered) : r.next.Ordered := r.reaches_next.ordered hordered

/-! ### Operations -/

theorem kind_isInner (op : Operator) (type : ValueType) :
    (op.kind type).isInner = true ∧ (op.kind type).isName = false ∧ (op.kind type).isHolder = true := by
  unfold Operator.kind
  cases op.family <;> exact ⟨rfl, rfl, rfl⟩

theorem takeOperator_tidy (op : Operator) (hordered : r.Ordered) : (r.takeOperator op).1.Tidy r.next := by
  have hleaf : (r.leaf (.operator op op.resultType)).1.Tidy r.next := tidy_leaf rfl hordered nofun
  show Tidy (if op = .deprecatedModulo then _ else _) _
  split
  · exact hleaf.flagWhole _
  · exact hleaf

theorem operationOn_tidy {left : Phrase} {op : Operator} {found : Option Phrase × Reader} (hleft : left.Tidy r)
    (hfound : r.next.MayYield found) (hright : ∀ right, found.1 = some right → right.Tidy found.2) :
    (operationOn left op r found).Tidy found.2 := by
  obtain ⟨hinner, hname, hholder⟩ := kind_isInner op (op.infer left.operand (Phrase.operand? found.1))
  have hsign := takeOperator_tidy op hleft.ordered
  exact ((((hleft.around hinner hname hholder).skip .refl).add hholder hsign).addOr hholder hfound hright
    .termExpected rfl).finish

theorem chain_tidy {operand : Reading} (hregular : Regular operand) (hoperand : Neat operand)
    (level : Precedence) (budget : Nat) {left : Phrase} (hleft : left.Tidy r) :
    (chain level operand budget left r).1.Tidy (chain level operand budget left r).2 := by
  induction budget generalizing left r with
  | zero => exact hleft
  | succ budget ih =>
      cases hop : r.operatorAt? level with
      | none =>
          rw [chain_none hop]
          exact hleft
      | some op =>
          rw [chain_some hop]
          exact ih (operationOn_tidy hleft (hregular r.next) (hoperand r.next hleft.ordered.next))

theorem operations_neat {operand : Reading} (hregular : Regular operand) (hoperand : Neat operand) (budget : Nat)
    (level : Precedence) : Neat (operations budget operand level) := by
  intro r hordered phrase hfound
  have hleft := hoperand r hordered
  unfold operations at hfound ⊢
  generalize operand r = outcome at hfound hleft ⊢
  obtain ⟨found, behind⟩ := outcome
  cases found with
  | none => cases hfound
  | some left =>
      cases hfound
      exact chain_tidy hregular hoperand level budget (hleft left rfl)

theorem expressionOver_neat {term : Reading} (hregular : Regular term) (hterm : Neat term) (budget : Nat) :
    Neat (expressionOver budget term) := by
  let property (_ : Nat) (rule : Reading) := Regular rule ∧ Neat rule
  have hstep : ∀ (level : Precedence) (operand : Reading),
      property (level.rank + 1) operand → property level.rank (operations budget operand level) := by
    rintro level operand ⟨hregular, hoperand⟩
    exact ⟨operations_regular hregular budget level, operations_neat hregular hoperand budget level⟩
  exact (expressionOver_induction (show property 6 term from ⟨hregular, hterm⟩) hstep).2

/-! ### Terms -/

theorem termOf_tidy (type : ValueType) {literal : Phrase × Reader} (hliteral : literal.1.Tidy literal.2)
    (hreach : r.next.Reaches literal.2) (hordered : r.Ordered) :
    (termOf type r literal).1.Tidy (termOf type r literal).2 :=
  (((tidy_begin rfl rfl hordered).skip hreach).add rfl hliteral).finish

theorem stringValue_tidy (hordered : r.Ordered) : r.stringValue.1.Tidy r.next := by
  have hleaf : (r.leaf .stringValue).1.Tidy r.next := tidy_leaf rfl hordered nofun
  show Tidy (if r.sees .badString then _ else _) _
  split
  · exact hleaf.flagWhole _
  · exact hleaf

section Terms

variable {expression : Reading} (hregular : Regular expression) (hexpression : Neat expression)
include hregular hexpression

/-- An expression is read and added, or its absence is marked. -/
theorem inner_tidy (hphrase : phrase.Tidy r) (hholder : phrase.kind.isHolder = true) :
    (phrase.addOr (expression r).1 .expressionExpected (expression r).2).Tidy (expression r).2 :=
  hphrase.addOr hholder (hregular r) (hexpression r hphrase.ordered) _ rfl

theorem group_tidy (hordered : r.Ordered) : (group expression r).1.Tidy (group expression r).2 :=
  ((inner_tidy hregular hexpression ((tidy_begin rfl rfl hordered).skip .refl) rfl).close .parenR
    .rightParenthesisExpected rfl).finish

theorem computedReference_tidy (hordered : r.Ordered) :
    (computedReference expression r).1.Tidy (computedReference expression r).2 := by
  have hinner := inner_tidy hregular hexpression
    ((tidy_begin rfl rfl hordered : (Phrase.begin (.term .unknown .computedReference) r).Tidy r).skip .refl) rfl
  simp only [computedReference, accept]
  split
  · rename_i closed hclosed
    split at hclosed <;> cases hclosed
    exact (hinner.skip .refl).finish
  · rename_i closed hclosed
    split at hclosed <;> cases hclosed
    exact (hinner.complain .rightCurlyExpected rfl).finish

theorem call_neat (function : Function) : Neat (call expression function) := by
  intro r hordered phrase hfound
  simp only [call] at hfound ⊢
  split
  · rename_i hopens
    rw [if_pos hopens] at hfound
    cases hfound
    have hbegun : (Phrase.begin (.term (if Phrase.operand? (expression r.next.next).1 = .malformed
        then .unknown else function.resultType) (.call function)) r).Tidy r := tidy_begin rfl rfl hordered
    exact ((inner_tidy hregular hexpression (hbegun.skip r.next.reaches_next) rfl).close .parenR
      .rightParenthesisExpected rfl).finish
  · rename_i hopens
    rw [if_neg hopens] at hfound
    cases hfound

theorem indices_tidy (budget : Nat) {term : Phrase} (hterm : term.Tidy r) (hholder : term.kind.isHolder = true) :
    (indices expression budget term r).1.Tidy (indices expression budget term r).2 := by
  induction budget generalizing term r with
  | zero => exact hterm
  | succ budget ih =>
      simp only [indices]
      split
      · have hinner := inner_tidy hregular hexpression (hterm.skip .refl) hholder
        have hclose := hinner.close .bracketR .rightBracketExpected rfl
        have hkind := Phrase.close_kind (term.addOr (expression r.next).1 .expressionExpected (expression r.next).2)
          .bracketR .rightBracketExpected (expression r.next).2
        rw [Phrase.addOr_kind] at hkind
        split
        · rename_i closed behind hclosed
          rw [hclosed] at hclose hkind
          exact ih hclose (hkind ▸ hholder)
        · rename_i closed behind hclosed
          rw [hclosed] at hclose
          exact hclose
      · exact hterm

theorem variableTerm_tidy (budget : Nat) (hordered : r.Ordered) (hrest : r.rest ≠ []) :
    (variableTerm budget expression r).1.Tidy (variableTerm budget expression r).2 := by
  simp only [variableTerm]
  generalize (if (r.leaf Kind.var).2.seesIndex then TermForm.arrayIndex else TermForm.var) = form
  have hnamed : ((Phrase.begin (.term .unknown form) r).add (r.leaf .var).1).Tidy r.next :=
    ((tidy_begin rfl rfl hordered).skip .refl).add rfl (tidy_leaf rfl hordered fun _ => hrest)
  exact (indices_tidy hregular hexpression budget hnamed rfl).finish

theorem nameTerm_tidy (budget : Nat) (hordered : r.Ordered) (hrest : r.rest ≠ [])
    (hfound : (nameTerm budget expression r).1 = some phrase) :
    phrase.Tidy (nameTerm budget expression r).2 := by
  simp only [nameTerm] at hfound ⊢
  split at hfound
  · rename_i hword
    rw [if_pos hword]
    cases hfound
    exact termOf_tidy .boolean (tidy_leaf rfl hordered fun hname => by cases hname) .refl hordered
  · rename_i hword
    rw [if_neg hword]
    cases hfunction : Function.ofKeyword? r.word with
    | some function =>
        rw [hfunction] at hfound
        exact call_neat hregular hexpression function r hordered phrase hfound
    | none =>
        rw [hfunction] at hfound
        dsimp only at hfound ⊢
        split at hfound
        · cases hfound
        · rename_i hreserved
          rw [if_neg hreserved]
          cases hfound
          exact variableTerm_tidy hregular hexpression budget hordered hrest

theorem termOver_neat (budget : Nat) : Neat (termOver budget expression) := by
  intro r hordered phrase hfound
  unfold termOver at hfound ⊢
  dsimp only at hfound ⊢
  split at hfound
  · cases hfound
    exact termOf_tidy .number (tidy_leaf rfl hordered nofun) .refl hordered
  · cases hfound
    exact termOf_tidy .string (stringValue_tidy hordered) .refl hordered
  · cases hfound
    exact termOf_tidy .string (stringValue_tidy hordered) .refl hordered
  · cases hfound
    exact group_tidy hregular hexpression hordered
  · cases hfound
    exact computedReference_tidy hregular hexpression hordered
  · rename_i hkind
    exact nameTerm_tidy hregular hexpression budget hordered (rest_ne_nil_of_kind? hkind) hfound
  · cases hfound

end Terms

theorem expressionWithin_neat (budget : Nat) : Neat (expressionWithin budget) := by
  induction budget with
  | zero => exact nofun
  | succ budget ih =>
      have hregular := expressionWithin_regular budget
      exact expressionOver_neat (termOver_regular hregular budget) (termOver_neat hregular ih budget) budget

theorem expression_neat : Neat Reader.expression :=
  fun r => expressionWithin_neat r.budget r

theorem term_neat : Neat term :=
  fun r => termOver_neat (expressionWithin_regular r.budget) (expressionWithin_neat r.budget) r.budget r

theorem rest_ne_nil_of_seesName (h : r.seesName = true) : r.rest ≠ [] :=
  rest_ne_nil_of_sees (Bool.and_eq_true_iff.mp h).1

theorem variableName_neat : Neat variableName := by
  intro r hordered phrase hfound
  unfold variableName at hfound ⊢
  split at hfound
  · rename_i hname
    rw [if_pos hname]
    cases hfound
    exact tidy_leaf rfl hordered fun _ => rest_ne_nil_of_seesName hname
  · cases hfound

theorem assignable_neat : Neat assignable := by
  intro r hordered phrase hfound
  simp only [assignable] at hfound ⊢
  split at hfound
  · rename_i hcomputed
    rw [if_pos hcomputed]
    cases hfound
    exact computedReference_tidy expression_regular expression_neat hordered
  · rename_i hcomputed
    rw [if_neg hcomputed]
    split at hfound
    · rename_i hname
      have hrest := rest_ne_nil_of_seesName hname
      rw [if_pos hname]
      split at hfound
      · rename_i hindex
        rw [if_pos hindex]
        cases hfound
        exact variableTerm_tidy expression_regular expression_neat r.budget hordered hrest
      · rename_i hindex
        rw [if_neg hindex]
        cases hfound
        exact tidy_leaf rfl hordered fun _ => hrest
    · cases hfound

theorem assignedOperation_tidy (target : Phrase) (op : Operator) (hordered : r.Ordered) :
    (assignedOperation target op r).1.Tidy (assignedOperation target op r).2 := by
  have hright := expression_neat r.next hordered.next
  obtain ⟨hinner, hname, hholder⟩ :=
    kind_isInner op (op.infer target.operand (Phrase.operand? (Reader.expression r.next).1))
  have hsigned := ((tidy_begin hinner hname hordered).skip .refl).add hholder (takeOperator_tidy op hordered)
  exact (hsigned.addOr hholder (expression_regular r.next) hright .termExpected rfl).finish

end Reader

end Gamebook
