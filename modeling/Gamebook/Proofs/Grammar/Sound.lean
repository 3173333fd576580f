import Gamebook.Proofs.Grammar.Expression
import Gamebook.Proofs.Phrase.Shape

/-!
No expression is read without a derivation. Where a rule recognises something and marks no error in it, the
lexemes that it takes derive an expression of its level.
-/

namespace Gamebook

namespace Phrase

variable {phrase : Phrase} {kind : TokenKind} {rule : Rule} {r : Reader}

theorem close_of_sees (h : r.sees kind = true) : phrase.close kind rule r = (true, phrase, r.next) := by
  rw [close, Reader.accept, if_pos h]

theorem close_of_not_sees (h : ¬r.sees kind = true) :
    phrase.close kind rule r = (false, phrase.complain rule r.skipLine, r.skipLine) := by
  rw [close, Reader.accept, if_neg h]

/-- Where no error is marked, the closing sign was there. -/
theorem sees_of_clean_close (hrule : rule.IsError) (h : (phrase.close kind rule r).2.1.Clean) :
    r.sees kind = true ∧ phrase.Clean := by
  by_cases hsees : r.sees kind = true
  · rw [close_of_sees hsees] at h
    exact ⟨hsees, h⟩
  · rw [close_of_not_sees hsees, complain, clean_flag] at h
    exact absurd hrule h.2

theorem clean_finishLine : (phrase.finishLine r).1.Clean ↔ phrase.Clean ∧ r.rest = [] := by
  have herror : Rule.unexpectedToken.IsError := rfl
  unfold finishLine
  split
  · rename_i hend
    rw [clean_finish]
    exact ⟨fun hclean => ⟨hclean, Reader.atEnd_iff.mp hend⟩, And.left⟩
  · rename_i hend
    rw [clean_finish, clean_flag]
    exact ⟨fun hclean => absurd herror hclean.2, fun hclean => absurd (Reader.atEnd_iff.mpr hclean.2) hend⟩

end Phrase

namespace Reader

open Phrase (clean_addOr close_of_sees close_of_not_sees sees_of_clean_close)

variable {r behind : Reader} {phrase : Phrase}

/-- Whatever the rule recognises without an error has a derivation of the given level. -/
def Justified (level : Nat) (rule : Reading) : Prop := ∀ (r behind : Reader) (phrase : Phrase), r.Trimmed →
  rule r = (some phrase, behind) → phrase.Clean →
    ∃ front shape, r.lexemes = front ++ behind.lexemes ∧ Derives level front shape

/-! ### Operations -/

theorem exists_sign (htrimmed : r.Trimmed) {level : Precedence} {op : Operator}
    (h : r.operatorAt? level = some op) : op.rank = level.rank ∧ ∃ sign : Located,
      sign.lexeme = op.sign ∧ r.lexemes = sign :: r.next.lexemes := by
  obtain ⟨hfound, hlevel⟩ := Option.filter_eq_some_iff.mp h
  obtain ⟨lexeme, hlexeme, hop⟩ := Option.bind_eq_some_iff.mp hfound
  have hcons := (lexemes_of_lexeme? htrimmed hlexeme).2
  obtain ⟨⟨_, left⟩, hfirst, rfl⟩ := Option.map_eq_some_iff.mp hlexeme
  refine ⟨?_, _, Lexeme.eq_sign_of_ofLexeme? hfirst hop, hcons⟩
  rw [← op.rank_precedence, beq_iff_eq.mp hlevel]

/-- An operation on a left operand, with what was found behind its operator. -/
def operationOn (left : Phrase) (op : Operator) (r : Reader) (found : Option Phrase × Reader) : Phrase :=
  (((Phrase.around (op.kind (op.infer left.operand (Phrase.operand? found.1))) left.start [left]).add
    (r.takeOperator op).1).addOr found.1 .termExpected found.2).finish found.2

theorem chain_none {operand : Reading} {level : Precedence} {left : Phrase} (h : r.operatorAt? level = none)
    (budget : Nat) : chain level operand budget left r = (left, r) := by
  cases budget with
  | zero => rfl
  | succ budget => rw [chain, h]

theorem chain_some {operand : Reading} {level : Precedence} {left : Phrase} {op : Operator}
    (h : r.operatorAt? level = some op) (budget : Nat) : chain level operand (budget + 1) left r =
      chain level operand budget (operationOn left op r (operand r.next)) (operand r.next).2 := by
  rw [chain, h]
  rfl

theorem clean_takeOperator (r : Reader) (op : Operator) : (r.takeOperator op).1.Clean := by
  show Phrase.Clean (if op = .deprecatedModulo then _ else _)
  split
  · rw [Phrase.flagWhole, Phrase.clean_flag]
    exact ⟨by simp, nofun⟩
  · simp

theorem clean_operationOn {left : Phrase} {op : Operator} {found : Option Phrase × Reader} :
    (operationOn left op r found).Clean ↔ left.Clean ∧ ∃ right, found.1 = some right ∧ right.Clean := by
  have hsign := r.clean_takeOperator op
  have herror : Rule.termExpected.IsError := rfl
  rw [operationOn, Phrase.clean_finish, clean_addOr herror, Phrase.clean_add, Phrase.clean_around]
  simp [hsign]

theorem chain_justified {operand : Reading} {level : Precedence} (hregular : Regular operand)
    (hoperand : Justified (level.rank + 1) operand) (budget : Nat) {left : Phrase} (htrimmed : r.Trimmed)
    (hclean : (chain level operand budget left r).1.Clean) :
    left.Clean ∧ ∃ front, r.lexemes = front ++ (chain level operand budget left r).2.lexemes ∧
      ∀ {before first}, Derives level.rank before first → ∃ shape, Derives level.rank (before ++ front) shape := by
  have hnone : ∀ r : Reader, ∃ front, r.lexemes = front ++ r.lexemes ∧ ∀ {before first},
      Derives level.rank before first → ∃ shape, Derives level.rank (before ++ front) shape :=
    fun _ => ⟨[], rfl, fun {_ first} h => ⟨first, by rwa [List.append_nil]⟩⟩
  -- each step hands its operation on as the left operand of the next one, and so its derivation
  induction budget generalizing left r with
  | zero => exact ⟨hclean, hnone r⟩
  | succ budget ih =>
      cases hop : r.operatorAt? level with
      | none =>
          rw [chain_none hop] at hclean ⊢
          exact ⟨hclean, hnone r⟩
      | some op =>
          rw [chain_some hop] at hclean ⊢
          have hbehind : (operand r.next).2.Trimmed := (hregular r.next).reaches.trimmed htrimmed.next
          obtain ⟨hoperation, front, hfront, hderives⟩ := ih hbehind hclean
          obtain ⟨hleft, right, hright, hrightClean⟩ := clean_operationOn.mp hoperation
          obtain ⟨hlevel, sign, hsign, hcons⟩ := exists_sign htrimmed hop
          obtain ⟨inner, second, hinner, hsecond⟩ := hoperand _ _ _ htrimmed.next (Prod.ext hright rfl) hrightClean
          refine ⟨hleft, sign :: (inner ++ front), ?_, ?_⟩
          · rw [hcons, hinner, hfront, List.cons_append, List.append_assoc]
          · intro before first hfirst
            obtain ⟨shape, hshape⟩ := hderives (.operation hsign (Nat.le_of_eq hlevel.symm)
              (hlevel.symm ▸ hfirst) (hlevel.symm ▸ hsecond))
            refine ⟨shape, ?_⟩
            rwa [List.append_assoc, List.cons_append] at hshape

theorem operations_justified {operand : Reading} {level : Precedence} (hregular : Regular operand)
    (hoperand : Justified (level.rank + 1) operand) (budget : Nat) :
    Justified level.rank (operations budget operand level) := by
  intro r behind phrase htrimmed hfound hclean
  have hreaches := (hregular r).reaches
  unfold operations at hfound
  generalize hleft : operand r = outcome at hfound hreaches
  obtain ⟨found, middle⟩ := outcome
  cases found with
  | none => cases hfound
  | some left =>
      cases hfound
      obtain ⟨hleftClean, front, hfront, hderives⟩ :=
        chain_justified hregular hoperand budget (hreaches.trimmed htrimmed) hclean
      obtain ⟨before, first, hbefore, hfirst⟩ := hoperand _ _ _ htrimmed hleft hleftClean
      obtain ⟨shape, hshape⟩ := hderives (hfirst.weaken (Nat.le_succ _))
      exact ⟨before ++ front, shape, by rw [hbefore, hfront, List.append_assoc], hshape⟩

/-- What holds of terms and is kept from one level to the next looser one holds of expressions. -/
theorem expressionOver_induction {property : Nat → Reading → Prop} {budget : Nat} {term : Reading}
    (hterm : property 6 term) (hstep : ∀ (level : Precedence) (operand : Reading),
      property (level.rank + 1) operand → property level.rank (operations budget operand level)) :
    property 0 (expressionOver budget term) := by
  have hmultiplicative := hstep .multiplicative _ (hstep .fairMath _ hterm)
  have hconcatenation := hstep .concatenation _ (hstep .additive _ hmultiplicative)
  exact hstep .boolean _ (hstep .comparison _ hconcatenation)

theorem expressionOver_justified {term : Reading} (hregular : Regular term) (hterm : Justified 6 term)
    (budget : Nat) : Justified 0 (expressionOver budget term) := by
  let property (level : Nat) (rule : Reading) := Regular rule ∧ Justified level rule
  have hstep : ∀ (level : Precedence) (operand : Reading),
      property (level.rank + 1) operand → property level.rank (operations budget operand level) := by
    rintro level operand ⟨hregular, hoperand⟩
    exact ⟨operations_regular hregular budget level, operations_justified hregular hoperand budget⟩
  exact (expressionOver_induction (show property 6 term from ⟨hregular, hterm⟩) hstep).2

/-! ### Terms -/

/-- A term around what was found behind its opening sign, up to the closing sign. -/
def enclosed (kind : Kind) (r : Reader) (found : Option Phrase × Reader) : Phrase :=
  ((Phrase.begin kind r).addOr found.1 .expressionExpected found.2).finish found.2.next

theorem group_eq {expression : Reading} (h : (expression r.next).2.sees .parenR = true) :
    group expression r =
      (enclosed (.term (((expression r.next).1.bind (·.kind.valueType?)).getD .unknown) .group) r
        (expression r.next), (expression r.next).2.next) := by
  simp only [group, close_of_sees h]
  rfl

theorem computedReference_eq {expression : Reading} (h : (expression r.next).2.sees .curlyR = true) :
    computedReference expression r =
      (enclosed (.term .unknown .computedReference) r (expression r.next), (expression r.next).2.next) := by
  simp only [computedReference, accept, h, if_true]
  rfl

theorem call_eq {expression : Reading} (function : Function) (hopened : r.next.sees .parenL = true)
    (h : (expression r.next.next).2.sees .parenR = true) : call expression function r =
      (some (enclosed (.term (if Phrase.operand? (expression r.next.next).1 = .malformed then .unknown
        else function.resultType) (.call function)) r (expression r.next.next)),
        (expression r.next.next).2.next) := by
  simp only [call, hopened, if_true, close_of_sees h]
  rfl

theorem indices_none {expression : Reading} (h : ¬r.seesIndex = true) (budget : Nat) (term : Phrase) :
    indices expression budget term r = (term, r) := by
  cases budget with
  | zero => rfl
  | succ budget => rw [indices, if_neg h]

theorem indices_some {expression : Reading} (h : r.seesIndex = true)
    (hclosed : (expression r.next).2.sees .bracketR = true) (budget : Nat) (term : Phrase) :
    indices expression (budget + 1) term r = indices expression budget
      (term.addOr (expression r.next).1 .expressionExpected (expression r.next).2) (expression r.next).2.next := by
  rw [indices, if_pos h]
  simp only [close_of_sees hclosed]

theorem indices_unclosed {expression : Reading} (h : r.seesIndex = true)
    (hunclosed : ¬(expression r.next).2.sees .bracketR = true) (budget : Nat) (term : Phrase) :
    ¬(indices expression (budget + 1) term r).1.Clean := by
  have herror : Rule.rightBracketExpected.IsError := rfl
  rw [indices, if_pos h]
  simp only [close_of_not_sees hunclosed]
  rw [Phrase.complain, Phrase.clean_flag]
  exact fun hclean => hclean.2 herror

theorem literal_justified (level : Nat) {kind : TokenKind} (literal : Kind) (htrimmed : r.Trimmed)
    (hkind : r.kind? = some kind) (hliteral : ∀ lexeme : Lexeme, lexeme.kind = kind → lexeme.literal? = some literal) :
    ∃ front shape, r.lexemes = front ++ r.next.lexemes ∧ Derives level front shape := by
  obtain ⟨sign, hsign, _, hcons⟩ := exists_before htrimmed hkind
  exact ⟨[sign], _, hcons, .literal (hliteral _ hsign)⟩

section Terms

variable {expression : Reading} (hregular : Regular expression) (hexpression : Justified 0 expression)
include hregular hexpression

/-- An expression that is read without errors, up to a closing sign. -/
theorem inner_justified {phrase : Phrase} {kind : TokenKind} (htrimmed : r.Trimmed)
    (hsees : (expression r).2.sees kind = true)
    (hclean : (phrase.addOr (expression r).1 .expressionExpected (expression r).2).Clean) :
    phrase.Clean ∧ ∃ inner closing shape, closing.lexeme.kind = kind ∧ Derives 0 inner shape ∧
      (expression r).2.next.lastEnd = closing.stop ∧
      r.lexemes = inner ++ closing :: (expression r).2.next.lexemes := by
  have herror : Rule.expressionExpected.IsError := rfl
  obtain ⟨hphrase, part, hpart, hpartClean⟩ := (clean_addOr herror).mp hclean
  have hbehind := (hregular r).reaches.trimmed htrimmed
  obtain ⟨inner, shape, hinner, hshape⟩ := hexpression _ _ _ htrimmed (Prod.ext hpart rfl) hpartClean
  obtain ⟨closing, hkind, hbefore, hcons⟩ := exists_before hbehind (beq_iff_eq.mp hsees)
  exact ⟨hphrase, inner, closing, shape, hkind, hshape, hbefore.lastEnd, by rw [hinner, hcons]⟩

theorem group_justified (level : Nat) (htrimmed : r.Trimmed) (hopens : r.kind? = some .parenL)
    (hclean : (group expression r).1.Clean) : ∃ front shape,
      r.lexemes = front ++ (group expression r).2.lexemes ∧ Derives level front shape := by
  have herror : Rule.rightParenthesisExpected.IsError := rfl
  obtain ⟨opening, hopening, _, hcons⟩ := exists_before htrimmed hopens
  rw [group, Phrase.clean_finish] at hclean
  obtain ⟨hsees, hadded⟩ := sees_of_clean_close herror hclean
  obtain ⟨_, inner, closing, shape, hclosing, hshape, _, hinner⟩ :=
    inner_justified hregular hexpression htrimmed.next hsees hadded
  refine ⟨opening :: (inner ++ [closing]), _, ?_, .group hopening hshape hclosing⟩
  rw [group_eq hsees, hcons, hinner, List.cons_append, List.append_assoc]
  rfl

theorem computedReference_justified (level : Nat) (htrimmed : r.Trimmed) (hopens : r.kind? = some .curlyL)
    (hclean : (computedReference expression r).1.Clean) : ∃ front shape,
      r.lexemes = front ++ (computedReference expression r).2.lexemes ∧ Derives level front shape := by
  have herror : Rule.rightCurlyExpected.IsError := rfl
  obtain ⟨opening, hopening, _, hcons⟩ := exists_before htrimmed hopens
  by_cases hsees : (expression r.next).2.sees .curlyR = true
  · rw [computedReference_eq hsees] at hclean ⊢
    obtain ⟨_, inner, closing, shape, hclosing, hshape, _, hinner⟩ :=
      inner_justified hregular hexpression htrimmed.next hsees ((Phrase.clean_finish _).mp hclean)
    refine ⟨opening :: (inner ++ [closing]), _, ?_, .computed hopening hshape hclosing⟩
    rw [hcons, hinner, List.cons_append, List.append_assoc]
    rfl
  · have hopen : (expression r.next).2.accept .curlyR = (false, (expression r.next).2) := if_neg hsees
    simp only [computedReference, hopen] at hclean
    rw [Phrase.clean_finish, Phrase.complain, Phrase.clean_flag] at hclean
    exact absurd herror hclean.2

theorem call_justified (level : Nat) {name : Located} {function : Function} {phrase : Phrase}
    (htrimmed : r.Trimmed) (hname : name.lexeme = function.sign)
    (hcons : r.lexemes = name :: r.next.lexemes) (hfound : call expression function r = (some phrase, behind))
    (hclean : phrase.Clean) : ∃ front shape, r.lexemes = front ++ behind.lexemes ∧ Derives level front shape := by
  have herror : Rule.rightParenthesisExpected.IsError := rfl
  by_cases hopens : r.next.sees .parenL = true
  · obtain ⟨opening, hopening, _, hopened⟩ := exists_before htrimmed.next (beq_iff_eq.mp hopens)
    have hsees : (expression r.next.next).2.sees .parenR = true := by
      simp only [call, hopens, if_true, Prod.mk.injEq, Option.some.injEq] at hfound
      rw [← hfound.1, Phrase.clean_finish] at hclean
      exact (sees_of_clean_close herror hclean).1
    rw [call_eq function hopens hsees] at hfound
    cases hfound
    obtain ⟨_, inner, closing, shape, hclosing, hshape, _, hinner⟩ :=
      inner_justified hregular hexpression htrimmed.next.next hsees ((Phrase.clean_finish _).mp hclean)
    refine ⟨name :: opening :: (inner ++ [closing]), _, ?_, .call hname hopening hshape hclosing⟩
    rw [hcons, hopened, hinner, List.cons_append, List.cons_append, List.append_assoc]
    rfl
  · simp only [call, hopens] at hfound
    cases hfound

theorem indices_justified (budget : Nat) {term : Phrase} (htrimmed : r.Trimmed)
    (hclean : (indices expression budget term r).1.Clean) :
    term.Clean ∧ ∃ list : List Index,
      r.lexemes = list.flatMap Index.lexemes ++ (indices expression budget term r).2.lexemes ∧
        Index.Adjoin r.lastEnd list ∧ ∀ index ∈ list, Derives 0 index.inner index.shape := by
  induction budget generalizing term r with
  | zero => exact ⟨hclean, [], rfl, trivial, List.forall_mem_nil _⟩
  | succ budget ih =>
      by_cases hindex : r.seesIndex = true
      · by_cases hsees : (expression r.next).2.sees .bracketR = true
        · rw [indices_some hindex hsees] at hclean ⊢
          have hbehind := (hregular r.next).reaches.trimmed htrimmed.next
          obtain ⟨hadded, more, hmore, hadjoin, hderives⟩ := ih hbehind.next hclean
          obtain ⟨hterm, inner, closing, shape, hclosing, hshape, hstop, hinner⟩ :=
            inner_justified hregular hexpression htrimmed.next hsees hadded
          obtain ⟨hbracket, hdirect⟩ := (Bool.and_eq_true _ _).mp hindex
          obtain ⟨opening, hopening, hbefore, hcons⟩ := exists_before htrimmed (beq_iff_eq.mp hbracket)
          refine ⟨hterm, ⟨opening, inner, closing, shape⟩ :: more, ?_, ⟨hopening, ?_, hclosing, ?_⟩,
            List.forall_mem_cons.mpr ⟨hshape, hderives⟩⟩
          · rw [hcons, hinner, hmore, List.flatMap_cons, Index.lexemes, List.cons_append, List.cons_append,
              List.append_assoc, List.append_assoc]
            rfl
          · rw [← hbefore.offset, beq_iff_eq.mp hdirect]
          · rw [← hstop]
            exact hadjoin
        · exact absurd hclean (indices_unclosed hindex hsees budget term)
      · rw [indices_none hindex] at hclean ⊢
        exact ⟨hclean, [], rfl, trivial, List.forall_mem_nil _⟩

theorem variableTerm_justified (level budget : Nat) {name : Located} (htrimmed : r.Trimmed)
    (hname : name.lexeme.isName = true) (hbefore : r.Before name r.next.lexemes)
    (hcons : r.lexemes = name :: r.next.lexemes) (hclean : (variableTerm budget expression r).1.Clean) :
    ∃ front shape, r.lexemes = front ++ (variableTerm budget expression r).2.lexemes ∧
      Derives level front shape := by
  obtain ⟨_, list, hlist, hadjoin, hderives⟩ :=
    indices_justified hregular hexpression budget htrimmed.next ((Phrase.clean_finish _).mp hclean)
  rw [hbefore.lastEnd] at hadjoin
  exact ⟨name :: list.flatMap Index.lexemes, _, by rw [hcons, hlist]; rfl, .named hname hadjoin hderives⟩

theorem nameTerm_justified (level budget : Nat) {phrase : Phrase} (htrimmed : r.Trimmed)
    (hident : r.kind? = some .ident) (hfound : nameTerm budget expression r = (some phrase, behind))
    (hclean : phrase.Clean) : ∃ front shape, r.lexemes = front ++ behind.lexemes ∧ Derives level front shape := by
  obtain ⟨name, hkind, hbefore, hcons⟩ := exists_before htrimmed hident
  have hword : r.word = name.lexeme.word := hbefore.word
  simp only [nameTerm, hword] at hfound
  split at hfound
  · rename_i hliteral
    cases hfound
    have hboolean : name.lexeme.literal? = some (.boolean (name.lexeme.word = "true")) := by
      simp only [Lexeme.literal?, hkind, if_pos hliteral]
    exact ⟨[name], _, hcons, .literal hboolean⟩
  · split at hfound
    · rename_i function hfunction
      exact call_justified hregular hexpression level htrimmed (Lexeme.eq_sign_of_ofKeyword? hkind hfunction)
        hcons hfound hclean
    · split at hfound
      · cases hfound
      · rename_i hreserved
        have hname : name.lexeme.isName = true := by simp [Lexeme.isName, hkind, hreserved]
        cases hfound
        exact variableTerm_justified hregular hexpression level budget htrimmed hname hbefore hcons hclean

theorem termOver_justified (level budget : Nat) : Justified level (termOver budget expression) := by
  intro r behind phrase htrimmed hfound hclean
  simp only [termOver] at hfound
  split at hfound
  · cases hfound
    exact literal_justified level .numericValue htrimmed ‹_› fun _ hnum => by simp only [Lexeme.literal?, hnum]
  · cases hfound
    exact literal_justified level .stringValue htrimmed ‹_› fun _ hstring => by simp only [Lexeme.literal?, hstring]
  · rename_i hbad
    have herror : Rule.missingClosingQuote.IsError := rfl
    have hmarked : r.stringValue.1 = (r.leaf .stringValue).1.flagWhole .missingClosingQuote :=
      if_pos (beq_iff_eq.mpr hbad)
    cases hfound
    rw [termOf, Phrase.clean_finish, Phrase.clean_add, hmarked, Phrase.flagWhole, Phrase.clean_flag] at hclean
    exact absurd herror hclean.2.2
  · cases hfound
    exact group_justified hregular hexpression level htrimmed ‹_› hclean
  · cases hfound
    exact computedReference_justified hregular hexpression level htrimmed ‹_› hclean
  · exact nameTerm_justified hregular hexpression level budget htrimmed ‹_› hfound hclean
  · cases hfound

end Terms

theorem expressionWithin_justified (budget : Nat) : Justified 0 (expressionWithin budget) := by
  induction budget with
  | zero =>
      intro r behind phrase _ hfound _
      cases hfound
  | succ budget ih =>
      have hregular := expressionWithin_regular budget
      exact expressionOver_justified (termOver_regular hregular budget)
        (termOver_justified hregular ih 6 budget) budget

/-- Every expression that is read without an error has a derivation. -/
theorem expression_justified : Justified 0 expression :=
  fun r => expressionWithin_justified r.budget r

end Reader

end Gamebook
