import Gamebook.Proofs.Grammar.Laid

/-!
What stands inside statements. A variable is a name before which the reader stood on its way, a label or a
scene the run before which it stood, and neither takes anything else in, whatever is wrong with the rest of the
line. Only rules on expressions, strings and multireplaces are broken inside statements; where options belong
is no matter of what a statement holds.
-/

namespace Gamebook

namespace Rule

def isInner : Rule → Bool
  | .expressionExpected | .termExpected | .rightParenthesisExpected | .rightBracketExpected
  | .rightCurlyExpected | .missingClosingQuote | .notEnoughMultireplaceOptions | .deprecatedModulo => true
  | _ => false

def isPlacement : Rule → Bool
  | .choiceOptionExpected | .noChoiceOptions | .optionOutsideChoice => true
  | _ => false

/-- The rules that can be broken by a statement, wherever it stands. -/
def isLocal (rule : Rule) : Bool := !rule.isPlacement

/-- The rules that can be broken by what follows the name of a command. -/
def isTrailing (rule : Rule) : Bool := rule.isLocal && rule != .unknownCommand

theorem isLocal_of_isInner {rule : Rule} (h : rule.isInner = true) : rule.isLocal = true := by
  cases rule <;> first | rfl | cases h

theorem isTrailing_of_isInner {rule : Rule} (h : rule.isInner = true) : rule.isTrailing = true := by
  cases rule <;> first | rfl | cases h

end Rule

namespace Phrase

/-- A phrase inside a statement that is read from the given place on. -/
inductive Genuine (site : Reader) : Phrase → Prop
  | name {place : Reader} (hreach : site.Reaches place) (hname : place.seesName = true) :
      Genuine site (place.leaf .var).1
  | run {place : Reader} {kind : Kind} (hkind : kind = .label ∨ kind = .sceneRef) (hreach : site.Reaches place)
      (hrest : place.rest ≠ []) : Genuine site (place.leafRun kind).1
  | other {phrase : Phrase} (hkind : phrase.kind.isName = false)
      (hissues : ∀ issue ∈ phrase.issues, issue.rule.isInner = true)
      (hparts : ∀ part ∈ phrase.parts, Genuine site part) : Genuine site phrase

/-- What a phrase can become by a rule that goes on with it: parts are added, and issues of the given rules. -/
structure Gains (rules : Rule → Bool) (site : Reader) (phrase grown : Phrase) : Prop where
  kind : grown.kind = phrase.kind
  issues : ∀ issue ∈ grown.issues, issue ∈ phrase.issues ∨ rules issue.rule = true
  parts : ∀ part ∈ grown.parts, part ∈ phrase.parts ∨ part.Genuine site

variable {rules : Rule → Bool} {site r behind : Reader} {phrase grown part : Phrase}

theorem Genuine.after (h : part.Genuine behind) (hreach : r.Reaches behind) : part.Genuine r := by
  induction h with
  | name hplace hname => exact .name (hreach.trans hplace) hname
  | run hkind hplace hrest => exact .run hkind (hreach.trans hplace) hrest
  | other hkind hissues _ ih => exact .other hkind hissues ih

theorem Gains.refl (rules : Rule → Bool) (site : Reader) (phrase : Phrase) : phrase.Gains rules site phrase :=
  ⟨rfl, fun _ => .inl, fun _ => .inl⟩

theorem Gains.trans {more : Phrase} (hfirst : phrase.Gains rules site grown) (hsecond : grown.Gains rules site more) :
    phrase.Gains rules site more where
  kind := hsecond.kind.trans hfirst.kind
  issues issue hissue := (hsecond.issues issue hissue).elim (hfirst.issues issue) .inr
  parts part hpart := (hsecond.parts part hpart).elim (hfirst.parts part) .inr

theorem Gains.after (h : phrase.Gains rules behind grown) (hreach : r.Reaches behind) : phrase.Gains rules r grown :=
  { h with parts := fun part hpart => (h.parts part hpart).imp_right fun hgenuine => hgenuine.after hreach }

/-- What breaks fewer rules breaks no others. -/
theorem Gains.loosen {looser : Rule → Bool} (h : phrase.Gains rules site grown)
    (hrules : ∀ rule, rules rule = true → looser rule = true) : phrase.Gains looser site grown :=
  { h with issues := fun issue hissue => (h.issues issue hissue).imp_right (hrules issue.rule) }

theorem gains_add (hpart : part.Genuine site) : phrase.Gains rules site (phrase.add part) := by
  refine ⟨rfl, fun _ => .inl, fun other hother => ?_⟩
  rw [add_parts, List.mem_append, List.mem_singleton] at hother
  exact hother.imp_right fun hsame => by rw [hsame]; exact hpart

theorem gains_reach (stop : Nat) : phrase.Gains rules site (phrase.reach stop) := ⟨rfl, fun _ => .inl, fun _ => .inl⟩

theorem gains_finish (r : Reader) : phrase.Gains rules site (phrase.finish r) := gains_reach _

theorem gains_flag {rule : Rule} (hrule : rules rule = true) (offset length : Nat) :
    phrase.Gains rules site (phrase.flag rule offset length) := by
  refine ⟨rfl, fun issue hissue => ?_, fun _ => .inl⟩
  exact (mem_issues_flag.mp hissue).imp_right fun hsame => by rw [hsame]; exact hrule

theorem gains_addOr {rule : Rule} (hrule : rules rule = true) {found : Option Phrase}
    (hfound : ∀ part, found = some part → part.Genuine site) (r : Reader) :
    phrase.Gains rules site (phrase.addOr found rule r) := by
  cases found with
  | none => exact gains_flag hrule _ _
  | some part => exact gains_add (hfound part rfl)

theorem gains_close {rule : Rule} (hrule : rules rule = true) (kind : TokenKind) (r : Reader) :
    phrase.Gains rules site (phrase.close kind rule r).2.1 := by
  by_cases hsees : r.sees kind = true
  · rw [close_of_sees hsees]
    exact .refl _ _ _
  · rw [close_of_not_sees hsees]
    exact gains_flag hrule _ _

/-- What a phrase without parts becomes stands inside statements. -/
theorem Gains.genuine {kind : Kind} {offset : Nat} (h : (empty kind offset).Gains Rule.isInner site grown)
    (hname : kind.isName = false) : grown.Genuine site :=
  .other (h.kind ▸ hname) (fun issue hissue => (h.issues issue hissue).resolve_left List.not_mem_nil)
    fun part hpart => (h.parts part hpart).resolve_left List.not_mem_nil

theorem Genuine.gain (h : phrase.Genuine site) (hname : phrase.kind.isName = false)
    (hgains : phrase.Gains Rule.isInner site grown) : grown.Genuine site := by
  cases h with
  | name _ _ => cases hname
  | run hkind _ _ => rcases hkind with rfl | rfl <;> cases hname
  | other _ hissues hparts =>
      exact .other (hgains.kind ▸ hname) (fun issue hissue => (hgains.issues issue hissue).elim (hissues issue) id)
        fun part hpart => (hgains.parts part hpart).elim (hparts part) id

theorem Genuine.inside (h : phrase.Genuine site) (hpart : part ∈ phrase.parts) : part.Genuine site := by
  cases h with
  | name _ _ => cases hpart
  | run _ _ _ => cases hpart
  | other _ _ hparts => exact hparts part hpart

/-- Inside a statement only few rules are broken. -/
theorem Genuine.issues (h : phrase.Genuine site) : ∀ issue ∈ phrase.issues, issue.rule.isInner = true := by
  intro issue hissue
  cases h with
  | name _ _ => cases hissue
  | run _ _ _ => cases hissue
  | other _ hissues _ => exact hissues issue hissue

theorem Genuine.around {kind : Kind} (h : part.Genuine site) (hname : kind.isName = false) (offset : Nat) :
    (Phrase.around kind offset [part]).Genuine site := by
  refine .other hname (fun issue hissue => absurd hissue List.not_mem_nil) fun other hother => ?_
  have hsame : other = part := by simpa [Phrase.around, parts] using hother
  exact hsame ▸ h

theorem genuine_leaf {kind : Kind} (hname : kind.isName = false) (r : Reader) : (r.leaf kind).1.Genuine site :=
  (gains_reach _ : (empty kind r.offset).Gains Rule.isInner site _).genuine hname

end Phrase

namespace Reader

open Phrase (Genuine Gains gains_add gains_reach gains_finish gains_flag gains_addOr gains_close genuine_leaf)

variable {r behind : Reader} {phrase : Phrase}

theorem reaches_close (phrase : Phrase) (kind : TokenKind) (rule : Rule) (r : Reader) :
    r.Reaches (phrase.close kind rule r).2.2 := by
  have hreach := r.reaches_accept kind
  unfold Phrase.close
  split
  · rename_i haccept
    rw [haccept] at hreach
    exact hreach
  · rename_i haccept
    rw [haccept] at hreach
    exact hreach.trans (reaches_skipLine _)

/-- Whatever the rule recognises stands inside statements. -/
def Genuinely (rule : Reading) : Prop := ∀ (r : Reader) (phrase : Phrase), (rule r).1 = some phrase → phrase.Genuine r

/-! ### Operations -/

theorem takeOperator_genuine (op : Operator) (r : Reader) : (r.takeOperator op).1.Genuine r := by
  have hleaf : (r.leaf (.operator op op.resultType)).1.Genuine r := genuine_leaf rfl r
  show Genuine r (if op = .deprecatedModulo then _ else _)
  split
  · exact hleaf.gain rfl (gains_flag rfl _ _)
  · exact hleaf

theorem operationOn_genuine {left : Phrase} {op : Operator} {site : Reader} {found : Option Phrase × Reader}
    (hleft : left.Genuine site) (hsite : site.Reaches r)
    (hfound : ∀ right, found.1 = some right → right.Genuine r.next) : (operationOn left op r found).Genuine site := by
  obtain ⟨-, hname, -⟩ := kind_isInner op (op.infer left.operand (Phrase.operand? found.1))
  have hsign : ((Phrase.around (op.kind (op.infer left.operand (Phrase.operand? found.1))) left.start
      [left]).add (r.takeOperator op).1).Genuine site :=
    (hleft.around hname _).gain hname (gains_add ((takeOperator_genuine op r).after hsite))
  exact hsign.gain hname ((gains_addOr rfl (fun right hright =>
    (hfound right hright).after (hsite.trans r.reaches_next)) _).trans (gains_finish _))

/-- What is left of an operand is a left operand again, of the operations that follow. -/
theorem chain_genuine {operand : Reading} (hregular : Regular operand) (hoperand : Genuinely operand)
    (level : Precedence) (budget : Nat) {site : Reader} {left : Phrase} (hleft : left.Genuine site)
    (hsite : site.Reaches r) : (chain level operand budget left r).1.Genuine site := by
  induction budget generalizing left r with
  | zero => exact hleft
  | succ budget ih =>
      cases hop : r.operatorAt? level with
      | none =>
          rw [chain_none hop]
          exact hleft
      | some op =>
          rw [chain_some hop]
          exact ih (operationOn_genuine hleft hsite (hoperand r.next))
            (hsite.trans (r.reaches_next.trans (hregular r.next).reaches))

theorem operations_genuinely {operand : Reading} (hregular : Regular operand) (hoperand : Genuinely operand)
    (budget : Nat) (level : Precedence) : Genuinely (operations budget operand level) := by
  intro r phrase hfound
  have hleft := hoperand r
  have hreaches := (hregular r).reaches
  unfold operations at hfound
  generalize operand r = outcome at hfound hleft hreaches
  obtain ⟨found, behind⟩ := outcome
  cases found with
  | none => cases hfound
  | some left =>
      cases hfound
      exact chain_genuine hregular hoperand level budget (hleft left rfl) hreaches

theorem expressionOver_genuinely {term : Reading} (hregular : Regular term) (hterm : Genuinely term) (budget : Nat) :
    Genuinely (expressionOver budget term) := by
  let property (_ : Nat) (rule : Reading) := Regular rule ∧ Genuinely rule
  have hstep : ∀ (level : Precedence) (operand : Reading),
      property (level.rank + 1) operand → property level.rank (operations budget operand level) := by
    rintro level operand ⟨hregular, hoperand⟩
    exact ⟨operations_regular hregular budget level, operations_genuinely hregular hoperand budget level⟩
  exact (expressionOver_induction (show property 6 term from ⟨hregular, hterm⟩) hstep).2

/-! ### Terms -/

theorem termOf_genuine (type : ValueType) {literal : Phrase × Reader} (hliteral : literal.1.Genuine r) :
    (termOf type r literal).1.Genuine r :=
  ((gains_add hliteral).trans (gains_finish literal.2)).genuine rfl

theorem stringValue_genuine (r : Reader) : r.stringValue.1.Genuine r := by
  have hleaf : (r.leaf .stringValue).1.Genuine r := genuine_leaf rfl r
  show Genuine r (if r.sees .badString then _ else _)
  split
  · exact hleaf.gain rfl (gains_flag rfl _ _)
  · exact hleaf

theorem variableName_genuinely : Genuinely variableName := by
  intro r phrase hfound
  unfold variableName at hfound
  split at hfound
  · rename_i hname
    cases hfound
    exact .name .refl hname
  · cases hfound

section Terms

variable {expression : Reading} (hregular : Regular expression) (hexpression : Genuinely expression)
include hexpression

/-- An expression is read and added, or its absence is marked. -/
theorem inner_gains (phrase : Phrase) (hreach : r.Reaches behind) : phrase.Gains Rule.isInner r
    (phrase.addOr (expression behind).1 .expressionExpected (expression behind).2) :=
  gains_addOr rfl (fun part hpart => (hexpression behind part hpart).after hreach) _

theorem group_genuine (r : Reader) : (group expression r).1.Genuine r :=
  ((inner_gains hexpression _ r.reaches_next).trans
    ((gains_close rfl .parenR _).trans (gains_finish _))).genuine rfl

theorem computedReference_genuine (r : Reader) : (computedReference expression r).1.Genuine r := by
  have hinner := inner_gains hexpression (.begin (.term .unknown .computedReference) r) r.reaches_next
  simp only [computedReference]
  split
  · exact (hinner.trans (gains_finish _)).genuine rfl
  · exact (hinner.trans ((gains_flag rfl _ _).trans (gains_finish _))).genuine rfl

theorem call_genuinely (function : Function) : Genuinely (call expression function) := by
  intro r phrase hfound
  simp only [call] at hfound
  split at hfound
  · cases hfound
    exact ((inner_gains hexpression _ (r.reaches_next.trans r.next.reaches_next)).trans
      ((gains_close rfl .parenR _).trans (gains_finish _))).genuine rfl
  · cases hfound

include hregular

theorem indices_gains (budget : Nat) (term : Phrase) (r : Reader) :
    term.Gains Rule.isInner r (indices expression budget term r).1 := by
  induction budget generalizing term r with
  | zero => exact .refl _ _ _
  | succ budget ih =>
      simp only [indices]
      split
      · have hinner := inner_gains hexpression term r.reaches_next
        have hbracket : Rule.isInner .rightBracketExpected = true := rfl
        have hclose := hinner.trans (gains_close hbracket .bracketR (expression r.next).2)
        have hreaches := r.reaches_next.trans ((hregular r.next).reaches.trans (reaches_close
          (term.addOr (expression r.next).1 .expressionExpected (expression r.next).2) .bracketR
          .rightBracketExpected (expression r.next).2))
        split
        · rename_i closed behind hclosed
          rw [hclosed] at hclose hreaches
          exact hclose.trans ((ih _ _).after hreaches)
        · rename_i closed behind hclosed
          rw [hclosed] at hclose
          exact hclose
      · exact .refl _ _ _

theorem variableTerm_genuine (budget : Nat) (hname : r.seesName = true) :
    (variableTerm budget expression r).1.Genuine r := by
  simp only [variableTerm]
  have hindices := fun term => (indices_gains hregular hexpression budget term r.next).after r.reaches_next
  exact ((gains_add (.name .refl hname)).trans ((hindices _).trans (gains_finish _))).genuine rfl

theorem nameTerm_genuinely (budget : Nat) (hident : r.sees .ident = true)
    (hfound : (nameTerm budget expression r).1 = some phrase) : phrase.Genuine r := by
  simp only [nameTerm] at hfound
  split at hfound
  · cases hfound
    exact termOf_genuine .boolean (genuine_leaf rfl r)
  · split at hfound
    · exact call_genuinely hexpression _ r phrase hfound
    · split at hfound
      · cases hfound
      · rename_i hreserved
        cases hfound
        refine variableTerm_genuine hregular hexpression budget ?_
        rw [seesName, hident, Bool.eq_false_iff.mpr hreserved]
        rfl

theorem termOver_genuinely (budget : Nat) : Genuinely (termOver budget expression) := by
  intro r phrase hfound
  unfold termOver at hfound
  dsimp only at hfound
  split at hfound
  · cases hfound
    exact termOf_genuine .number (genuine_leaf rfl r)
  · cases hfound
    exact termOf_genuine .string (stringValue_genuine r)
  · cases hfound
    exact termOf_genuine .string (stringValue_genuine r)
  · cases hfound
    exact group_genuine hexpression r
  · cases hfound
    exact computedReference_genuine hexpression r
  · rename_i hkind
    exact nameTerm_genuinely hregular hexpression budget (beq_iff_eq.mpr hkind) hfound
  · cases hfound

end Terms

theorem expressionWithin_genuinely (budget : Nat) : Genuinely (expressionWithin budget) := by
  induction budget with
  | zero =>
      intro r phrase hfound
      cases hfound
  | succ budget ih =>
      have hregular := expressionWithin_regular budget
      exact expressionOver_genuinely (termOver_regular hregular budget) (termOver_genuinely hregular ih budget) budget

theorem expression_genuinely : Genuinely expression := fun r => expressionWithin_genuinely r.budget r

theorem term_genuinely : Genuinely term := fun r =>
  termOver_genuinely (expressionWithin_regular r.budget) (expressionWithin_genuinely r.budget) r.budget r

theorem assignable_genuinely : Genuinely assignable := by
  intro r phrase hfound
  simp only [assignable] at hfound
  split at hfound
  · cases hfound
    exact computedReference_genuine expression_genuinely r
  · split at hfound
    · rename_i hname
      split at hfound
      · cases hfound
        exact variableTerm_genuine expression_regular expression_genuinely r.budget hname
      · cases hfound
        exact .name .refl hname
    · cases hfound

theorem assignedOperation_genuine (target : Phrase) (op : Operator) (r : Reader) :
    (assignedOperation target op r).1.Genuine r := by
  obtain ⟨-, hname, -⟩ := kind_isInner op (op.infer target.operand
    (Phrase.operand? (expression (r.takeOperator op).2).1))
  exact ((gains_add (takeOperator_genuine op r)).trans ((gains_addOr rfl (fun right hright =>
    (expression_genuinely _ right hright).after r.reaches_next) _).trans (gains_finish _))).genuine hname

/-! ### Prose -/

/-- Whatever phrase the rule goes on with, it adds what stands inside statements, and raises issues of the given
rules. -/
def Gaining (rules : Rule → Bool) (rule : Phrase → Reader → Phrase × Reader) : Prop :=
  ∀ (phrase : Phrase) (r : Reader), phrase.Gains rules r (rule phrase r).1

theorem closeBrace_gains : Gaining Rule.isInner closeBrace := by
  intro phrase r
  simp only [closeBrace]
  split
  · exact gains_finish _
  · exact (gains_flag rfl _ _).trans (gains_finish _)

theorem replacement_genuinely : Genuinely replacement := by
  intro r phrase hfound
  have hmarked := reaches_bangs r.rest.length r.next
  simp only [replacement] at hfound
  split at hfound
  · cases hfound
  · split at hfound
    · cases hfound
      have hopened := r.reaches_next.trans (hmarked.trans ((reaches_next _).switch .command))
      have hbehind := hopened.trans (expression_regular _).reaches
      exact ((inner_gains expression_genuinely _ hopened).trans ((closeBrace_gains _ _).after hbehind)).genuine rfl
    · cases hfound

theorem branches_gains {content : Phrase → Reader → Phrase × Reader} (hextending : Extending content)
    (hcontent : Gaining Rule.isInner content) (budget : Nat) (phrase : Phrase) (r : Reader) :
    phrase.Gains Rule.isInner r (branches content budget phrase r).2.1 := by
  induction budget generalizing phrase r with
  | zero => exact .refl _ _ _
  | succ budget ih =>
      have hreaches := (hextending (.begin .multiReplaceOption r) r).reaches
      have hbranch := ((hcontent (.begin .multiReplaceOption r) r).trans (gains_finish
        (content (.begin .multiReplaceOption r) r).2)).genuine rfl
      have haccept := (content (.begin .multiReplaceOption r) r).2.reaches_accept .pipe
      simp only [branches]
      split
      · rename_i next hnext
        rw [hnext] at haccept
        exact (gains_add hbranch).trans ((ih _ next).after (hreaches.trans haccept))
      · exact gains_add hbranch

theorem multireplace_genuinely {content : Phrase → Reader → Phrase × Reader} (hextending : Extending content)
    (hcontent : Gaining Rule.isInner content) (budget : Nat) : Genuinely (multireplace budget content) := by
  intro r phrase hfound
  simp only [multireplace] at hfound
  split at hfound
  · cases hfound
    have hopened := r.reaches_next.trans (r.next.reaches_next.switch .command)
    have hbehind := hopened.trans ((term_regular _).reaches.switch .text)
    have hselected := inner_gains term_genuinely (.begin .multiReplace r) hopened
    have hbranches := hselected.trans ((branches_gains hextending hcontent budget _ _).after hbehind)
    have hcloses := fun phrase => hbehind.trans (branches_extends hextending budget phrase _).reaches
    refine Gains.genuine ((hbranches.trans ?_).trans ((closeBrace_gains _ _).after (hcloses _))) rfl
    split
    · exact gains_flag rfl _ _
    · exact .refl _ _ _
  · cases hfound

theorem prosePart_genuine {budget : Nat} (hprose : Gaining Rule.isInner (proseWithin budget endsBranch))
    {kind : TokenKind} (hfound : (prosePart budget kind r).1 = some phrase) : phrase.Genuine r := by
  unfold prosePart at hfound
  split at hfound
  · cases hfound
    exact genuine_leaf rfl r
  · exact replacement_genuinely r phrase hfound
  · exact multireplace_genuinely (proseWithin_extending budget endsBranch) hprose budget r phrase hfound
  · cases hfound

theorem proseWithin_gaining (budget : Nat) (ends : TokenKind → Bool) :
    Gaining Rule.isInner (proseWithin budget ends) := by
  induction budget generalizing ends with
  | zero => exact fun _ _ => .refl _ _ _
  | succ budget ih =>
      intro phrase r
      rw [proseWithin_succ]
      split
      · exact .refl _ _ _
      · rename_i kind _
        split
        · exact .refl _ _ _
        · have hpart : ∀ part, (prosePart budget kind r).1 = some part → part.Genuine r :=
            fun _ => prosePart_genuine (ih endsBranch)
          have hreaches := (prosePart_mayYield (proseWithin_extending budget endsBranch) r kind).reaches
          generalize prosePart budget kind r = outcome at hpart hreaches
          obtain ⟨found, behind⟩ := outcome
          cases found with
          | none => exact (ih ends _ _).after (hreaches.trans behind.reaches_next)
          | some part => exact (gains_add (hpart part rfl)).trans ((ih ends _ _).after hreaches)

theorem prose_gaining : Gaining Rule.isInner prose :=
  fun phrase r => (proseWithin_gaining r.budget (fun _ => false) phrase r).trans (gains_finish _)

end Reader

end Gamebook
