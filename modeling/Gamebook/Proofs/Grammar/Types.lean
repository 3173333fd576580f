import Gamebook.Proofs.Grammar.Sound

/-!
Types. The type that an expression gets while it is read is the one that its finished parts determine: rules
over phrases say what that is, and every expression follows them. The operation of an assignment has no left
operand inside it, and is read against what is assigned by the phrase around it.
-/

namespace Gamebook

/-- The terms that refer to a variable, whose type is not known from the scene. -/
def TermForm.isReference : TermForm → Bool
  | .var | .arrayIndex | .computedReference => true
  | _ => false

/-- The type of an operation, whatever its operator. -/
def Kind.operationType? : Kind → Option ValueType
  | .expression type | .binaryExpression type | .stringExpression type => some type
  | _ => none

theorem Kind.isExpression_of_operationType? {kind : Kind} {type : ValueType} (h : kind.operationType? = some type) :
    kind.isExpression = true := by
  cases kind <;> first | rfl | cases h

/-- The literals that an expression can hold. -/
def Kind.isLiteral : Kind → Bool
  | .numericValue | .stringValue | .boolean _ => true
  | _ => false

theorem Operator.isExpression_kind (op : Operator) (type : ValueType) : (op.kind type).isExpression = true := by
  unfold Operator.kind
  cases op.family <;> rfl

theorem Operator.kind_ne_term (op : Operator) (type type' : ValueType) (form : TermForm) :
    op.kind type ≠ .term type' form := by
  unfold Operator.kind
  split <;> simp

namespace Phrase

/-- The types in a phrase follow from its parts. The target is what the phrase around it assigns. -/
inductive Typed : Option Phrase → Phrase → Prop
  | operation {target? : Option Phrase} {phrase left sign : Phrase} {op : Operator} {right? : Option Phrase}
      (hkind : phrase.kind = op.kind (op.infer left.operand (operand? right?)))
      (hparts : phrase.parts = left :: sign :: right?.toList) (hleft : left.kind.isExpression = true)
      (hsign : sign.kind = .operator op op.resultType) (hinner : ∀ part ∈ phrase.parts, Typed none part) :
      Typed target? phrase
  | assigned {target phrase sign : Phrase} {op : Operator} {right? : Option Phrase}
      (hkind : phrase.kind = op.kind (op.infer target.operand (operand? right?)))
      (hparts : phrase.parts = sign :: right?.toList) (hsign : sign.kind = .operator op op.resultType)
      (hinner : ∀ part ∈ phrase.parts, Typed none part) : Typed (some target) phrase
  | group {target? : Option Phrase} {phrase : Phrase} {inner? : Option Phrase}
      (hkind : phrase.kind = .term ((inner?.bind (·.kind.valueType?)).getD .unknown) .group)
      (hbefore : phrase.before = []) (hafter : phrase.after = inner?.toList)
      (hexpression : ∀ inner ∈ inner?, inner.kind.isExpression = true) (hinner : ∀ inner ∈ inner?, Typed none inner) :
      Typed target? phrase
  | call {target? : Option Phrase} {phrase : Phrase} {function : Function} {argument? : Option Phrase}
      (hkind : phrase.kind = .term (if operand? argument? = .malformed then .unknown else function.resultType)
        (.call function))
      (hparts : phrase.parts = argument?.toList) (hinner : ∀ argument ∈ argument?, Typed none argument) :
      Typed target? phrase
  | literal {target? : Option Phrase} {phrase value : Phrase} {type : ValueType}
      (hkind : phrase.kind = .term type .literal) (hparts : phrase.parts = [value])
      (hliteral : value.kind.isLiteral = true) (hvalue : value.kind.valueType? = some type)
      (hinner : Typed none value) : Typed target? phrase
  | reference {target? : Option Phrase} {phrase : Phrase} {form : TermForm} (hkind : phrase.kind = .term .unknown form)
      (hform : form.isReference = true) (hinner : ∀ part ∈ phrase.parts, Typed none part) : Typed target? phrase
  | assignment {target? : Option Phrase} {phrase : Phrase} (hkind : phrase.kind = .setCommand false)
      (hinner : ∀ part ∈ phrase.parts, Typed phrase.parts.head? part) : Typed target? phrase
  | other {target? : Option Phrase} {phrase : Phrase} (hkind : phrase.kind.isExpression = false)
      (hinner : ∀ part ∈ phrase.parts, Typed none part) : Typed target? phrase

variable {target? : Option Phrase} {phrase grown part : Phrase}

/-- Types do not depend on ranges and issues. -/
theorem Typed.congr (h : phrase.Typed target?) (hkind : grown.kind = phrase.kind)
    (hbefore : grown.before = phrase.before) (hafter : grown.after = phrase.after) : grown.Typed target? := by
  have hsame : grown.parts = phrase.parts := by rw [parts, hbefore, hafter, parts]
  cases h with
  | operation hown hparts hleft hsign hinner =>
      exact .operation (hkind.trans hown) (hsame.trans hparts) hleft hsign (hsame ▸ hinner)
  | assigned hown hparts hsign hinner =>
      exact .assigned (hkind.trans hown) (hsame.trans hparts) hsign (hsame ▸ hinner)
  | group hown hfirst hlast hexpression hinner =>
      exact .group (hkind.trans hown) (hbefore.trans hfirst) (hafter.trans hlast) hexpression hinner
  | call hown hparts hinner => exact .call (hkind.trans hown) (hsame.trans hparts) hinner
  | literal hown hparts hliteral hvalue hinner =>
      exact .literal (hkind.trans hown) (hsame.trans hparts) hliteral hvalue hinner
  | reference hown hform hinner => exact .reference (hkind.trans hown) hform (hsame ▸ hinner)
  | assignment hown hinner => exact .assignment (hkind.trans hown) (hsame ▸ hinner)
  | other hown hinner => exact .other (hkind ▸ hown) (hsame ▸ hinner)

/-- Only the operation of an assignment depends on what is assigned. -/
theorem Typed.any (h : phrase.Typed none) (target? : Option Phrase) : phrase.Typed target? := by
  cases h with
  | operation hkind hparts hleft hsign hinner => exact .operation hkind hparts hleft hsign hinner
  | group hkind hbefore hafter hexpression hinner => exact .group hkind hbefore hafter hexpression hinner
  | call hkind hparts hinner => exact .call hkind hparts hinner
  | literal hkind hparts hliteral hvalue hinner => exact .literal hkind hparts hliteral hvalue hinner
  | reference hkind hform hinner => exact .reference hkind hform hinner
  | assignment hkind hinner => exact .assignment hkind hinner
  | other hkind hinner => exact .other hkind hinner

theorem operand_shift (distance : Nat) (phrase : Phrase) : (phrase.shift distance).operand = phrase.operand := by
  cases phrase with
  | mk kind start stop issues before after =>
      rw [shift]
      cases kind with
      | term type form =>
          cases form with
          | group =>
              cases after with
              | nil => rw [shiftAll, operand, operand]
              | cons inner more => rw [shiftAll, operand, operand, operand_shift distance inner]
          | _ => simp only [operand]
      | _ => simp only [operand]

theorem operand?_shift (distance : Nat) (found : Option Phrase) :
    operand? (found.map (shift distance)) = operand? found := by
  cases found with
  | none => rfl
  | some phrase => exact operand_shift distance phrase

/-- Moving a phrase changes no type in it. -/
theorem Typed.shift (h : phrase.Typed target?) (distance : Nat) :
    (phrase.shift distance).Typed (target?.map (Phrase.shift distance)) := by
  have hmoved : ∀ {target? : Option Phrase} {parts : List Phrase},
      (∀ part ∈ parts, (part.shift distance).Typed target?) → ∀ part ∈ parts.map (Phrase.shift distance),
        part.Typed target? := fun hparts => List.forall_mem_map.mpr hparts
  have hone : ∀ {found : Option Phrase} {property : Phrase → Prop}, (∀ inner ∈ found, property (inner.shift distance)) →
      ∀ inner ∈ found.map (Phrase.shift distance), property inner := by
    intro found property hfound inner hinner
    obtain ⟨inner, hmem, rfl⟩ := Option.map_eq_some_iff.mp hinner
    exact hfound inner hmem
  induction h with
  | @operation _ phrase left sign op right? hkind hparts hleft hsign _ ih =>
      refine @operation _ _ (left.shift distance) (sign.shift distance) op (right?.map (Phrase.shift distance))
        ?_ ?_ ?_ ?_ ?_
      · rw [shift_kind, operand_shift, operand?_shift, hkind]
      · rw [shift_parts, hparts, List.map_cons, List.map_cons, Option.toList_map]
      · rwa [shift_kind]
      · rwa [shift_kind]
      · rw [shift_parts]
        exact hmoved ih
  | @assigned target phrase sign op right? hkind hparts hsign _ ih =>
      refine @assigned (target.shift distance) _ (sign.shift distance) op (right?.map (Phrase.shift distance))
        ?_ ?_ ?_ ?_
      · rw [shift_kind, operand_shift, operand?_shift, hkind]
      · rw [shift_parts, hparts, List.map_cons, Option.toList_map]
      · rwa [shift_kind]
      · rw [shift_parts]
        exact hmoved ih
  | @group _ phrase inner? hkind hbefore hafter hexpression _ ih =>
      refine @group _ _ (inner?.map (Phrase.shift distance)) ?_ ?_ ?_ (hone fun inner hmem => ?_) (hone ih)
      · rw [shift_kind, hkind, Option.bind_map]
        simp only [Function.comp_def, shift_kind]
      · rw [shift_before, hbefore, List.map_nil]
      · rw [shift_after, hafter, Option.toList_map]
      · rw [shift_kind]
        exact hexpression inner hmem
  | @call _ phrase function argument? hkind hparts _ ih =>
      refine @call _ _ function (argument?.map (Phrase.shift distance)) ?_ ?_ (hone ih)
      · rw [shift_kind, operand?_shift, hkind]
      · rw [shift_parts, hparts, Option.toList_map]
  | literal hkind hparts hliteral hvalue _ ih =>
      refine .literal ((shift_kind _ _).trans hkind) ?_ ?_ ?_ ih
      · rw [shift_parts, hparts, List.map_singleton]
      · rwa [shift_kind]
      · rwa [shift_kind]
  | reference hkind hform _ ih =>
      refine .reference ((shift_kind _ _).trans hkind) hform ?_
      rw [shift_parts]
      exact hmoved ih
  | assignment hkind _ ih =>
      refine .assignment ((shift_kind _ _).trans hkind) ?_
      rw [shift_parts, List.head?_map]
      exact hmoved ih
  | other hkind _ ih =>
      refine .other ?_ ?_
      · rwa [shift_kind]
      · rw [shift_parts]
        exact hmoved ih

/-- What gives a term its type. -/
theorem Typed.term {type : ValueType} {form : TermForm} (h : phrase.Typed target?)
    (hterm : phrase.kind = .term type form) :
    (form = .group ∧ ∃ inner? : Option Phrase, type = (inner?.bind (·.kind.valueType?)).getD .unknown ∧
        phrase.before = [] ∧ phrase.after = inner?.toList ∧ ∀ inner ∈ inner?, inner.kind.isExpression = true) ∨
      (∃ function argument?, form = .call function ∧ phrase.parts = argument?.toList ∧
        type = if operand? argument? = .malformed then .unknown else function.resultType) ∨
      (form = .literal ∧ ∃ value, phrase.parts = [value] ∧ value.kind.isLiteral = true ∧
        value.kind.valueType? = some type) ∨
      (form.isReference = true ∧ type = .unknown) := by
  cases h with
  | operation hkind => exact absurd (hkind.symm.trans hterm) (Operator.kind_ne_term _ _ _ _)
  | assigned hkind => exact absurd (hkind.symm.trans hterm) (Operator.kind_ne_term _ _ _ _)
  | group hkind hbefore hafter hexpression _ =>
      obtain ⟨rfl, rfl⟩ := Kind.term.inj (hterm.symm.trans hkind)
      exact .inl ⟨rfl, _, rfl, hbefore, hafter, hexpression⟩
  | call hkind hparts _ =>
      obtain ⟨rfl, rfl⟩ := Kind.term.inj (hterm.symm.trans hkind)
      exact .inr (.inl ⟨_, _, rfl, hparts, rfl⟩)
  | literal hkind hparts hliteral hvalue _ =>
      obtain ⟨rfl, rfl⟩ := Kind.term.inj (hterm.symm.trans hkind)
      exact .inr (.inr (.inl ⟨rfl, _, hparts, hliteral, hvalue⟩))
  | reference hkind hform _ =>
      obtain ⟨rfl, rfl⟩ := Kind.term.inj (hterm.symm.trans hkind)
      exact .inr (.inr (.inr ⟨hform, rfl⟩))
  | assignment hkind => cases hterm.symm.trans hkind
  | other hkind =>
      rw [hterm] at hkind
      cases hkind

/-- What gives an operation its type. -/
theorem Typed.operation_cases {type : ValueType} (h : phrase.Typed target?)
    (hoperation : phrase.kind.operationType? = some type) :
    (∃ left sign op right?, phrase.kind = op.kind (op.infer left.operand (operand? right?)) ∧
        phrase.parts = left :: sign :: right?.toList ∧ left.kind.isExpression = true ∧
        sign.kind = .operator op op.resultType) ∨
      ∃ target sign op right?, target? = some target ∧
        phrase.kind = op.kind (op.infer target.operand (operand? right?)) ∧ phrase.parts = sign :: right?.toList ∧
        sign.kind = .operator op op.resultType := by
  cases h with
  | operation hkind hparts hleft hsign _ => exact .inl ⟨_, _, _, _, hkind, hparts, hleft, hsign⟩
  | assigned hkind hparts hsign _ => exact .inr ⟨_, _, _, _, rfl, hkind, hparts, hsign⟩
  | group hkind => cases hkind ▸ hoperation
  | call hkind => cases hkind ▸ hoperation
  | literal hkind => cases hkind ▸ hoperation
  | reference hkind => cases hkind ▸ hoperation
  | assignment hkind => cases hkind ▸ hoperation
  | other hkind => exact absurd (Kind.isExpression_of_operationType? hoperation) (Bool.eq_false_iff.mp hkind)

theorem Typed.group_cases {type : ValueType} (h : phrase.Typed target?) (hgroup : phrase.kind = .term type .group) :
    ∃ inner? : Option Phrase, type = (inner?.bind (·.kind.valueType?)).getD .unknown ∧ phrase.before = [] ∧
      phrase.after = inner?.toList ∧ ∀ inner ∈ inner?, inner.kind.isExpression = true := by
  rcases h.term hgroup with ⟨-, hinner⟩ | ⟨_, _, hform, -⟩ | ⟨hform, -⟩ | ⟨hform, -⟩
  · exact hinner
  · cases hform
  · cases hform
  · cases hform

theorem Typed.call_cases {type : ValueType} {function : Function} (h : phrase.Typed target?)
    (hcall : phrase.kind = .term type (.call function)) : ∃ argument? : Option Phrase,
      phrase.parts = argument?.toList ∧ type = if operand? argument? = .malformed then .unknown else function.resultType := by
  rcases h.term hcall with ⟨hform, -⟩ | ⟨_, argument?, hform, hparts, htype⟩ | ⟨hform, -⟩ | ⟨hform, -⟩
  · cases hform
  · obtain rfl := TermForm.call.inj hform
    exact ⟨argument?, hparts, htype⟩
  · cases hform
  · cases hform

theorem Typed.literal_cases {type : ValueType} (h : phrase.Typed target?) (hliteral : phrase.kind = .term type .literal) :
    ∃ value, phrase.parts = [value] ∧ value.kind.isLiteral = true ∧ value.kind.valueType? = some type := by
  rcases h.term hliteral with ⟨hform, -⟩ | ⟨_, _, hform, -⟩ | ⟨-, hvalue⟩ | ⟨hform, -⟩
  · cases hform
  · cases hform
  · exact hvalue
  · cases hform

theorem Typed.reference_cases {type : ValueType} {form : TermForm} (h : phrase.Typed target?)
    (hterm : phrase.kind = .term type form) (hform : form.isReference = true) : type = .unknown := by
  rcases h.term hterm with ⟨rfl, -⟩ | ⟨_, _, rfl, -⟩ | ⟨rfl, -⟩ | ⟨-, htype⟩
  · cases hform
  · cases hform
  · cases hform
  · exact htype

/-- The types in a part follow from its own parts, and from what is assigned where it is part of an assignment. -/
theorem Typed.of_mem_parts (h : phrase.Typed target?) (hpart : part ∈ phrase.parts) : ∃ assigned? : Option Phrase,
    part.Typed assigned? ∧ ∀ target ∈ assigned?, phrase.kind = .setCommand false ∧ phrase.parts.head? = some target := by
  have hnone : part.Typed none → ∃ assigned? : Option Phrase, part.Typed assigned? ∧
      ∀ target ∈ assigned?, phrase.kind = .setCommand false ∧ phrase.parts.head? = some target :=
    fun htyped => ⟨none, htyped, fun target hmem => by cases hmem⟩
  cases h with
  | operation _ _ _ _ hinner => exact hnone (hinner part hpart)
  | assigned _ _ _ hinner => exact hnone (hinner part hpart)
  | group _ hbefore hafter _ hinner =>
      rw [parts, hbefore, hafter, List.nil_append] at hpart
      exact hnone (hinner part (Option.mem_toList.mp hpart))
  | call _ hparts hinner =>
      rw [hparts] at hpart
      exact hnone (hinner part (Option.mem_toList.mp hpart))
  | literal _ hparts _ _ hinner =>
      rw [hparts] at hpart
      exact hnone (List.mem_singleton.mp hpart ▸ hinner)
  | reference _ _ hinner => exact hnone (hinner part hpart)
  | assignment hkind hinner => exact ⟨_, hinner part hpart, fun target hmem => ⟨hkind, hmem⟩⟩
  | other _ hinner => exact hnone (hinner part hpart)

/-! ### Phrases without types of their own -/

/-- A phrase that is no expression, with parts whose types follow from theirs. -/
structure Carrier (phrase : Phrase) : Prop where
  kind : phrase.kind.isExpression = false
  parts : ∀ part ∈ phrase.parts, part.Typed none

theorem Carrier.typed (h : phrase.Carrier) : phrase.Typed target? := .other h.kind h.parts

theorem carrier_of_parts_nil (hkind : phrase.kind.isExpression = false) (hparts : phrase.parts = []) :
    phrase.Carrier where
  kind := hkind
  parts := by
    rw [hparts]
    exact List.forall_mem_nil _

theorem Carrier.congr (h : phrase.Carrier) (hkind : grown.kind = phrase.kind) (hparts : grown.parts = phrase.parts) :
    grown.Carrier := ⟨hkind ▸ h.kind, hparts ▸ h.parts⟩

theorem Carrier.flag (h : phrase.Carrier) (rule : Rule) (offset length : Nat) :
    (phrase.flag rule offset length).Carrier := h.congr rfl rfl

theorem Carrier.complain (h : phrase.Carrier) (rule : Rule) (r : Reader) : (phrase.complain rule r).Carrier :=
  h.congr rfl rfl

theorem Carrier.finish (h : phrase.Carrier) (r : Reader) : (phrase.finish r).Carrier := h.congr rfl rfl

theorem Carrier.addAll (h : phrase.Carrier) {parts : List Phrase} (hparts : ∀ part ∈ parts, part.Typed none) :
    (phrase.addAll parts).Carrier where
  kind := h.kind
  parts := by
    rw [addAll_parts]
    exact List.forall_mem_append.mpr ⟨h.parts, hparts⟩

theorem Carrier.add (h : phrase.Carrier) (hpart : part.Typed none) : (phrase.add part).Carrier := by
  rw [← addAll_singleton]
  exact h.addAll (List.forall_mem_singleton.mpr hpart)

theorem Carrier.addOr (h : phrase.Carrier) {found : Option Phrase} (hfound : ∀ part ∈ found, part.Typed none)
    (rule : Rule) (r : Reader) : (phrase.addOr found rule r).Carrier := by
  cases found with
  | none => exact h.complain rule r
  | some part => exact h.add (hfound part rfl)

theorem Carrier.finishLine (h : phrase.Carrier) (r : Reader) : (phrase.finishLine r).1.Carrier := by
  unfold Phrase.finishLine
  split
  · exact h.finish r
  · exact (h.flag _ _ _).finish _

theorem Carrier.markRest (h : phrase.Carrier) (rule : Rule) (r : Reader) : (phrase.markRest rule r).1.Carrier :=
  (h.complain rule _).finish _

theorem carrier_empty {kind : Kind} (hkind : kind.isExpression = false) (offset : Nat) : (empty kind offset).Carrier :=
  carrier_of_parts_nil hkind rfl

theorem carrier_leaf {kind : Kind} (hkind : kind.isExpression = false) (r : Reader) : (r.leaf kind).1.Carrier :=
  carrier_of_parts_nil hkind rfl

theorem carrier_leafRun {kind : Kind} (hkind : kind.isExpression = false) (r : Reader) :
    (r.leafRun kind).1.Carrier := carrier_of_parts_nil hkind rfl

/-! ### Whole operands -/

structure Valued (phrase : Phrase) : Prop where
  kind : phrase.kind.isExpression = true
  typed : phrase.Typed none

end Phrase

namespace Reader

open Phrase (Typed Carrier Valued carrier_empty carrier_leaf carrier_leafRun)

variable {r : Reader} {phrase left : Phrase}

def Values (rule : Reading) : Prop := ∀ r, ∀ phrase ∈ (rule r).1, phrase.Valued

/-- The types in whatever the rule recognises follow from its parts. -/
def Types (rule : Reading) : Prop := ∀ r, ∀ phrase ∈ (rule r).1, phrase.Typed none

theorem Values.types {rule : Reading} (h : Values rule) : Types rule := fun r phrase hphrase => (h r phrase hphrase).typed

/-! ### Operations -/

theorem takeOperator_kind (r : Reader) (op : Operator) : (r.takeOperator op).1.kind = .operator op op.resultType := by
  show Phrase.kind (if op = .deprecatedModulo then _ else _) = _
  split <;> rfl

theorem takeOperator_carrier (r : Reader) (op : Operator) : (r.takeOperator op).1.Carrier := by
  have hleaf : (r.leaf (.operator op op.resultType)).1.Carrier := carrier_leaf rfl r
  show Phrase.Carrier (if op = .deprecatedModulo then _ else _)
  split
  · exact hleaf.flag _ _ _
  · exact hleaf

/-- The parts of an operation: its operator, and the right operand if there is one. -/
theorem signed_typed {found : Option Phrase} (hfound : ∀ right ∈ found, right.Typed none) (op : Operator) :
    ∀ part ∈ (r.takeOperator op).1 :: found.toList, part.Typed none := by
  refine List.forall_mem_cons.mpr ⟨(r.takeOperator_carrier op).typed, fun part hpart => ?_⟩
  exact hfound part (Option.mem_toList.mp hpart)

theorem operationOn_valued (hleft : left.Valued) {found : Option Phrase × Reader}
    (hfound : ∀ right ∈ found.1, right.Typed none) (op : Operator) (r : Reader) :
    (operationOn left op r found).Valued := by
  have hkind : (operationOn left op r found).kind = op.kind (op.infer left.operand (Phrase.operand? found.1)) :=
    Phrase.addOr_kind _ _ _ _
  have hparts : (operationOn left op r found).parts = left :: (r.takeOperator op).1 :: found.1.toList :=
    Phrase.addOr_parts _ _ _ _
  refine ⟨hkind ▸ op.isExpression_kind _, .operation hkind hparts hleft.kind (r.takeOperator_kind op) ?_⟩
  rw [hparts]
  exact List.forall_mem_cons.mpr ⟨hleft.typed, signed_typed hfound op⟩

theorem chain_valued {operand : Reading} (hoperand : Types operand) (level : Precedence) (budget : Nat)
    (hleft : left.Valued) : (chain level operand budget left r).1.Valued := by
  induction budget generalizing left r with
  | zero => exact hleft
  | succ budget ih =>
      cases hop : r.operatorAt? level with
      | none =>
          rw [chain_none hop]
          exact hleft
      | some op =>
          rw [chain_some hop]
          exact ih (operationOn_valued hleft (hoperand r.next) op r)

theorem operations_values {operand : Reading} (hoperand : Values operand) (budget : Nat) (level : Precedence) :
    Values (operations budget operand level) := by
  intro r phrase hphrase
  have hleft := hoperand r
  unfold operations at hphrase
  generalize operand r = outcome at hleft hphrase
  obtain ⟨found, behind⟩ := outcome
  cases found with
  | none => cases hphrase
  | some left =>
      cases hphrase
      exact chain_valued hoperand.types level budget (hleft left rfl)

theorem expressionOver_values {term : Reading} (hterm : Values term) (budget : Nat) :
    Values (expressionOver budget term) := by
  let property : Nat → Reading → Prop := fun _ rule => Values rule
  exact expressionOver_induction (show property 6 term from hterm)
    fun level _ hoperand => operations_values hoperand budget level

/-! ### Terms -/

theorem termOf_valued {type : ValueType} {literal : Phrase × Reader} (htyped : literal.1.Typed none)
    (hliteral : literal.1.kind.isLiteral = true) (htype : literal.1.kind.valueType? = some type) (r : Reader) :
    (termOf type r literal).1.Valued := ⟨rfl, .literal rfl rfl hliteral htype htyped⟩

theorem stringValue_carrier (r : Reader) : r.stringValue.1.Carrier ∧ r.stringValue.1.kind = .stringValue := by
  have hleaf : (r.leaf .stringValue).1.Carrier := carrier_leaf rfl r
  show Phrase.Carrier (if r.sees .badString then _ else _) ∧ Phrase.kind (if r.sees .badString then _ else _) = _
  split
  · exact ⟨hleaf.flag _ _ _, rfl⟩
  · exact ⟨hleaf, rfl⟩

theorem stringTerm_valued (r : Reader) : (termOf .string r r.stringValue).1.Valued := by
  obtain ⟨hcarrier, hkind⟩ := r.stringValue_carrier
  exact termOf_valued hcarrier.typed (congrArg Kind.isLiteral hkind) (congrArg Kind.valueType? hkind) r

variable {expression : Reading}

theorem group_valued (hexpression : Values expression) (r : Reader) : (group expression r).1.Valued := by
  have hkind : (group expression r).1.kind =
      .term (((expression r.next).1.bind (·.kind.valueType?)).getD .unknown) .group :=
    (Phrase.close_kind _ _ _ _).trans (Phrase.addOr_kind _ _ _ _)
  have hbefore : (group expression r).1.before = [] :=
    (Phrase.close_before _ _ _ _).trans (Phrase.addOr_before _ _ _ _)
  have hafter : (group expression r).1.after = (expression r.next).1.toList :=
    (Phrase.close_after _ _ _ _).trans (Phrase.addOr_after _ _ _ _)
  exact ⟨hkind ▸ rfl, .group hkind hbefore hafter (fun inner hmem => (hexpression r.next inner hmem).kind)
    (hexpression.types r.next)⟩

theorem computedReference_valued (hexpression : Types expression) (r : Reader) :
    (computedReference expression r).1.Valued := by
  have hparts : (computedReference expression r).1.parts = (expression r.next).1.toList ∧
      (computedReference expression r).1.kind = .term .unknown .computedReference := by
    simp only [computedReference]
    split
    · exact ⟨Phrase.addOr_parts _ _ _ _, Phrase.addOr_kind _ _ _ _⟩
    · exact ⟨Phrase.addOr_parts _ _ _ _, Phrase.addOr_kind _ _ _ _⟩
  refine ⟨hparts.2 ▸ rfl, .reference hparts.2 rfl fun part hpart => ?_⟩
  rw [hparts.1] at hpart
  exact hexpression r.next part (Option.mem_toList.mp hpart)

theorem call_values (hexpression : Types expression) (function : Function) : Values (call expression function) := by
  intro r phrase hphrase
  simp only [call] at hphrase
  split at hphrase
  · cases hphrase
    refine ⟨?_, @Typed.call _ _ function _ ?_ ?_ (hexpression r.next.next)⟩
    · exact (congrArg Kind.isExpression ((Phrase.close_kind _ _ _ _).trans (Phrase.addOr_kind _ _ _ _))).trans rfl
    · exact (Phrase.close_kind _ _ _ _).trans (Phrase.addOr_kind _ _ _ _)
    · exact (Phrase.close_parts _ _ _ _).trans (Phrase.addOr_parts _ _ _ _)
  · cases hphrase

/-- Indices are added to a term, which stays of its kind. -/
theorem indices_typed (hexpression : Types expression) (budget : Nat) {term : Phrase}
    (hterm : ∀ part ∈ term.parts, part.Typed none) (r : Reader) :
    (indices expression budget term r).1.kind = term.kind ∧
      ∀ part ∈ (indices expression budget term r).1.parts, part.Typed none := by
  induction budget generalizing term r with
  | zero => exact ⟨rfl, hterm⟩
  | succ budget ih =>
      have hkind := (Phrase.close_kind _ .bracketR .rightBracketExpected (expression r.next).2).trans
        (Phrase.addOr_kind term (expression r.next).1 .expressionExpected (expression r.next).2)
      have hparts := (Phrase.close_parts _ .bracketR .rightBracketExpected (expression r.next).2).trans
        (Phrase.addOr_parts term (expression r.next).1 .expressionExpected (expression r.next).2)
      have hindex : ∀ part ∈ term.parts ++ (expression r.next).1.toList, part.Typed none :=
        List.forall_mem_append.mpr ⟨hterm, fun part hpart =>
          hexpression r.next part (Option.mem_toList.mp hpart)⟩
      rw [← hparts] at hindex
      unfold indices
      dsimp only
      split
      · generalize Phrase.close _ _ _ _ = closed at hkind hindex
        obtain ⟨found, closed, behind⟩ := closed
        cases found with
        | true =>
            obtain ⟨hsame, hmore⟩ := ih hindex behind
            exact ⟨hsame.trans hkind, hmore⟩
        | false => exact ⟨hkind, hindex⟩
      · exact ⟨rfl, hterm⟩

theorem variableTerm_valued (hexpression : Types expression) (budget : Nat) (r : Reader) :
    (variableTerm budget expression r).1.Valued := by
  have hname : (r.leaf .var).1.Typed none := (carrier_leaf rfl r).typed
  have hform : (if (r.leaf .var).2.seesIndex then TermForm.arrayIndex else .var).isReference = true := by
    split <;> rfl
  simp only [variableTerm]
  generalize (if (r.leaf .var).2.seesIndex then TermForm.arrayIndex else .var) = form at hform ⊢
  have hterm : ∀ part ∈ ((Phrase.begin (.term .unknown form) r).add (r.leaf .var).1).parts, part.Typed none :=
    List.forall_mem_singleton.mpr hname
  obtain ⟨hkind, hparts⟩ := indices_typed hexpression budget hterm (r.leaf .var).2
  exact ⟨(congrArg Kind.isExpression hkind).trans rfl, .reference hkind hform hparts⟩

theorem nameTerm_values (hexpression : Types expression) (budget : Nat) : Values (nameTerm budget expression) := by
  intro r phrase hphrase
  simp only [nameTerm] at hphrase
  split at hphrase
  · cases hphrase
    exact termOf_valued (carrier_leaf rfl r).typed rfl rfl r
  · split at hphrase
    · exact call_values hexpression _ r phrase hphrase
    · split at hphrase
      · cases hphrase
      · cases hphrase
        exact variableTerm_valued hexpression budget r

theorem termOver_values (hexpression : Values expression) (budget : Nat) : Values (termOver budget expression) := by
  intro r phrase hphrase
  simp only [termOver] at hphrase
  split at hphrase
  · cases hphrase
    exact termOf_valued (carrier_leaf rfl r).typed rfl rfl r
  · cases hphrase
    exact stringTerm_valued r
  · cases hphrase
    exact stringTerm_valued r
  · cases hphrase
    exact group_valued hexpression r
  · cases hphrase
    exact computedReference_valued hexpression.types r
  · exact nameTerm_values hexpression.types budget r phrase hphrase
  · cases hphrase

theorem expressionWithin_values (budget : Nat) : Values (expressionWithin budget) := by
  induction budget with
  | zero => exact fun _ _ hphrase => by cases hphrase
  | succ budget ih => exact expressionOver_values (termOver_values ih budget) budget

theorem expression_values : Values Reader.expression := fun r => expressionWithin_values r.budget r

theorem term_values : Values term := fun r => termOver_values (expressionWithin_values r.budget) r.budget r

theorem variableName_types : Types variableName := by
  intro r phrase hphrase
  unfold variableName at hphrase
  split at hphrase
  · cases hphrase
    exact (carrier_leaf rfl r).typed
  · cases hphrase

theorem assignable_types : Types assignable := by
  intro r phrase hphrase
  simp only [assignable] at hphrase
  split at hphrase
  · cases hphrase
    exact (computedReference_valued expression_values.types r).typed
  · split at hphrase
    · split at hphrase
      · cases hphrase
        exact (variableTerm_valued expression_values.types r.budget r).typed
      · cases hphrase
        exact (carrier_leaf rfl r).typed
    · cases hphrase

theorem assignedOperation_typed (target : Phrase) (op : Operator) (r : Reader) :
    (assignedOperation target op r).1.Typed (some target) := by
  have hparts : (assignedOperation target op r).1.parts =
      (r.takeOperator op).1 :: (Reader.expression (r.takeOperator op).2).1.toList := Phrase.addOr_parts _ _ _ _
  refine .assigned (Phrase.addOr_kind _ _ _ _) hparts (r.takeOperator_kind op) ?_
  rw [hparts]
  exact signed_typed (expression_values.types _) op

end Reader

end Gamebook
