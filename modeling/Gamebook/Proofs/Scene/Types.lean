import Gamebook.Proofs.Grammar.Typed
import Gamebook.Proofs.Tree.Inside

/-!
Inferred types. The types in the tree of a scene are those that typing rules over the finished tree give:
what a node contributes as an operand is read off the node, the operands of an operation are its children
around its operator, and the variable that is assigned where there is none in front of it.
-/

namespace Gamebook

namespace Kind

def operator? : Kind → Option Operator
  | .operator op _ => some op
  | _ => none

/-- The kinds of nodes that refer to a variable, whose type is not known from the scene. -/
def isReference : Kind → Bool
  | .var => true
  | .term _ form => form.isReference
  | _ => false

def isGroup : Kind → Bool
  | .term _ .group => true
  | _ => false

end Kind

/-! ### Typing rules -/

/-- The operator takes the operand: it is not malformed, and has an accepted type if it has one. -/
structure Operator.Takes (op : Operator) (operand : Operand) : Prop where
  formed : operand ≠ .malformed
  accepted : ∀ type, operand = .typed type → op.accepts type = true

/-- The operator makes a value of its operands. Types that are compared have to be the same. -/
structure Operator.Joins (op : Operator) (first second : Operand) : Prop where
  left : op.Takes first
  right : op.Takes second
  same : op.family = .comparison → ∀ type other, first = .typed type → second = .typed other → type = other

namespace Tree

/-- What a node contributes as an operand. -/
inductive Counts (tree : Tree) : Nat → Operand → Prop
  | reference {id : Nat} {kind : Kind} (hkind : tree.kind? id = some kind) (hreference : kind.isReference = true) :
      Counts tree id .untyped
  | group {id inner : Nat} {kind : Kind} {operand : Operand} (hkind : tree.kind? id = some kind)
      (hgroup : kind.isGroup = true) (hchild : (tree.children id).head? = some inner)
      (hinner : Counts tree inner operand) : Counts tree id operand
  | emptyGroup {id : Nat} {kind : Kind} (hkind : tree.kind? id = some kind) (hgroup : kind.isGroup = true)
      (hempty : tree.children id = []) : Counts tree id .malformed
  | typed {id : Nat} {kind : Kind} {type : ValueType} (hkind : tree.kind? id = some kind)
      (hreference : kind.isReference = false) (hgroup : kind.isGroup = false) (htype : kind.valueType? = some type)
      (hdefinite : type ≠ .unknown) : Counts tree id (.typed type)
  | malformed {id : Nat} {kind : Kind} (hkind : tree.kind? id = some kind) (hreference : kind.isReference = false)
      (hgroup : kind.isGroup = false) (htype : kind.valueType? = none ∨ kind.valueType? = some .unknown) :
      Counts tree id .malformed

variable (tree : Tree) (id : Nat)

def isOperator : Bool := ((tree.kind? id).bind Kind.operator?).isSome

def operator? : Option Operator := (tree.children id).findSome? fun child => (tree.kind? child).bind Kind.operator?

/-- The variable that is assigned by the node around an operation, if that assigns by value. -/
def assigned? : Option Nat :=
  (tree.parent? id).bind fun above =>
    if tree.kind? above = some (.setCommand false) then (tree.children above).head? else none

/-- The left operand of an operation: the child in front of the operator, or what is assigned. -/
def leftOperand? : Option Nat := ((tree.children id).takeWhile (!tree.isOperator ·)).head?.or (tree.assigned? id)

/-- The right operand of an operation: the child behind the operator. -/
def rightOperand? : Option Nat := ((tree.children id).dropWhile (!tree.isOperator ·)).tail.head?

/-- Both operands of an operation are there, and its operator makes a value of them. -/
def WellTyped (op : Operator) : Prop := ∃ left right leftOperand rightOperand,
  tree.leftOperand? id = some left ∧ tree.rightOperand? id = some right ∧ tree.Counts left leftOperand ∧
    tree.Counts right rightOperand ∧ op.Joins leftOperand rightOperand

/-- The types of all expressions are those that the typing rules give. -/
structure Inferred (tree : Tree) : Prop where
  operand : ∀ id < tree.size, ∃! operand, tree.Counts id operand
  operation : ∀ id kind type, tree.kind? id = some kind → kind.operationType? = some type →
    ∃ op, tree.operator? id = some op ∧ kind = op.kind type ∧ (type = op.resultType ↔ tree.WellTyped id op) ∧
      (¬tree.WellTyped id op → type = .unknown)
  group : ∀ id type, tree.kind? id = some (.term type .group) →
    (tree.children id = [] ∧ type = .unknown) ∨
      ∃ inner kind, tree.children id = [inner] ∧ tree.kind? inner = some kind ∧ kind.valueType? = some type
  call : ∀ id type function, tree.kind? id = some (.term type (.call function)) →
    (type = function.resultType ↔ ∃ argument operand, (tree.children id).head? = some argument ∧
      tree.Counts argument operand ∧ operand ≠ .malformed) ∧ (type ≠ function.resultType → type = .unknown)
  literal : ∀ id type, tree.kind? id = some (.term type .literal) →
    ∃ value kind, tree.children id = [value] ∧ tree.kind? value = some kind ∧ kind.isLiteral = true ∧
      kind.valueType? = some type
  reference : ∀ id type form, tree.kind? id = some (.term type form) → form.isReference = true → type = .unknown

variable {tree : Tree} {id : Nat}

theorem not_isGroup_of_isReference {kind : Kind} (h : kind.isReference = true) : kind.isGroup = false := by
  cases kind with
  | term type form => cases form <;> first | rfl | cases h
  | _ => rfl

/-- A node contributes one thing only. -/
theorem Counts.unique {operand other : Operand} (h : tree.Counts id operand) (hother : tree.Counts id other) :
    operand = other := by
  induction h generalizing other with
  | reference hkind hreference =>
      have hgroup := not_isGroup_of_isReference hreference
      cases hother <;> simp_all
  | group hkind hgroup hchild _ ih =>
      cases hother with
      | group _ _ hchild' hinner' =>
          obtain rfl := Option.some.inj (hchild.symm.trans hchild')
          exact ih hinner'
      | reference hkind' hreference' =>
          have hgroup' := not_isGroup_of_isReference hreference'
          simp_all
      | _ => simp_all
  | emptyGroup hkind hgroup hempty =>
      cases hother with
      | reference hkind' hreference' =>
          have hgroup' := not_isGroup_of_isReference hreference'
          simp_all
      | _ => simp_all
  | typed hkind hreference hgroup htype hdefinite => cases hother <;> simp_all
  | malformed hkind hreference hgroup htype => cases hother <;> simp_all

/-- The operands of an operation, by its children. -/
theorem operands_of_children {left? right? : Option Nat} {sign : Nat} {op : Operator} {type : ValueType}
    (hchildren : tree.children id = left?.toList ++ sign :: right?.toList)
    (hleft : ∀ left ∈ left?, tree.isOperator left = false) (hsign : tree.kind? sign = some (.operator op type)) :
    tree.operator? id = some op ∧ tree.leftOperand? id = left?.or (tree.assigned? id) ∧
      tree.rightOperand? id = right? := by
  have hoperator : (tree.kind? sign).bind Kind.operator? = some op := by rw [hsign]; rfl
  have hends : tree.isOperator sign = true := by rw [isOperator, hoperator, Option.isSome_some]
  rw [operator?, leftOperand?, rightOperand?, hchildren]
  cases left? with
  | none =>
      simp only [Option.toList_none, List.nil_append, List.findSome?_cons, hoperator, List.takeWhile_cons,
        List.dropWhile_cons, hends, Bool.not_true, Bool.false_eq_true, if_false, List.tail_cons, Option.head?_toList,
        List.head?_nil, Option.none_or, and_self]
  | some left =>
      have hstays := hleft left rfl
      have hnone : (tree.kind? left).bind Kind.operator? = none := Option.not_isSome_iff_eq_none.mp (by
        rw [← isOperator, hstays]
        exact Bool.false_ne_true)
      simp only [Option.toList_some, List.singleton_append, List.findSome?_cons, hnone, hoperator, List.takeWhile_cons,
        List.dropWhile_cons, hstays, hends, Bool.not_true, Bool.not_false, Bool.false_eq_true, if_true, if_false,
        List.tail_cons, Option.head?_toList, List.head?_cons, Option.some_or, and_self]

theorem wellTyped_iff {op : Operator} {left : Nat} {right? : Option Nat} {first second : Operand}
    (hleft : tree.leftOperand? id = some left) (hright : tree.rightOperand? id = right?)
    (hfirst : tree.Counts left first) (hsecond : ∀ right ∈ right?, tree.Counts right second)
    (hmissing : right? = none → second = .malformed) : tree.WellTyped id op ↔ op.Joins first second := by
  constructor
  · rintro ⟨left', right, first', second', hleft', hright', hfirst', hsecond', hjoins⟩
    obtain rfl := Option.some.inj (hleft.symm.trans hleft')
    obtain rfl := hright.symm.trans hright'
    rwa [hfirst.unique hfirst', (hsecond right rfl).unique hsecond']
  · intro hjoins
    cases right? with
    | none => exact absurd (hmissing rfl) hjoins.right.formed
    | some right => exact ⟨left, right, first, second, hleft, hright, hfirst, hsecond right rfl, hjoins⟩

end Tree

/-! ### Inference -/

namespace Operator

theorem operationType?_kind (op : Operator) (type : ValueType) : (op.kind type).operationType? = some type := by
  unfold kind
  split <;> rfl

theorem resultType_ne_unknown (op : Operator) : op.resultType ≠ .unknown := by
  unfold resultType
  split <;> nofun

theorem takes_iff {op : Operator} {operand : Operand} : op.Takes operand ↔ operand.accepted op = true := by
  cases operand with
  | untyped => exact ⟨fun _ => rfl, fun _ => ⟨nofun, nofun⟩⟩
  | typed type =>
      refine ⟨fun h => h.accepted type rfl, fun h => ⟨nofun, fun other hsame => ?_⟩⟩
      obtain rfl := Operand.typed.inj hsame
      exact h
  | malformed => exact ⟨fun h => absurd rfl h.formed, nofun⟩

theorem clash_eq_false_iff {first second : Operand} : first.clash second = false ↔
    ∀ type other, first = .typed type → second = .typed other → type = other := by
  cases first <;> cases second <;> simp [Operand.clash]

theorem joins_iff {op : Operator} {first second : Operand} : op.Joins first second ↔
    (first.accepted op && second.accepted op && !(op.family == .comparison && first.clash second)) = true := by
  have hsame : !(op.family == .comparison && first.clash second) ↔
      (op.family = .comparison → first.clash second = false) := by
    cases hfamily : op.family <;> simp
  rw [Bool.and_eq_true, Bool.and_eq_true, ← takes_iff, ← takes_iff, hsame, clash_eq_false_iff]
  exact ⟨fun h => ⟨⟨h.left, h.right⟩, h.same⟩, fun h => ⟨h.1.1, h.1.2, h.2⟩⟩

theorem infer_eq (op : Operator) (first second : Operand) :
    (op.infer first second = op.resultType ↔ op.Joins first second) ∧
      (¬op.Joins first second → op.infer first second = .unknown) := by
  unfold infer
  rw [joins_iff]
  split
  · rename_i hjoins
    exact ⟨⟨fun _ => hjoins, fun _ => rfl⟩, fun hno => absurd hjoins hno⟩
  · rename_i hno
    exact ⟨⟨fun h => absurd h.symm op.resultType_ne_unknown, fun hjoins => absurd hjoins hno⟩, fun _ => rfl⟩

end Operator

/-! ### Reading the types off -/

theorem Kind.exists_type_of_isGroup {kind : Kind} (h : kind.isGroup = true) : ∃ type, kind = .term type .group := by
  cases kind with
  | term type form =>
      cases form with
      | group => exact ⟨type, rfl⟩
      | _ => cases h
  | _ => cases h

theorem Kind.exists_valueType?_of_isExpression {kind : Kind} (h : kind.isExpression = true) :
    ∃ type, kind.valueType? = some type := by
  cases kind <;> first | exact ⟨_, rfl⟩ | cases h

theorem Kind.operator?_of_isExpression {kind : Kind} (h : kind.isExpression = true) : kind.operator? = none := by
  cases kind <;> first | rfl | cases h

theorem Function.resultType_ne_unknown (function : Function) : function.resultType ≠ .unknown := by
  cases function <;> nofun

namespace Phrase

variable {levels : Levels} {source : Text} {phrase : Phrase} {entry : TreeEntry}

theorem Typed.of_mem_entries (h : phrase.Typed none) (hentry : entry ∈ phrase.entries none 0) :
    ∃ assigned? : Option Phrase, entry.phrase.Typed assigned? ∧ ∀ target ∈ assigned?,
      ∃ above ∈ phrase.entries none 0, entry ∈ above.parts ∧ above.phrase.kind = .setCommand false ∧
        above.phrase.parts.head? = some target := by
  refine entries_induction_on (motive := fun entry => ∃ assigned? : Option Phrase, entry.phrase.Typed assigned? ∧
    ∀ target ∈ assigned?, ∃ above ∈ phrase.entries none 0, entry ∈ above.parts ∧
      above.phrase.kind = .setCommand false ∧ above.phrase.parts.head? = some target) hentry ?_ ?_
  · exact ⟨none, h, fun target hmem => by cases hmem⟩
  · rintro above habove ⟨_, htyped, -⟩ part hpart
    obtain ⟨assigned?, hinner, htarget⟩ := htyped.of_mem_parts (TreeEntry.phrase_mem_parts hpart)
    exact ⟨assigned?, hinner, fun target hmem => ⟨above, habove, hpart, htarget target hmem⟩⟩

theorem operand_of_isReference (hkind : phrase.kind.isReference = true) : phrase.operand = .untyped := by
  obtain ⟨kind, start, stop, issues, before, after⟩ := phrase
  cases kind with
  | var => rfl
  | term type form => cases form <;> first | rfl | cases hkind
  | _ => cases hkind

theorem operand_of_group {type : ValueType} (hkind : phrase.kind = .term type .group) :
    phrase.operand = operand? phrase.after.head? := by
  obtain ⟨kind, start, stop, issues, before, after⟩ := phrase
  obtain rfl : kind = .term type .group := hkind
  cases after <;> rfl

theorem operand_of_other (hreference : phrase.kind.isReference = false) (hgroup : phrase.kind.isGroup = false) :
    phrase.operand = .ofKind phrase.kind := by
  obtain ⟨kind, start, stop, issues, before, after⟩ := phrase
  cases kind with
  | var => cases hreference
  | term type form =>
      cases form with
      | group => cases hgroup
      | literal => rfl
      | call function => rfl
      | _ => cases hreference
  | _ => rfl

/-- A node contributes what its phrase contributes. -/
theorem counts_toTree (h : phrase.Typed none) (hentry : entry ∈ phrase.entries none 0) :
    (phrase.toTree levels source).Counts entry.id entry.phrase.operand := by
  induction entry using TreeEntry.parts_induction with
  | h entry ih =>
      have hkind := kind?_toTree levels source hentry
      have hchildren := children_toTree levels source hentry
      cases hreference : entry.phrase.kind.isReference with
      | true =>
          rw [operand_of_isReference hreference]
          exact .reference hkind hreference
      | false =>
          cases hgroup : entry.phrase.kind.isGroup with
          | true =>
              obtain ⟨type, htype⟩ := Kind.exists_type_of_isGroup hgroup
              obtain ⟨assigned?, htyped, -⟩ := h.of_mem_entries hentry
              obtain ⟨inner?, -, hbefore, hafter, -⟩ := htyped.group_cases htype
              have hparts : entry.parts.map TreeEntry.phrase = inner?.toList := by
                rw [TreeEntry.map_phrase_parts, parts, hbefore, hafter, List.nil_append]
              rw [operand_of_group htype, hafter]
              cases hlist : entry.parts with
              | nil =>
                  rw [hlist] at hparts hchildren
                  obtain rfl : inner? = none := Option.toList_eq_nil_iff.mp hparts.symm
                  exact .emptyGroup hkind hgroup hchildren
              | cons inner more =>
                  rw [hlist] at hparts hchildren
                  have hinner : inner ∈ entry.parts := hlist ▸ List.mem_cons_self
                  have hcounts := ih inner hinner (parts_subset_entries none 0 phrase entry hentry hinner)
                  rw [← hparts]
                  exact .group hkind hgroup (by rw [hchildren]; rfl) hcounts
          | false =>
              rw [operand_of_other hreference hgroup, Operand.ofKind]
              cases htype : entry.phrase.kind.valueType? with
              | none => exact .malformed hkind hreference hgroup (.inl htype)
              | some type =>
                  cases type with
                  | unknown => exact .malformed hkind hreference hgroup (.inr htype)
                  | _ => exact .typed hkind hreference hgroup htype (by decide)

theorem isOperator_toTree (hentry : entry ∈ phrase.entries none 0) :
    (phrase.toTree levels source).isOperator entry.id = entry.phrase.kind.operator?.isSome := by
  rw [Tree.isOperator, kind?_toTree levels source hentry, Option.bind_some]

/-- A part that may be missing, as a child. -/
theorem exists_part? (hentry : entry ∈ phrase.entries none 0) {parts : List TreeEntry} (hsubset : parts ⊆ entry.parts)
    {found : Option Phrase} (hparts : parts.map TreeEntry.phrase = found.toList) : ∃ part? : Option TreeEntry,
      part?.map TreeEntry.phrase = found ∧ parts = part?.toList ∧ ∀ part ∈ part?, part ∈ phrase.entries none 0 := by
  cases found with
  | none => exact ⟨none, rfl, List.map_eq_nil_iff.mp hparts, fun part hmem => by cases hmem⟩
  | some inner =>
      obtain ⟨part, rfl, rfl⟩ := List.map_eq_singleton_iff.mp hparts
      refine ⟨some part, rfl, rfl, fun other hmem => ?_⟩
      obtain rfl := Option.some.inj hmem
      exact parts_subset_entries none 0 phrase entry hentry (hsubset List.mem_cons_self)

/-- What is missing counts as malformed. -/
theorem counts?_toTree (h : phrase.Typed none) {part? : Option TreeEntry}
    (hparts : ∀ part ∈ part?, part ∈ phrase.entries none 0) :
    (∀ id ∈ part?.map TreeEntry.id, (phrase.toTree levels source).Counts id (operand? (part?.map TreeEntry.phrase))) ∧
      (part?.map TreeEntry.id = none → operand? (part?.map TreeEntry.phrase) = .malformed) := by
  cases part? with
  | none => exact ⟨fun id hmem => (by cases hmem), fun _ => rfl⟩
  | some part =>
      refine ⟨fun id hmem => ?_, nofun⟩
      obtain rfl := Option.some.inj hmem
      exact counts_toTree h (hparts part rfl)

theorem exists_first {above : TreeEntry} {target : Phrase} (hhead : above.phrase.parts.head? = some target) :
    ∃ first, above.parts.head? = some first ∧ first.phrase = target := by
  rw [← TreeEntry.map_phrase_parts, List.head?_map] at hhead
  exact Option.map_eq_some_iff.mp hhead

/-- An operation has the type that its operator makes of its operands. -/
theorem operation_of_operands (h : phrase.Typed none) {id : Nat} {kind : Kind} {type : ValueType} {op : Operator}
    {first : TreeEntry} {right? : Option TreeEntry} (htype : kind.operationType? = some type)
    (hkind : kind = op.kind (op.infer first.phrase.operand (operand? (right?.map TreeEntry.phrase))))
    (hoperator : (phrase.toTree levels source).operator? id = some op)
    (hleft : (phrase.toTree levels source).leftOperand? id = some first.id)
    (hright : (phrase.toTree levels source).rightOperand? id = right?.map TreeEntry.id)
    (hfirst : first ∈ phrase.entries none 0) (hright? : ∀ right ∈ right?, right ∈ phrase.entries none 0) :
    ∃ op, (phrase.toTree levels source).operator? id = some op ∧ kind = op.kind type ∧
      (type = op.resultType ↔ (phrase.toTree levels source).WellTyped id op) ∧
      (¬(phrase.toTree levels source).WellTyped id op → type = .unknown) := by
  have hsecond := @counts?_toTree levels source _ h _ hright?
  have hjoins : (phrase.toTree levels source).WellTyped id op ↔ op.Joins _ _ :=
    Tree.wellTyped_iff hleft hright (counts_toTree h hfirst) hsecond.1 hsecond.2
  rw [hkind, op.operationType?_kind] at htype
  obtain rfl := Option.some.inj htype
  refine ⟨op, hoperator, hkind, ?_⟩
  rw [hjoins]
  exact op.infer_eq _ _

theorem operation_toTree (h : phrase.Typed none) (hentry : entry ∈ phrase.entries none 0) {type : ValueType}
    (htype : entry.phrase.kind.operationType? = some type) :
    ∃ op, (phrase.toTree levels source).operator? entry.id = some op ∧ entry.phrase.kind = op.kind type ∧
      (type = op.resultType ↔ (phrase.toTree levels source).WellTyped entry.id op) ∧
      (¬(phrase.toTree levels source).WellTyped entry.id op → type = .unknown) := by
  have hchildren := children_toTree levels source hentry
  have hsubset := parts_subset_entries none 0 phrase entry hentry
  have hmap := TreeEntry.map_phrase_parts entry
  obtain ⟨assigned?, htyped, htarget⟩ := h.of_mem_entries hentry
  rcases htyped.operation_cases htype with
    ⟨left, sign, op, right?, hkind, hparts, hleft, hsign⟩ | ⟨target, sign, op, right?, rfl, hkind, hparts, hsign⟩
  · obtain ⟨first, rest, hlist, rfl, hrest⟩ := List.map_eq_cons_iff.mp (hmap.trans hparts)
    obtain ⟨middle, last, rfl, rfl, hlast⟩ := List.map_eq_cons_iff.mp hrest
    obtain ⟨part?, rfl, rfl, hright⟩ := exists_part? hentry
      (fun part hpart => by rw [hlist]; exact List.mem_cons_of_mem _ (List.mem_cons_of_mem _ hpart)) hlast
    rw [hlist] at hchildren hsubset
    have hfirst := hsubset List.mem_cons_self
    have hmiddle := hsubset (List.mem_cons_of_mem _ List.mem_cons_self)
    have haround : (phrase.toTree levels source).children entry.id =
        (some first.id).toList ++ middle.id :: (part?.map TreeEntry.id).toList := by
      rw [hchildren, Option.toList_map]
      rfl
    have hstays : ∀ left ∈ some first.id, (phrase.toTree levels source).isOperator left = false := by
      intro left hmem
      obtain rfl := Option.some.inj hmem
      rw [isOperator_toTree hfirst, Kind.operator?_of_isExpression hleft]
      rfl
    obtain ⟨hoperator, hleftOperand, hrightOperand⟩ :=
      Tree.operands_of_children haround hstays ((kind?_toTree levels source hmiddle).trans (congrArg some hsign))
    exact operation_of_operands h htype hkind hoperator hleftOperand hrightOperand hfirst hright
  · obtain ⟨middle, last, hlist, rfl, hlast⟩ := List.map_eq_cons_iff.mp (hmap.trans hparts)
    obtain ⟨part?, rfl, rfl, hright⟩ := exists_part? hentry
      (fun part hpart => by rw [hlist]; exact List.mem_cons_of_mem _ hpart) hlast
    rw [hlist] at hchildren hsubset
    have hmiddle := hsubset List.mem_cons_self
    have hbehind : (phrase.toTree levels source).children entry.id =
        (none : Option Nat).toList ++ middle.id :: (part?.map TreeEntry.id).toList := by
      rw [hchildren, Option.toList_map]
      rfl
    -- The left operand is the first part of the assignment around the operation.
    obtain ⟨above, habove, hpart, hset, hhead⟩ := htarget target rfl
    obtain ⟨first, hfirst, rfl⟩ := exists_first hhead
    have hassigned : (phrase.toTree levels source).assigned? entry.id = some first.id := by
      rw [Tree.assigned?, parent?_toTree levels source hentry, TreeEntry.parent_of_mem_parts hpart, Option.bind_some,
        kind?_toTree levels source habove, hset, if_pos rfl, children_toTree levels source habove, List.head?_map,
        hfirst, Option.map_some]
    obtain ⟨hoperator, hleftOperand, hrightOperand⟩ :=
      Tree.operands_of_children hbehind (fun left hmem => by cases hmem)
        ((kind?_toTree levels source hmiddle).trans (congrArg some hsign))
    rw [Option.none_or, hassigned] at hleftOperand
    exact operation_of_operands h htype hkind hoperator hleftOperand hrightOperand
      (parts_subset_entries none 0 phrase above habove (List.mem_of_mem_head? hfirst)) hright

/-- A group has the type of what is in it. -/
theorem group_toTree (h : phrase.Typed none) (hentry : entry ∈ phrase.entries none 0) {type : ValueType}
    (hgroup : entry.phrase.kind = .term type .group) :
    ((phrase.toTree levels source).children entry.id = [] ∧ type = .unknown) ∨
      ∃ inner kind, (phrase.toTree levels source).children entry.id = [inner] ∧
        (phrase.toTree levels source).kind? inner = some kind ∧ kind.valueType? = some type := by
  obtain ⟨assigned?, htyped, -⟩ := h.of_mem_entries hentry
  obtain ⟨inner?, rfl, hbefore, hafter, hexpression⟩ := htyped.group_cases hgroup
  obtain ⟨part?, rfl, hparts, hpart⟩ := @exists_part? _ _ hentry entry.parts (List.Subset.refl _) inner?
    (by rw [TreeEntry.map_phrase_parts, parts, hbefore, hafter, List.nil_append])
  have hchildren := children_toTree levels source hentry
  rw [hparts] at hchildren
  cases part? with
  | none => exact .inl ⟨hchildren, rfl⟩
  | some inner =>
      obtain ⟨type, htype⟩ := Kind.exists_valueType?_of_isExpression (hexpression _ rfl)
      refine .inr ⟨inner.id, inner.phrase.kind, hchildren, kind?_toTree levels source (hpart inner rfl), ?_⟩
      rw [Option.map_some, Option.bind_some, htype, Option.getD_some]

/-- A call has the type of its function unless its argument is missing or malformed. -/
theorem call_toTree (h : phrase.Typed none) (hentry : entry ∈ phrase.entries none 0) {type : ValueType}
    {function : Function} (hcall : entry.phrase.kind = .term type (.call function)) :
    (type = function.resultType ↔ ∃ argument operand,
        ((phrase.toTree levels source).children entry.id).head? = some argument ∧
          (phrase.toTree levels source).Counts argument operand ∧ operand ≠ .malformed) ∧
      (type ≠ function.resultType → type = .unknown) := by
  have hknown := function.resultType_ne_unknown
  obtain ⟨assigned?, htyped, -⟩ := h.of_mem_entries hentry
  obtain ⟨argument?, hargument, rfl⟩ := htyped.call_cases hcall
  obtain ⟨part?, rfl, hparts, hpart⟩ := @exists_part? _ _ hentry entry.parts (List.Subset.refl _) argument?
    (by rw [TreeEntry.map_phrase_parts, hargument])
  obtain ⟨hcounts, hmissing⟩ := @counts?_toTree levels source _ h _ hpart
  have hformed : (∃ argument operand, part?.map TreeEntry.id = some argument ∧
      (phrase.toTree levels source).Counts argument operand ∧ operand ≠ .malformed) ↔
        operand? (part?.map TreeEntry.phrase) ≠ .malformed := by
    constructor
    · rintro ⟨argument, operand, hfound, hoperand, hne⟩
      rwa [(hcounts argument hfound).unique hoperand]
    · intro hne
      cases hfound : part?.map TreeEntry.id with
      | none => exact absurd (hmissing hfound) hne
      | some argument => exact ⟨argument, _, rfl, hcounts argument hfound, hne⟩
  rw [children_toTree levels source hentry, hparts, ← Option.toList_map, Option.head?_toList, hformed]
  split
  · rename_i hmalformed
    exact ⟨⟨fun h => absurd h.symm hknown, fun hne => absurd hmalformed hne⟩, fun _ => rfl⟩
  · rename_i hne
    exact ⟨⟨fun _ => hne, fun _ => rfl⟩, fun hno => absurd rfl hno⟩

/-- A literal has the type of what it holds. -/
theorem literal_toTree (h : phrase.Typed none) (hentry : entry ∈ phrase.entries none 0) {type : ValueType}
    (hliteral : entry.phrase.kind = .term type .literal) :
    ∃ value kind, (phrase.toTree levels source).children entry.id = [value] ∧
      (phrase.toTree levels source).kind? value = some kind ∧ kind.isLiteral = true ∧ kind.valueType? = some type := by
  obtain ⟨assigned?, htyped, -⟩ := h.of_mem_entries hentry
  obtain ⟨value, hparts, hform, hvalue⟩ := htyped.literal_cases hliteral
  obtain ⟨part, hpart, rfl⟩ := List.map_eq_singleton_iff.mp ((TreeEntry.map_phrase_parts entry).trans hparts)
  have hmem : part ∈ phrase.entries none 0 :=
    parts_subset_entries none 0 phrase entry hentry (hpart ▸ List.mem_singleton_self part)
  refine ⟨part.id, part.phrase.kind, ?_, kind?_toTree levels source hmem, hform, hvalue⟩
  rw [children_toTree levels source hentry, hpart, List.map_singleton]

theorem inferred_toTree (h : phrase.Typed none) : (phrase.toTree levels source).Inferred := by
  have hentries : ∀ {id : Nat} {kind : Kind}, (phrase.toTree levels source).kind? id = some kind →
      ∃ entry ∈ phrase.entries none 0, entry.id = id ∧ entry.phrase.kind = kind := by
    intro id kind hkind
    obtain ⟨node, hnode, rfl⟩ := Option.map_eq_some_iff.mp hkind
    obtain ⟨entry, hentry, rfl, rfl⟩ := exists_entry_of_node? hnode
    exact ⟨entry, hentry, rfl, rfl⟩
  constructor
  case operand =>
    intro id hid
    rw [size_toTree] at hid
    obtain ⟨entry, hentry, rfl⟩ := exists_entry none (Nat.zero_le id) (by rwa [Nat.zero_add])
    have hcounts : (phrase.toTree levels source).Counts entry.id entry.phrase.operand := counts_toTree h hentry
    exact ⟨_, hcounts, fun other hother => hother.unique hcounts⟩
  case operation =>
    intro id kind type hkind htype
    obtain ⟨entry, hentry, rfl, rfl⟩ := hentries hkind
    exact operation_toTree h hentry htype
  case group =>
    intro id type hkind
    obtain ⟨entry, hentry, rfl, hgroup⟩ := hentries hkind
    exact group_toTree h hentry hgroup
  case call =>
    intro id type function hkind
    obtain ⟨entry, hentry, rfl, hcall⟩ := hentries hkind
    exact call_toTree h hentry hcall
  case literal =>
    intro id type hkind
    obtain ⟨entry, hentry, rfl, hliteral⟩ := hentries hkind
    exact literal_toTree h hentry hliteral
  case reference =>
    intro id type form hkind hform
    obtain ⟨entry, hentry, rfl, hreference⟩ := hentries hkind
    obtain ⟨assigned?, htyped, -⟩ := h.of_mem_entries hentry
    exact htyped.reference_cases hreference hform

end Phrase

/-- Whatever the scene, the types in its tree are those that the typing rules give. -/
theorem Scene.inferred_parse (source : Text) (name uri : Option String) (levels : Levels) :
    (Scene.parse source name uri levels).Inferred := Phrase.inferred_toTree (Scene.phrase_typed source name uri)

end Gamebook
