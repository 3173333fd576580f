import Gamebook.Proofs.Scene.Lookup

/-!
What can be named. Two walks go outward from an offset: one looks for a name, the other collects all names, each
once. They agree. A name that was collected is found as what was collected under it, and what is found under the
name of a variable was collected; so was a label, unless it was found somewhere else in the scene.
-/

namespace Gamebook

namespace Lookup

open ScopeTree (Candidate Foremost)

variable {lookup : Lookup} {name : String} {type : ReferenceType} {offset : Nat} {binding : Binding}
  {candidates : List Binding}

/-! ### Each name once -/

theorem any_addVisible (found : List Binding) (binding : Binding) (name : String) (type : ReferenceType) :
    (addVisible found binding).any (·.symbol.answers name type) =
      (found.any (·.symbol.answers name type) || binding.symbol.answers name type) := by
  simp only [addVisible]
  split
  · rename_i hpresent
    cases hanswers : binding.symbol.answers name type with
    | false => exact (Bool.or_false _).symm
    | true =>
        simp only [Symbol.answers, Bool.and_eq_true, beq_iff_eq] at hanswers
        rw [hanswers.1, hanswers.2] at hpresent
        rw [hpresent]
        rfl
  · rw [List.any_append, List.any_cons, List.any_nil, Bool.or_false]

/-- Of the candidates under some name one is collected. -/
theorem any_foldl_addVisible (candidates found : List Binding) (name : String) (type : ReferenceType) :
    (candidates.foldl addVisible found).any (·.symbol.answers name type) =
      (found.any (·.symbol.answers name type) || candidates.any (·.symbol.answers name type)) := by
  induction candidates generalizing found with
  | nil => exact (Bool.or_false _).symm
  | cons binding more ih => rw [List.foldl_cons, ih, any_addVisible, List.any_cons, Bool.or_assoc]

theorem answers_self (binding : Binding) :
    binding.symbol.answers binding.symbol.name binding.symbol.referenceType = true := by
  rw [Symbol.answers, beq_self_eq_true, beq_self_eq_true]
  rfl

/-- The one that is collected is the first. -/
theorem mem_foldl_addVisible_iff : binding ∈ candidates.foldl addVisible [] ↔
    candidates.find? (·.symbol.answers binding.symbol.name binding.symbol.referenceType) = some binding := by
  induction candidates using List.reverseRecOn with
  | nil => simp
  | append_singleton front last ih =>
      have hpresent := any_foldl_addVisible front [] last.symbol.name last.symbol.referenceType
      have hlast : [last].find? (·.symbol.answers binding.symbol.name binding.symbol.referenceType) = some binding ↔
          binding = last := by
        rw [List.find?_singleton, Option.ite_none_right_eq_some, Option.some.injEq]
        constructor
        · exact fun h => h.2.symm
        · rintro rfl
          exact ⟨answers_self binding, rfl⟩
      rw [List.any_nil, Bool.false_or] at hpresent
      rw [List.foldl_append, List.foldl_cons, List.foldl_nil, List.find?_append]
      simp only [addVisible, hpresent]
      cases hfirst : front.find? (·.symbol.answers binding.symbol.name binding.symbol.referenceType) with
      | some first =>
          -- The name is taken, so that the last one, if it is collected, goes by another name.
          rw [hfirst] at ih
          rw [Option.some_or, ← ih]
          split
          · rfl
          · rename_i hnew
            rw [List.mem_append, List.mem_singleton]
            refine or_iff_left ?_
            rintro rfl
            exact hnew (List.any_eq_true.mpr ⟨first, List.mem_of_find?_eq_some hfirst, by simpa using List.find?_some hfirst⟩)
      | none =>
          -- Nothing in front goes by the name: it can only be the last one.
          have hnone : binding ∉ front.foldl addVisible [] := by
            rw [ih, hfirst]
            exact nofun
          rw [Option.none_or, hlast]
          split
          · rename_i hold
            refine iff_of_false hnone ?_
            rintro rfl
            obtain ⟨first, hmem, hanswers⟩ := List.any_eq_true.mp hold
            exact List.find?_eq_none.mp hfirst first hmem hanswers
          · rw [List.mem_append, List.mem_singleton]
            exact or_iff_right hnone

/-- No two that are collected have both name and type in common. -/
theorem pairwise_foldl_addVisible (candidates : List Binding) :
    (candidates.foldl addVisible []).Pairwise fun left right =>
      left.symbol.answers right.symbol.name right.symbol.referenceType = false := by
  refine List.foldlRecOn candidates addVisible .nil fun found hpairs binding _ => ?_
  simp only [addVisible]
  split
  · exact hpairs
  · rename_i hnew
    refine List.pairwise_append.mpr ⟨hpairs, List.pairwise_singleton _ _, fun left hleft right hright => ?_⟩
    obtain rfl := List.mem_singleton.mp hright
    exact Bool.eq_false_iff.mpr fun hanswers => hnew (List.any_eq_true.mpr ⟨left, hleft, hanswers⟩)

/-- To collect those of one type is to collect all and keep those. -/
theorem filter_foldl_addVisible (candidates : List Binding) (type : ReferenceType) :
    (candidates.foldl addVisible []).filter (·.symbol.referenceType == type) =
      (candidates.filter (·.symbol.referenceType == type)).foldl addVisible [] := by
  induction candidates using List.reverseRecOn with
  | nil => rfl
  | append_singleton front last ih =>
      rw [List.filter_append, List.foldl_append, List.foldl_append, List.foldl_cons, List.foldl_nil, ← ih,
        List.filter_singleton]
      generalize front.foldl addVisible [] = found
      cases hlast : last.symbol.referenceType == type with
      | false =>
          simp only [addVisible]
          split
          · rfl
          · rw [List.filter_append, List.filter_singleton, hlast]
            exact List.append_nil _
      | true =>
          -- what has the name of the last one has its type as well
          have hsame : (found.filter (·.symbol.referenceType == type)).any
              (·.symbol.answers last.symbol.name last.symbol.referenceType) =
                found.any (·.symbol.answers last.symbol.name last.symbol.referenceType) := by
            rw [List.any_filter, ← beq_iff_eq.mp hlast]
            refine congrArg (List.any found) (funext fun binding => ?_)
            rw [Symbol.answers, Bool.and_comm (_ == _) (_ == _), ← Bool.and_assoc, Bool.and_self]
          rw [cond_true, List.foldl_cons, List.foldl_nil]
          simp only [addVisible, hsame]
          split
          · rfl
          · rw [List.filter_append, List.filter_singleton, hlast]
            rfl

/-! ### The two walks -/

/-- What the search for a name comes by, from the inside out. -/
def around (lookup : Lookup) (offset : Nat) : List Binding :=
  (lookup.scopes.outward (lookup.scopes.find offset 0)).flatMap fun scope => (lookup.scopes.bindings scope).reverse

theorem findSome?_eq_find? (lookup : Lookup) (name : String) (type : ReferenceType) (offset : Nat) :
    (lookup.scopes.outward (lookup.scopes.find offset 0)).findSome? (lookup.scopes.findIn? · name type offset) =
      (lookup.around offset).find? fun binding =>
        binding.symbol.answers name type && binding.symbol.countsAt offset :=
  List.find?_flatMap.symm

theorem visible_eq (lookup : Lookup) (offset : Nat) (type : Option ReferenceType) :
    lookup.visible offset type = ((lookup.around offset).filter fun binding =>
      type.all (· == binding.symbol.referenceType) && binding.symbol.countsAt offset).foldl addVisible [] := rfl

/-- What is collected of one type is what the search in the scopes around the offset finds under its name. -/
theorem mem_visible_iff : binding ∈ lookup.visible offset (some type) ↔ binding.symbol.referenceType = type ∧
    (lookup.scopes.outward (lookup.scopes.find offset 0)).findSome?
      (lookup.scopes.findIn? · binding.symbol.name type offset) = some binding := by
  have htest (other : Binding) :
      (((some binding.symbol.referenceType).all (· == other.symbol.referenceType) && other.symbol.countsAt offset) &&
        other.symbol.answers binding.symbol.name binding.symbol.referenceType) =
          (other.symbol.answers binding.symbol.name binding.symbol.referenceType && other.symbol.countsAt offset) := by
    rw [Option.all_some, Symbol.answers, BEq.comm (a := binding.symbol.referenceType)]
    cases other.symbol.referenceType == binding.symbol.referenceType <;> simp [Bool.and_comm]
  rw [visible_eq, mem_foldl_addVisible_iff, findSome?_eq_find?]
  constructor
  · intro hfound
    have hwanted := (List.mem_filter.mp (List.mem_of_find?_eq_some hfound)).2
    obtain rfl : type = binding.symbol.referenceType := beq_iff_eq.mp (Bool.and_eq_true_iff.mp hwanted).1
    rw [List.find?_filter] at hfound
    simp only [Bool.decide_and, Bool.decide_eq_true, htest] at hfound
    exact ⟨rfl, hfound⟩
  · rintro ⟨rfl, hfound⟩
    rw [List.find?_filter]
    simp only [Bool.decide_and, Bool.decide_eq_true, htest]
    exact hfound

/-- What is collected at an offset agrees with what is found there. -/
structure Agrees (lookup : Lookup) (offset : Nat) : Prop where
  /-- Among what is collected of one type each name is there once. -/
  distinct : ∀ type, ((lookup.visible offset (some type)).map (·.symbol.name)).Nodup
  /-- What is collected is the innermost that its name can stand for, and there the last. -/
  foremost : ∀ type binding, binding ∈ lookup.visible offset (some type) ↔
    lookup.scopes.Foremost (lookup.scopes.Candidate binding.symbol.name type offset) binding
  /-- What is collected is found under its name. -/
  found : ∀ type, ∀ binding ∈ lookup.visible offset (some type),
    lookup.find? binding.symbol.name type offset = some binding
  /-- What is found under the name of a variable is collected. -/
  var : ∀ name binding, lookup.find? name .var offset = some binding → binding ∈ lookup.visible offset (some .var)
  /-- What is found under the name of a label is collected just if some scope that the offset is in binds one. -/
  label : ∀ name binding, lookup.find? name .label offset = some binding →
    (binding ∈ lookup.visible offset (some .label) ↔ ∃ other, lookup.scopes.Candidate name .label offset other)
  /-- What is collected of one type is what is collected of all types, without the others. -/
  narrowed : ∀ type, (lookup.visible offset none).filter (·.symbol.referenceType == type) =
    lookup.visible offset (some type)

theorem agrees_of_searchable (h : lookup.scopes.Searchable) (offset : Nat) : lookup.Agrees offset := by
  constructor
  case distinct =>
    intro type
    have hpairs : (lookup.visible offset (some type)).Pairwise fun left right =>
        left.symbol.answers right.symbol.name right.symbol.referenceType = false := pairwise_foldl_addVisible _
    refine List.pairwise_map.mpr (hpairs.imp_of_mem fun {left right} hleft hright hapart hname => ?_)
    have htype := (mem_visible_iff.mp hleft).1.trans (mem_visible_iff.mp hright).1.symm
    rw [← hname, ← htype, answers_self] at hapart
    cases hapart
  case foremost =>
    intro type binding
    rw [mem_visible_iff, h.findSome?_eq_some_iff]
    exact and_iff_right_of_imp fun hforemost => hforemost.mem.named.2
  case found =>
    intro type binding hbinding
    obtain ⟨-, hfound⟩ := mem_visible_iff.mp hbinding
    simp only [find?, hfound]
  case var =>
    intro name binding hfound
    obtain ⟨-, rfl, htype⟩ := mem_of_find? hfound
    refine mem_visible_iff.mpr ⟨htype, ?_⟩
    rw [h.findSome?_eq_some_iff]
    exact ((find?_eq_some_iff h).mp hfound).resolve_right fun hlabel => absurd hlabel.1 (by decide)
  case label =>
    intro name binding hfound
    obtain ⟨-, rfl, htype⟩ := mem_of_find? hfound
    rw [mem_visible_iff, and_iff_right htype, h.findSome?_eq_some_iff]
    constructor
    · exact fun hforemost => ⟨binding, hforemost.mem⟩
    · rintro ⟨other, hother⟩
      exact ((find?_eq_some_iff h).mp hfound).resolve_right fun hlabel => hlabel.2.1 other hother
  case narrowed =>
    intro type
    rw [visible_eq, visible_eq, filter_foldl_addVisible, List.filter_filter]
    refine congrArg (List.foldl addVisible []) (List.filter_congr fun binding _ => ?_)
    rw [Option.all_none, Option.all_some, Bool.true_and, BEq.comm]

end Lookup

namespace Scene

/-- Whatever the scene and the offset, the names that can be used there are those that are found there. -/
theorem agrees_lookup (source : Text) (name uri : Option String) (levels : Levels)
    (hsize : Text.bytes source ≤ maxOffset) (offset : Nat) : (lookup source name uri levels).Agrees offset :=
  Lookup.agrees_of_searchable (searchable_lookup source name uri levels hsize) offset

/-- Behind a variable that shadows another one, and a label that is declared twice. -/
theorem agrees_lookup_shadowed :
    Text.bytes "*temp a 1\n*label l\n*if true\n  *temp a 2\n  *label l\n  *label l\n  Here.\n".toList ≤ maxOffset ∧
      (lookup "*temp a 1\n*label l\n*if true\n  *temp a 2\n  *label l\n  *label l\n  Here.\n".toList none none
        {}).Agrees 65 := by
  have hsize : Text.bytes
      "*temp a 1\n*label l\n*if true\n  *temp a 2\n  *label l\n  *label l\n  Here.\n".toList ≤ maxOffset := by decide
  exact ⟨hsize, agrees_lookup _ none none {} hsize 65⟩

end Scene

end Gamebook
