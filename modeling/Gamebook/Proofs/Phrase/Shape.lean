import Gamebook.Proofs.Grammar.Derivation
import Gamebook.Proofs.Phrase.Order
import Mathlib.Data.List.Forall2

/-!
Phrases without errors, and the shapes that phrases have. A phrase shows the shape of a derivation if its
parts do, one by one; so it shows one shape only.
-/

namespace Gamebook

/-- The kind without the type of its value. -/
def Kind.untyped : Kind → Kind
  | .expression _ => .expression .unknown
  | .binaryExpression _ => .binaryExpression .unknown
  | .stringExpression _ => .stringExpression .unknown
  | .term _ form => .term .unknown form
  | kind => kind

theorem Operator.untyped_kind (op : Operator) (type : ValueType) : (op.kind type).untyped = op.kind .unknown := by
  unfold kind
  cases op.family <;> rfl

namespace Phrase

/-! ### Errors -/

def Clean : Phrase → Prop := Everywhere fun inner => ∀ issue ∈ inner.issues, ¬issue.rule.IsError

variable {phrase part : Phrase}

theorem clean_iff (phrase : Phrase) : phrase.Clean ↔
    (∀ issue ∈ phrase.issues, ¬issue.rule.IsError) ∧ ∀ part ∈ phrase.parts, part.Clean :=
  everywhere_iff

theorem clean_congr {other : Phrase} (hissues : phrase.issues = other.issues) (hparts : phrase.parts = other.parts) :
    phrase.Clean ↔ other.Clean := by
  rw [clean_iff phrase, clean_iff other, hissues, hparts]

@[simp] theorem clean_begin (kind : Kind) (r : Reader) : (begin kind r).Clean :=
  (clean_iff _).mpr ⟨nofun, nofun⟩

@[simp] theorem clean_empty (kind : Kind) (offset : Nat) : (empty kind offset).Clean :=
  (clean_iff _).mpr ⟨nofun, nofun⟩

@[simp] theorem clean_reach (stop : Nat) : (phrase.reach stop).Clean ↔ phrase.Clean := clean_congr rfl rfl

@[simp] theorem clean_finish (r : Reader) : (phrase.finish r).Clean ↔ phrase.Clean := clean_congr rfl rfl

@[simp] theorem clean_add : (phrase.add part).Clean ↔ phrase.Clean ∧ part.Clean := by
  have hissues : (phrase.add part).issues = phrase.issues := rfl
  rw [clean_iff (phrase.add part), clean_iff phrase, add_parts, List.forall_mem_append, List.forall_mem_singleton,
    hissues, and_assoc]

@[simp] theorem clean_addAll {parts : List Phrase} :
    (phrase.addAll parts).Clean ↔ phrase.Clean ∧ ∀ part ∈ parts, part.Clean := by
  have hissues : (phrase.addAll parts).issues = phrase.issues := rfl
  rw [clean_iff (phrase.addAll parts), clean_iff phrase, addAll_parts, List.forall_mem_append, hissues, and_assoc]

@[simp] theorem clean_settled : phrase.settled.Clean ↔ phrase.Clean := clean_congr rfl (settled_parts phrase)

@[simp] theorem clean_flag {rule : Rule} {offset length : Nat} :
    (phrase.flag rule offset length).Clean ↔ phrase.Clean ∧ ¬rule.IsError := by
  have hparts : (phrase.flag rule offset length).parts = phrase.parts := rfl
  rw [clean_iff (phrase.flag rule offset length), clean_iff phrase, flag_issues, List.forall_mem_append,
    List.forall_mem_singleton, hparts, and_right_comm]

@[simp] theorem clean_around (kind : Kind) (offset : Nat) : (around kind offset [part]).Clean ↔ part.Clean := by
  rw [clean_iff]
  simp [around, parts]

theorem clean_addOr {found : Option Phrase} {rule : Rule} {r : Reader} (hrule : rule.IsError) :
    (phrase.addOr found rule r).Clean ↔ phrase.Clean ∧ ∃ part, found = some part ∧ part.Clean := by
  cases found with
  | none => simp [addOr, complain, hrule]
  | some part => simp [addOr]

/-! ### Shapes -/

/-- The phrase is what a shape says, apart from types and from the ranges of what is no leaf. -/
inductive Shows : Phrase → Shape → Prop
  | leaf {phrase : Phrase} {kind : Kind} {start stop : Nat} (hkind : phrase.kind = kind)
      (hstart : phrase.start = start) (hstop : phrase.stop = stop) (hparts : phrase.parts = []) :
      Shows phrase (.leaf kind start stop)
  | node {phrase : Phrase} {kind : Kind} {shapes : List Shape} (hkind : phrase.kind.untyped = kind)
      (hne : phrase.parts ≠ []) (hlength : phrase.parts.length = shapes.length)
      (hparts : ∀ pair ∈ phrase.parts.zip shapes, Shows pair.1 pair.2) : Shows phrase (.node kind shapes)

/-- A phrase shows one shape only. -/
theorem Shows.unique {shape other : Shape} (h : phrase.Shows shape) (hother : phrase.Shows other) :
    shape = other := by
  induction h generalizing other with
  | leaf hkind hstart hstop hparts =>
      cases hother with
      | leaf hkind' hstart' hstop' _ => rw [← hkind, ← hstart, ← hstop, ← hkind', ← hstart', ← hstop']
      | node _ hne _ _ => exact absurd hparts hne
  | @node phrase kind shapes hkind hne hlength hparts ih =>
      cases hother with
      | leaf _ _ _ hnil => exact absurd hnil hne
      | @node _ kind' shapes' hkind' _ hlength' hparts' =>
          have hshapes : shapes = shapes' := by
            refine List.ext_getElem (hlength.symm.trans hlength') ?_
            intro index hindex hindex'
            have hin : index < phrase.parts.length := hlength ▸ hindex
            have hpair : (phrase.parts[index], shapes[index]) ∈ phrase.parts.zip shapes :=
              List.mem_iff_getElem.mpr ⟨index, by rw [List.length_zip]; omega, List.getElem_zip⟩
            have hpair' : (phrase.parts[index], shapes'[index]) ∈ phrase.parts.zip shapes' :=
              List.mem_iff_getElem.mpr ⟨index, by rw [List.length_zip]; omega, List.getElem_zip⟩
            exact ih _ hpair (hparts' _ hpair')
          rw [← hkind, ← hkind', hshapes]

theorem shows_node {kind : Kind} {shapes : List Shape} (hkind : phrase.kind.untyped = kind)
    (hne : phrase.parts ≠ []) (hparts : List.Forall₂ Shows phrase.parts shapes) : phrase.Shows (.node kind shapes) := by
  obtain ⟨hlength, hpairs⟩ := List.forall₂_iff_zip.mp hparts
  exact .node hkind hne hlength fun pair hpair => hpairs hpair

end Phrase

end Gamebook
