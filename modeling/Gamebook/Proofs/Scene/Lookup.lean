import Gamebook.Proofs.Scene.Scopes
import Gamebook.Proofs.Scope.Lookup

/-!
Names in a scene. The scopes of a scene can be searched: an offset in a scope that binds something is found
there, since the only scopes that overlap are the conditions of an option, and these bind nothing. So a name
stands for the last symbol in the innermost scope, wherever the offset is.
-/

namespace Gamebook

namespace Scope

variable {phrase : Phrase} {levels : Levels} {source : Text} {binding : Binding} {offset : Nat}

/-- What is bound in the scopes of a phrase, and where. -/
theorem exists_of_binding (hfirst : phrase.before = [])
    (h : binding ∈ (nested (phrase.toTree levels source)).allBindings) :
    ∃ entry ∈ phrase.entries none 0, ∃ name ∈ names (phrase.toTree levels source) entry.id,
      binding.symbol = symbolOf (phrase.toTree levels source) entry.id name ∧
      home (phrase.toTree levels source) entry.id ∈ owners (openedOf (phrase.entries none 0)) ∧
      binding.scope = number (openedOf (phrase.entries none 0)) (home (phrase.toTree levels source) entry.id) := by
  rw [nested_toTree hfirst, ScopeTree.mem_allBindings_iff] at h
  obtain ⟨holder, hholder, hscope⟩ :=
    exists_holder (@walked_entries phrase levels source).nodup (ScopeTree.lt_size_of_mem_bindings h)
  have hsymbol := (ScopeTree.mem_bindings_iff.mp h).2
  rw [← hscope, ← Array.getElem?_toList, symbols_layout hholder] at hsymbol
  obtain ⟨⟨other, symbol⟩, hmem, rfl⟩ := List.mem_map.mp (List.mem_of_getElem? hsymbol)
  obtain ⟨hbound, hother⟩ := List.mem_filter.mp hmem
  obtain rfl : other = holder := of_decide_eq_true hother
  obtain ⟨entry, hentry, hbinding⟩ := List.mem_flatMap.mp hbound
  obtain ⟨name, hname, heq⟩ := List.mem_map.mp hbinding
  obtain ⟨hhome, hsame⟩ := Prod.mk.injEq _ _ _ _ ▸ heq
  subst hhome
  exact ⟨entry, hentry, name, hname, hsame.symm, hholder, hscope.symm⟩

/-- The search leads to every scope that the offset is in and in which something is declared. -/
theorem leadsTo_holder {holder inner : TreeEntry} {bound : List (Option Nat × Symbol)} (hframed : phrase.Framed)
    (hsize : phrase.stop ≤ maxOffset) (hholder : holder ∈ phrase.entries none 0)
    (hinner : inner ∈ phrase.entries none 0) (hscoped : inner.phrase.kind.isScoped = true)
    (howner : owner (phrase.toTree levels source) inner.id = some holder.id) (hstart : holder.phrase.start ≤ offset)
    (hstop : offset < holder.phrase.stop) :
    (layout (phrase.toTree levels source) (openedOf (phrase.entries none 0)) bound).LeadsTo offset 0 ScopeTree.root
      (number (openedOf (phrase.entries none 0)) (some holder.id)) := by
  rw [← howner]
  refine leadsTo_owner hinner fun outer houter hopens hbelow => ?_
  obtain ⟨before, after, hsplit⟩ := List.append_of_mem houter
  -- the scope encloses the one that the offset is in, so it holds the offset
  obtain ⟨nearest, hnearest, _, hid⟩ := @owner_of_mem_below phrase levels source inner outer houter hopens hbelow
  have hsame : nearest = holder := Phrase.entry_eq_of_id_eq (Phrase.sublist_inside houter hnearest) hholder
    (Option.some.inj (hid.symm.trans howner))
  have henclosed := hframed.enclosed houter (hsame ▸ hnearest)
  have hbefore := Nat.lt_of_lt_of_le hstop henclosed.2
  rw [hsplit]
  refine childAt?_entry hframed hsize (by rw [hsplit, List.append_nil]) hopens
    (Nat.le_trans henclosed.1 hstart) hbefore (Nat.le_trans (Nat.min_le_left _ _) (Nat.le_of_lt hbefore)) ?_
  intro other hother hotheropens hotherowner
  have hpair : [outer, other].Sublist (phrase.entries none 0) := hsplit ▸ sublist_of_mem_back hother
  cases hframed.placed hpair (isScoped_of_opensScope hopens) (isScoped_of_opensScope hotheropens) with
  | inside hinside => exact absurd hotherowner (owner_ne_of_mem_below houter hopens hinside)
  | behind hbehind => exact Nat.lt_of_lt_of_le hbefore hbehind
  | modifiers _ _ _ _ hsuccessive =>
      have heq := Phrase.Framed.eq_of_plain_parts hsuccessive.plain.1
        (TreeEntry.mem_inside_iff.mpr (.inr hbelow)) hscoped
      exact absurd (heq ▸ hbelow) (TreeEntry.not_mem_below_self _)

theorem searchable_nested (hframed : phrase.Framed) (hsize : phrase.stop ≤ maxOffset) (hfirst : phrase.before = []) :
    (nested (phrase.toTree levels source)).Searchable := by
  have hlinked : (nested (phrase.toTree levels source)).Linked := by
    rw [nested_toTree hfirst]
    exact (walked_entries).linked
  have hfilled : ScopeTree.root < (nested (phrase.toTree levels source)).size := by
    rw [nested, size_layout]
    exact Nat.succ_pos _
  refine ⟨hlinked, hfilled, ?_, fun binding hbinding offset hforce => ?_⟩
  · rw [nested, ← number_none, parent?_layout List.mem_cons_self]
    rfl
  · obtain ⟨entry, hentry, name, hname, _, hmem, hscope⟩ := exists_of_binding hfirst hbinding
    have hfind := (hlinked.leadsTo_find offset 0).1
    rw [hscope] at hforce ⊢
    cases hhome : home (phrase.toTree levels source) entry.id with
    | none =>
        rw [number_none]
        exact hlinked.mem_outward_of_leadsTo hfilled hfind
    | some id =>
        have howner : owner (phrase.toTree levels source) entry.id = some id := by
          rw [home] at hhome
          split at hhome
          · cases hhome
          · exact hhome
        have hscoped := isScoped_of_declares (declares_of_mem_names hentry hname)
        obtain ⟨holder, hholder, rfl, hopens, _⟩ := exists_of_owner hentry howner
        rw [hhome] at hforce hmem
        rw [nested_toTree hfirst] at hforce hfind hlinked ⊢
        rcases hforce with hroot | ⟨scope, hfound, hstart, hstop⟩
        · rw [← number_none] at hroot
          cases number_inj hmem hroot
        · rw [scope?_layout hmem, Option.some.injEq] at hfound
          subst hfound
          rw [offset_scopeOf_entry hholder] at hstart
          rw [stop_scopeOf_entry hframed hsize hholder] at hstop
          refine hlinked.mem_outward_of_leadsTo ?_ (hlinked.find_of_leadsTo
            (leadsTo_holder hframed hsize hholder hentry hscoped howner hstart hstop))
          rw [size_layout]
          exact number_lt hmem

end Scope

namespace Lookup

/-- Names are looked up by their scopes. A variable is the foremost of those that are declared before the
offset and around it; a label is the foremost of those around the offset, or else the first one anywhere. -/
structure Lexical (lookup : Lookup) : Prop where
  declared : ∀ name offset binding, lookup.find? name .var offset = some binding ↔
    lookup.scopes.Foremost (lookup.scopes.Candidate name .var offset) binding
  undeclared : ∀ name offset, lookup.find? name .var offset = none ↔
    ∀ binding, ¬lookup.scopes.Candidate name .var offset binding
  label : ∀ name offset binding, lookup.find? name .label offset = some binding ↔
    lookup.scopes.Foremost (lookup.scopes.Candidate name .label offset) binding ∨
      (∀ other, ¬lookup.scopes.Candidate name .label offset other) ∧
        lookup.scopes.allBindings.find? (·.symbol.answers name .label) = some binding
  missing : ∀ name offset, lookup.find? name .label offset = none ↔
    ∀ binding ∈ lookup.scopes.allBindings, binding.symbol.answers name .label = false
  unique : ∀ name offset binding, lookup.scopes.allBindings.filter (·.symbol.answers name .label) = [binding] →
    lookup.find? name .label offset = some binding

variable {lookup : Lookup}

theorem lexical_of_searchable (h : lookup.scopes.Searchable) : lookup.Lexical := by
  have hmissing : ∀ name offset, lookup.find? name .label offset = none ↔
      ∀ binding ∈ lookup.scopes.allBindings, binding.symbol.answers name .label = false := by
    intro name offset
    rw [find?_eq_none_iff h]
    refine ⟨fun hnone => hnone.2 rfl, fun hnone => ⟨fun binding hcandidate => ?_, fun _ => hnone⟩⟩
    have hanswers := hnone binding hcandidate.bound
    rw [Symbol.answers, hcandidate.named.1, hcandidate.named.2, beq_self_eq_true, beq_self_eq_true] at hanswers
    cases hanswers
  refine ⟨fun name offset binding => ?_, fun name offset => ?_, fun name offset binding => ?_, hmissing, ?_⟩
  · rw [find?_eq_some_iff h]
    exact or_iff_left fun hlabel => absurd hlabel.1 (by decide)
  · rw [find?_eq_none_iff h]
    exact and_iff_left fun hlabel => absurd hlabel (by decide)
  · rw [find?_eq_some_iff h]
    exact or_congr_right (and_iff_right rfl)
  · intro name offset binding hunique
    have hbinding : binding ∈ lookup.scopes.allBindings.filter (·.symbol.answers name .label) := by simp [hunique]
    cases hfound : lookup.find? name .label offset with
    | none =>
        obtain ⟨hmem, hanswers⟩ := List.mem_filter.mp hbinding
        rw [(hmissing name offset).mp hfound binding hmem] at hanswers
        cases hanswers
    | some found =>
        obtain ⟨hmem, hname, htype⟩ := mem_of_find? hfound
        have hother : found ∈ lookup.scopes.allBindings.filter (·.symbol.answers name .label) :=
          List.mem_filter.mpr ⟨hmem, by rw [Symbol.answers, hname, htype, beq_self_eq_true, beq_self_eq_true]; rfl⟩
        rw [hunique, List.mem_singleton] at hother
        rw [hother]

end Lookup

namespace Scene

/-- The scene with its scopes. -/
def lookup (source : Text) (name uri : Option String) (levels : Levels) : Lookup where
  tree := (Scope.build (Scene.parse source name uri levels)).1
  scopes := (Scope.build (Scene.parse source name uri levels)).2

variable (source : Text) (name uri : Option String) (levels : Levels) (hsize : Text.bytes source ≤ maxOffset)
include hsize

/-- Reading a scene and building its scopes by searching gives its tree with notes and its scopes by
nesting. -/
theorem lookup_eq : lookup source name uri levels =
    ⟨Scope.annotated (Scene.parse source name uri levels), Scope.nested (Scene.parse source name uri levels)⟩ := by
  rw [← (phrase_range source name uri).2] at hsize
  have hbuild := @Scope.build_toTree _ levels source (framed_phrase source name uri) hsize rfl
  rw [lookup]
  exact congrArg (fun built => Lookup.mk built.1 built.2) hbuild

theorem searchable_lookup : (lookup source name uri levels).scopes.Searchable := by
  rw [lookup_eq source name uri levels hsize]
  rw [← (phrase_range source name uri).2] at hsize
  exact Scope.searchable_nested (framed_phrase source name uri) hsize rfl

/-- Whatever the scene, its names are looked up by their scopes. -/
theorem lexical_lookup : (lookup source name uri levels).Lexical :=
  Lookup.lexical_of_searchable (searchable_lookup source name uri levels hsize)

omit hsize

theorem lexical_lookup_shadowed :
    Text.bytes "*temp x 1\n*if x\n  *temp x 2\n  *set x 3\n*label x\n*goto x\n".toList ≤ maxOffset ∧
      (lookup "*temp x 1\n*if x\n  *temp x 2\n  *set x 3\n*label x\n*goto x\n".toList none none {}).Lexical :=
  have hsize : Text.bytes "*temp x 1\n*if x\n  *temp x 2\n  *set x 3\n*label x\n*goto x\n".toList ≤ maxOffset := by
    decide
  ⟨hsize, lexical_lookup _ none none {} hsize⟩

end Scene

end Gamebook
