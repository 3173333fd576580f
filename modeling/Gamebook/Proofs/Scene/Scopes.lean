import Gamebook.Proofs.Scene.Laid
import Gamebook.Proofs.Scope.Nesting
import Gamebook.Proofs.Tree.Shape

/-!
The scopes of a scene. They are the scopes by nesting: every scope encloses its children, which stand in
order and apart, and the symbols of a scope stand in order too. There is one exception: where an option has
two conditions, an error in the first one is marked at the asterisk of the second one and stretches the
scope of the first over it.
-/

namespace Gamebook

namespace ScopeTree

def Enclosing (scopes : ScopeTree) : Prop :=
  ∀ id scope, scopes.scope? id = some scope → ∀ child ∈ scope.children, ∃ inner,
    scopes.scope? child = some inner ∧ scope.offset ≤ inner.offset ∧ inner.stop ≤ scope.stop

/-- The children of every scope are in order, and each one ends before the next one starts, unless they are
such that they may overlap. -/
def Disjoint (scopes : ScopeTree) (overlap : Scope → Scope → Prop) : Prop :=
  ∀ id, (scopes.children id).toList.Pairwise fun left right => ∃ first second,
    scopes.scope? left = some first ∧ scopes.scope? right = some second ∧ first.offset ≤ second.offset ∧
      (first.stop ≤ second.offset ∨ overlap first second)

def DeclaredInOrder (scopes : ScopeTree) : Prop :=
  ∀ id, (scopes.symbols id).toList.Pairwise fun left right => left.offset ≤ right.offset

end ScopeTree

namespace Tree

/-- The scopes of two conditions of one option, of which the first one reaches over the first byte of the
second one, and not to its end, because of an error in it. -/
structure ConditionsOverlap (tree : Tree) (left right : Scope) : Prop where
  conditions : ∃ option reuse conditional, tree.kind? option = some (.choiceOption reuse conditional) ∧
    ∃ first ∈ tree.children option, ∃ second ∈ tree.children option,
      tree.kind? first = some (.standardCommand "if") ∧ tree.kind? second = some (.standardCommand "if") ∧
      (tree.node? first).map (fun node => (node.offset, node.stop)) = some (left.offset, left.stop) ∧
      (tree.node? second).map (fun node => (node.offset, node.stop)) = some (right.offset, right.stop) ∧
      ∃ marker ∈ tree.issuesBelow first, marker.level = .error
  overlap : left.stop = right.offset + 1 ∧ left.stop < right.stop

/-- The scopes that are found for a tree are its scopes by nesting. -/
structure Scoped (tree : Tree) : Prop where
  built : Scope.build tree = (Scope.annotated tree, Scope.nested tree)
  once : (tree.preorder root).Perm tree.ids
  enclosing : (Scope.nested tree).Enclosing
  disjoint : (Scope.nested tree).Disjoint tree.ConditionsOverlap
  ordered : (Scope.nested tree).DeclaredInOrder

end Tree

namespace Phrase

variable {phrase : Phrase} {levels : Levels} {source : Text} {entry inner left right : TreeEntry}

/-- The markers below a node are those on the entries inside it. -/
theorem issuesBelow_toTree (hentry : entry ∈ phrase.entries none 0) :
    (phrase.toTree levels source).issuesBelow entry.id =
      entry.inside.flatMap fun inner => (phrase.toTree levels source).issues inner.id := by
  have hcount : entry.phrase.count ≤ phrase.count := by
    rcases TreeEntry.mem_inside_iff.mp (show entry ∈ TreeEntry.inside ⟨0, none, phrase⟩ from hentry) with rfl | hbelow
    · exact Nat.le_refl _
    · exact Nat.le_of_lt (TreeEntry.count_lt_of_mem_below hbelow)
  have hpreorder : (phrase.toTree levels source).preorder (entry.phrase.idFrom entry.base) =
      (entry.phrase.entries entry.parent entry.base).map TreeEntry.id :=
    preorder_entries (hcount.trans_eq (size_toTree levels source phrase).symm)
      fun inner hinner => children_toTree levels source (sublist_inside hentry hinner)
  have hwalk := (phrase.toTree levels source).walk_eq_foldl
    (fun found id => found ++ (phrase.toTree levels source).issues id) entry.id []
  rw [Tree.issuesBelow, hwalk, TreeEntry.id, hpreorder, ← List.flatMap_eq_foldl, List.flatMap_map]
  rfl

theorem exists_error (hsound : phrase.Laid) (hentry : entry ∈ phrase.entries none 0) (herror : ¬entry.phrase.Clean) :
    ∃ marker ∈ (phrase.toTree levels source).issuesBelow entry.id, marker.level = .error := by
  by_contra hnone
  push Not at hnone
  refine herror (everywhere_of_entries ?_ (mem_entries_self entry.parent entry.base entry.phrase)
    (Everywhere.inside hsound hentry))
  intro inner hinner issue hissue hrule
  have hlevel : levels.of issue.rule = .error := by
    revert hrule
    cases issue.rule <;> first | exact fun _ => rfl | exact nofun
  have hmarker : issue.marker? levels inner.id = some (.ofRule issue.rule .error inner.id issue.offset issue.length) := by
    rw [Issue.marker?]
    simp only [hlevel]
    rfl
  refine hnone (.ofRule issue.rule .error inner.id issue.offset issue.length) ?_ rfl
  rw [issuesBelow_toTree hentry]
  refine List.mem_flatMap.mpr ⟨inner, hinner, ?_⟩
  rw [Tree.issues, node?_toTree levels source (sublist_inside hentry hinner)]
  exact List.mem_filterMap.mpr ⟨issue, hissue, hmarker⟩

end Phrase

namespace Scope

open Phrase (node?_toTree kind?_toTree)

variable {phrase : Phrase} {levels : Levels} {source : Text}

theorem isCondition {kind : Kind} (hmodifier : kind.isModifier = true) (hopens : kind.opensScope = true) :
    kind = .standardCommand "if" := by
  cases kind with
  | standardCommand name =>
      have hname : name ∈ Command.optionModifiers := List.contains_iff_mem.mp hmodifier
      have hbranch : name ∈ Command.conditionals := List.contains_iff_mem.mp hopens
      simp only [Command.optionModifiers, Command.conditionals, List.mem_cons, List.not_mem_nil, or_false]
        at hname hbranch
      grind
  | _ => cases hmodifier

/-- What stands in the scope of an entry is inside the entry. -/
theorem mem_below_of_owner {holder inner : TreeEntry} (hholder : holder ∈ phrase.entries none 0)
    (hinner : inner ∈ phrase.entries none 0) (h : owner (phrase.toTree levels source) inner.id = some holder.id) :
    inner ∈ holder.below := by
  obtain ⟨other, hother, hid, _, hbelow⟩ := exists_of_owner hinner h
  rwa [Phrase.entry_eq_of_id_eq hother hholder hid] at hbelow

theorem enclosing_nested (hframed : phrase.Framed) (hsize : phrase.stop ≤ maxOffset) (hfirst : phrase.before = []) :
    (nested (phrase.toTree levels source)).Enclosing := by
  rw [nested_toTree hfirst]
  intro id scope hscope child hchild
  obtain ⟨holder, hholder, rfl⟩ :=
    exists_holder (@walked_entries phrase levels source).nodup (Array.getElem?_eq_some_iff.mp hscope).1
  rw [scope?_layout hholder, Option.some.injEq] at hscope
  subst hscope
  obtain ⟨id, hid, rfl⟩ := List.mem_map.mp (List.mem_toArray.mp hchild)
  obtain ⟨hopened, hsame⟩ := List.mem_filter.mp hid
  obtain ⟨inner, hinner, _, rfl⟩ := mem_openedOf.mp hopened
  refine ⟨_, scope?_layout (some_mem_owners.mpr hopened), ?_⟩
  rw [offset_scopeOf_entry hinner, stop_scopeOf_entry hframed hsize hinner]
  cases holder with
  | none =>
      have hwhole := (hframed.enclosed (Phrase.mem_entries_self none 0 phrase) hinner).2
      refine ⟨Nat.zero_le _, Nat.le_trans (Nat.le_trans hwhole hsize) ?_⟩
      exact Nat.le_min.mpr ⟨Nat.le_add_left _ _, Nat.le_refl _⟩
  | some id =>
      obtain ⟨outer, houter, _, rfl⟩ := mem_openedOf.mp (some_mem_owners.mp hholder)
      have hbelow := mem_below_of_owner houter hinner (of_decide_eq_true hsame)
      rw [offset_scopeOf_entry houter, stop_scopeOf_entry hframed hsize houter]
      exact hframed.enclosed houter (TreeEntry.mem_inside_iff.mpr (.inr hbelow))

/-- Scopes in one scope overlap only if they are conditions of one option. -/
theorem conditionsOverlap {left right : TreeEntry} (hframed : phrase.Framed) (hsize : phrase.stop ≤ maxOffset)
    (hpair : [left, right].Sublist (phrase.entries none 0)) (hleft : left.phrase.kind.opensScope = true)
    (hright : right.phrase.kind.opensScope = true)
    (howner : owner (phrase.toTree levels source) left.id = owner (phrase.toTree levels source) right.id)
    (bound : List (Option Nat × Symbol)) (opened : List Nat) :
    let first := scopeOf (phrase.toTree levels source) opened bound (some left.id)
    let second := scopeOf (phrase.toTree levels source) opened bound (some right.id)
    first.stop ≤ second.offset ∨ (phrase.toTree levels source).ConditionsOverlap first second := by
  have hmem := mem_of_sublist_pair hpair
  intro first second
  have hfirst : first.offset = left.phrase.start ∧ first.stop = left.phrase.stop :=
    ⟨offset_scopeOf_entry hmem.1 _, stop_scopeOf_entry hframed hsize hmem.1 _⟩
  have hsecond : second.offset = right.phrase.start ∧ second.stop = right.phrase.stop :=
    ⟨offset_scopeOf_entry hmem.2 _, stop_scopeOf_entry hframed hsize hmem.2 _⟩
  have hrange : ∀ entry ∈ phrase.entries none 0, ((phrase.toTree levels source).node? entry.id).map
      (fun node => (node.offset, node.stop)) = some (entry.phrase.start, entry.phrase.stop) := by
    intro entry hentry
    rw [node?_toTree levels source hentry, Option.map_some, TreeEntry.node_stop (hframed.fits hentry).ordered]
    rfl
  by_cases hbehind : left.phrase.stop ≤ right.phrase.start
  · left
    rwa [hfirst.2, hsecond.1]
  · right
    cases hframed.placed hpair (isScoped_of_opensScope hleft) (isScoped_of_opensScope hright) with
    | inside hbelow => exact absurd howner.symm (owner_ne_of_mem_below hmem.1 hleft hbelow)
    | behind h => exact absurd h hbehind
    | @modifiers above reuse conditional habove hkind hleftpart hrightpart hsuccessive =>
        have herror : ¬left.phrase.Clean := fun hclean => hbehind (hsuccessive.clean hclean)
        have hchildren := Phrase.children_toTree levels source habove
        have hstop := hsuccessive.stop
        have hreach := hsuccessive.behind
        refine ⟨⟨above.id, reuse, conditional, ?_, left.id, ?_, right.id, ?_, ?_, ?_, ?_, ?_, ?_⟩, ?_, ?_⟩
        · rw [kind?_toTree levels source habove, hkind]
        · rw [hchildren]
          exact List.mem_map_of_mem hleftpart
        · rw [hchildren]
          exact List.mem_map_of_mem hrightpart
        · rw [kind?_toTree levels source hmem.1, isCondition hsuccessive.kinds.1 hleft]
        · rw [kind?_toTree levels source hmem.2, isCondition hsuccessive.kinds.2 hright]
        · rw [hrange left hmem.1, hfirst.1, hfirst.2]
        · rw [hrange right hmem.2, hsecond.1, hsecond.2]
        · exact Phrase.exists_error hframed.laid hmem.1 herror
        · rw [hfirst.2, hsecond.1]
          omega
        · rw [hfirst.2, hsecond.2]
          omega

theorem disjoint_nested (hframed : phrase.Framed) (hsize : phrase.stop ≤ maxOffset) (hfirst : phrase.before = []) :
    (nested (phrase.toTree levels source)).Disjoint (phrase.toTree levels source).ConditionsOverlap := by
  rw [nested_toTree hfirst]
  intro id
  by_cases hid : id < (layout (phrase.toTree levels source) (openedOf (phrase.entries none 0))
      (boundOf (phrase.toTree levels source) (phrase.entries none 0))).size
  · obtain ⟨holder, hholder, rfl⟩ := exists_holder (@walked_entries phrase levels source).nodup hid
    rw [children_layout hholder, List.pairwise_map, List.pairwise_filter, openedOf, List.pairwise_map,
      List.pairwise_filter, List.pairwise_iff_forall_sublist]
    intro left right hpair hleft hright hleftowner hrightowner
    have hmem := mem_of_sublist_pair hpair
    have howner := (of_decide_eq_true hleftowner).trans (of_decide_eq_true hrightowner).symm
    refine ⟨_, _, scope?_layout (mem_owners_entry hmem.1 hleft), scope?_layout (mem_owners_entry hmem.2 hright), ?_,
      conditionsOverlap hframed hsize hpair hleft hright howner _ _⟩
    rw [offset_scopeOf_entry hmem.1, offset_scopeOf_entry hmem.2]
    exact hframed.start_le hpair (isScoped_of_opensScope hleft) (isScoped_of_opensScope hright)
  · rw [ScopeTree.children, ScopeTree.scope?, Array.getElem?_eq_none (Nat.not_lt.mp hid)]
    exact .nil

theorem declares_of_mem_names {entry : TreeEntry} {name : Nat} (hentry : entry ∈ phrase.entries none 0)
    (hname : name ∈ names (phrase.toTree levels source) entry.id) : entry.phrase.kind.declares = true := by
  by_contra hnot
  rw [names_eq_nil hentry (Bool.eq_false_iff.mpr hnot)] at hname
  cases hname

/-- The symbols of a scope stand to each other as the nodes do that declare them. -/
theorem pairwise_symbols_nested {related : Symbol → Symbol → Prop} (hfirst : phrase.before = [])
    (hsame : ∀ entry ∈ phrase.entries none 0, ∀ first second,
      related (symbolOf (phrase.toTree levels source) entry.id first) (symbolOf (phrase.toTree levels source) entry.id second))
    (hpairs : ∀ left right, [left, right].Sublist (phrase.entries none 0) → left.phrase.kind.declares = true →
      right.phrase.kind.declares = true → ∀ first second,
        related (symbolOf (phrase.toTree levels source) left.id first) (symbolOf (phrase.toTree levels source) right.id second))
    (id : Nat) : ((nested (phrase.toTree levels source)).symbols id).toList.Pairwise related := by
  have hbound : (boundOf (phrase.toTree levels source) (phrase.entries none 0)).Pairwise
      fun left right => related left.2 right.2 := by
    rw [boundOf, List.pairwise_flatMap]
    constructor
    · intro entry hentry
      rw [bindings, List.pairwise_map]
      exact List.pairwise_of_forall fun first second => hsame entry hentry first second
    · refine List.pairwise_iff_forall_sublist.mpr fun {left right} hpair first hfirst second hsecond => ?_
      obtain ⟨name, hname, rfl⟩ := List.mem_map.mp hfirst
      obtain ⟨other, hother, rfl⟩ := List.mem_map.mp hsecond
      have hmem := mem_of_sublist_pair hpair
      exact hpairs left right hpair (declares_of_mem_names hmem.1 hname) (declares_of_mem_names hmem.2 hother) name other
  rw [nested_toTree hfirst]
  by_cases hid : id < (layout (phrase.toTree levels source) (openedOf (phrase.entries none 0))
      (boundOf (phrase.toTree levels source) (phrase.entries none 0))).size
  · obtain ⟨holder, hholder, rfl⟩ := exists_holder (@walked_entries phrase levels source).nodup hid
    rw [symbols_layout hholder, List.pairwise_map]
    exact hbound.filter _
  · rw [ScopeTree.symbols, ScopeTree.scope?, Array.getElem?_eq_none (Nat.not_lt.mp hid)]
    exact .nil

theorem declaredInOrder_nested (hframed : phrase.Framed) (hfirst : phrase.before = []) :
    (nested (phrase.toTree levels source)).DeclaredInOrder := by
  have hoffset : ∀ entry ∈ phrase.entries none 0, ∀ name,
      (symbolOf (phrase.toTree levels source) entry.id name).offset = entry.phrase.start :=
    fun entry hentry name => (node_symbolOf (node_eq hentry) name).2
  refine pairwise_symbols_nested hfirst (fun entry hentry first second => ?_)
    fun left right hpair hleft hright first second => ?_
  · rw [hoffset entry hentry, hoffset entry hentry]
  · rw [hoffset left (mem_of_sublist_pair hpair).1, hoffset right (mem_of_sublist_pair hpair).2]
    exact hframed.start_le hpair (isScoped_of_declares hleft) (isScoped_of_declares hright)

end Scope

namespace Scene

theorem framed_phrase (source : Text) (name uri : Option String) : (phrase source name uri).Framed :=
  ⟨phrase_laid source name uri, (phrase_built source name uri).sound.mono fun _ hsound => hsound.parts⟩

/-- Whatever the scene, its scopes follow the nesting of its tree. -/
theorem scoped_parse (source : Text) (name uri : Option String) (levels : Levels)
    (hsize : Text.bytes source ≤ maxOffset) : (Scene.parse source name uri levels).Scoped := by
  have hframed := framed_phrase source name uri
  rw [← (phrase_range source name uri).2] at hsize
  exact ⟨Scope.build_toTree hframed hsize rfl, (Phrase.rooted_toTree rfl).walk.2,
    Scope.enclosing_nested hframed hsize rfl, Scope.disjoint_nested hframed hsize rfl,
    Scope.declaredInOrder_nested hframed rfl⟩

theorem scoped_parse_choice :
    Text.bytes "*choice\n  *if a #one\n    *temp x 1\n    *create y x\n".toList ≤ maxOffset ∧
      (Scene.parse "*choice\n  *if a #one\n    *temp x 1\n    *create y x\n".toList none none {}).Scoped :=
  have hsize : Text.bytes "*choice\n  *if a #one\n    *temp x 1\n    *create y x\n".toList ≤ maxOffset := by decide
  ⟨hsize, scoped_parse _ none none {} hsize⟩

/-- The conditions of an option overlap where the first one lacks an operand before the second one. -/
theorem conditions_overlap :
    ¬(Scope.build (Scene.parse "*if a and *if b #go\n".toList none none {})).2.Disjoint fun _ _ => False := by
  intro h
  have hchildren : ((Scope.build (Scene.parse "*if a and *if b #go\n".toList none none {})).2.children 1).toList =
      [2, 3] := by decide +kernel
  have hfirst : ((Scope.build (Scene.parse "*if a and *if b #go\n".toList none none {})).2.scope? 2).map
      (·.stop) = some 11 := by decide +kernel
  have hsecond : ((Scope.build (Scene.parse "*if a and *if b #go\n".toList none none {})).2.scope? 3).map
      (·.offset) = some 10 := by decide +kernel
  have hpairs := h 1
  rw [hchildren] at hpairs
  obtain ⟨first, second, hleft, hright, _, happart⟩ := (List.pairwise_cons.mp hpairs).1 3 List.mem_cons_self
  rw [hleft, Option.map_some, Option.some.injEq] at hfirst
  rw [hright, Option.map_some, Option.some.injEq] at hsecond
  rcases happart with hstop | hnever
  · rw [hfirst, hsecond] at hstop
    exact absurd hstop (by decide)
  · exact hnever

end Scene

end Gamebook
