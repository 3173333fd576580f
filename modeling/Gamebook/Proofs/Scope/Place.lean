import Gamebook.Proofs.Scope.Layout
import Gamebook.Proofs.Tree.Forest
import Gamebook.Proofs.Tree.Inside

/-!
Where scopes are. Of two nodes that matter to scopes the second is inside the first or begins where the
first has ended, unless both are modifiers of one option. So the search for the scope around a range goes
from each scope that the range is inside of to the next one: no later scope in it has begun.
-/

namespace Gamebook

theorem sublist_of_mem_front {front back : List α} {first second : α} (h : first ∈ front) :
    [first, second].Sublist (front ++ second :: back) :=
  (List.singleton_sublist.mpr h).append (List.singleton_sublist.mpr List.mem_cons_self)

theorem sublist_of_mem_back {front back : List α} {first second : α} (h : second ∈ back) :
    [first, second].Sublist (front ++ first :: back) :=
  (List.cons_sublist_cons.mpr (List.singleton_sublist.mpr h)).trans (List.sublist_append_right _ _)

theorem mem_of_sublist_pair {elements : List α} {first second : α} (h : [first, second].Sublist elements) :
    first ∈ elements ∧ second ∈ elements :=
  ⟨h.subset List.mem_cons_self, h.subset (List.mem_cons_of_mem _ List.mem_cons_self)⟩

/-- Of two elements of a list one comes before the other, if they are not the same. -/
theorem sublist_or_eq_or_sublist {elements : List α} {left right : α} (hleft : left ∈ elements)
    (hright : right ∈ elements) :
    [left, right].Sublist elements ∨ left = right ∨ [right, left].Sublist elements := by
  obtain ⟨front, back, rfl⟩ := List.append_of_mem hright
  rcases List.mem_append.mp hleft with hfront | hback
  · exact .inl (sublist_of_mem_front hfront)
  · rcases List.mem_cons.mp hback with rfl | hback
    · exact .inr (.inl rfl)
    · exact .inr (.inr (sublist_of_mem_back hback))

namespace Phrase

/-- The phrase is laid out well, and in it every phrase encloses its parts. -/
structure Framed (phrase : Phrase) : Prop where
  laid : phrase.Laid
  enclosing : phrase.Everywhere fun outer => ∀ part ∈ outer.parts, outer.start ≤ part.start ∧ part.stop ≤ outer.stop

/-- How two phrases in which scopes matter stand to each other, the first being met first. -/
inductive Placed (all : List TreeEntry) (left right : TreeEntry) : Prop
  | inside (h : right ∈ left.below)
  | behind (h : left.phrase.stop ≤ right.phrase.start)
  | modifiers {above : TreeEntry} {reuse : Option Reuse} {conditional : Bool} (habove : above ∈ all)
      (hkind : above.phrase.kind = .choiceOption reuse conditional) (hleft : left ∈ above.parts)
      (hright : right ∈ above.parts) (h : left.phrase.Successive right.phrase)

variable {phrase : Phrase} {levels : Levels} {source : Text} {entry inner outer left right : TreeEntry}

theorem sublist_inside (h : entry ∈ phrase.entries none 0) : entry.inside ⊆ phrase.entries none 0 :=
  @TreeEntry.inside_subset _ ⟨0, none, phrase⟩ h

namespace Framed

theorem fits (h : phrase.Framed) (hentry : entry ∈ phrase.entries none 0) : entry.phrase.Fits := h.laid.entry hentry

theorem filled (h : phrase.Framed) (hentry : entry ∈ phrase.entries none 0) (hscoped : entry.phrase.kind.isScoped = true) :
    entry.phrase.start < entry.phrase.stop := (h.fits hentry).filled (.inr hscoped)

theorem enclosed (h : phrase.Framed) (houter : outer ∈ phrase.entries none 0) (hinner : inner ∈ outer.inside) :
    outer.phrase.start ≤ inner.phrase.start ∧ inner.phrase.stop ≤ outer.phrase.stop := by
  refine entries_induction_on (motive := fun inner => outer.phrase.start ≤ inner.phrase.start ∧
    inner.phrase.stop ≤ outer.phrase.stop) hinner ⟨Nat.le_refl _, Nat.le_refl _⟩ ?_
  intro above habove ih part hpart
  have hpart := h.enclosing.entry (sublist_inside houter habove) _ (TreeEntry.phrase_mem_parts hpart)
  exact ⟨Nat.le_trans ih.1 hpart.1, Nat.le_trans hpart.2 ih.2⟩

theorem not_scoped_of_plain {first : TreeEntry} (hplain : first.phrase.Plain) (hentry : entry ∈ first.inside) :
    entry.phrase.kind.isScoped = false := Everywhere.entry hplain hentry

/-- Nothing in a modifier of an option matters to scopes. -/
theorem eq_of_plain_parts {first : TreeEntry} (hplain : ∀ part ∈ first.phrase.parts, part.Plain)
    (hentry : entry ∈ first.inside) (hscoped : entry.phrase.kind.isScoped = true) : entry = first := by
  rcases TreeEntry.mem_inside_iff.mp hentry with rfl | hbelow
  · rfl
  · obtain ⟨part, hpart, hinside⟩ := TreeEntry.mem_below_iff.mp hbelow
    rw [not_scoped_of_plain (hplain _ (TreeEntry.phrase_mem_parts hpart)) hinside] at hscoped
    cases hscoped

theorem placed (h : phrase.Framed) (hpair : [left, right].Sublist (phrase.entries none 0))
    (hleft : left.phrase.kind.isScoped = true) (hright : right.phrase.kind.isScoped = true) :
    Placed (phrase.entries none 0) left right := by
  have hpairs := TreeEntry.pairwise_inside ⟨0, none, phrase⟩
  rcases List.pairwise_iff_forall_sublist.mp hpairs hpair with hbelow | ⟨above, habove, first, second, hparts, hfirst, hsecond⟩
  · exact .inside hbelow
  · have hmem : first ∈ above.parts ∧ second ∈ above.parts := mem_of_sublist_pair hparts
    have hentries := parts_subset_entries none 0 phrase above habove
    have hbelow := h.enclosed (hentries hmem.1) hfirst
    have habut := h.enclosed (hentries hmem.2) hsecond
    have hphrases : [first.phrase, second.phrase].Sublist above.phrase.parts := by
      rw [← TreeEntry.map_phrase_parts]
      exact hparts.map TreeEntry.phrase
    cases List.pairwise_iff_forall_sublist.mp (h.fits habove).apart hphrases with
    | behind hbehind => exact .behind (Nat.le_trans hbelow.2 (Nat.le_trans hbehind habut.1))
    | left hplain => exact absurd ((not_scoped_of_plain hplain hfirst).symm.trans hleft) Bool.false_ne_true
    | right hplain => exact absurd ((not_scoped_of_plain hplain hsecond).symm.trans hright) Bool.false_ne_true
    | modifiers hkind hsuccessive =>
        obtain rfl := eq_of_plain_parts hsuccessive.plain.1 hfirst hleft
        obtain rfl := eq_of_plain_parts hsuccessive.plain.2 hsecond hright
        exact .modifiers habove hkind hmem.1 hmem.2 hsuccessive

/-- Nodes that matter to scopes begin in the order of a walk. -/
theorem start_le (h : phrase.Framed) (hpair : [left, right].Sublist (phrase.entries none 0))
    (hleft : left.phrase.kind.isScoped = true) (hright : right.phrase.kind.isScoped = true) :
    left.phrase.start ≤ right.phrase.start := by
  have hmem := (mem_of_sublist_pair hpair).1
  cases h.placed hpair hleft hright with
  | inside hbelow => exact (h.enclosed hmem (TreeEntry.mem_inside_iff.mpr (.inr hbelow))).1
  | behind hbehind => exact Nat.le_trans (h.fits hmem).ordered hbehind
  | modifiers _ _ _ _ hsuccessive => exact hsuccessive.start

end Framed

end Phrase

namespace Scope

open Phrase (entry_eq_of_id_eq ancestorWhere?_part exists_of_ancestorWhere? ancestorWhere?_of_mem_below)

def openedOf (entries : List TreeEntry) : List Nat :=
  (entries.filter fun entry => entry.phrase.kind.opensScope).map TreeEntry.id

theorem openedOf_append (left right : List TreeEntry) : openedOf (left ++ right) = openedOf left ++ openedOf right := by
  rw [openedOf, List.filter_append, List.map_append, openedOf, openedOf]

theorem openedOf_cons (entry : TreeEntry) (more : List TreeEntry) :
    openedOf (entry :: more) = if entry.phrase.kind.opensScope then entry.id :: openedOf more else openedOf more := by
  rw [openedOf, List.filter_cons]
  split <;> rfl

theorem mem_openedOf {entries : List TreeEntry} {id : Nat} :
    id ∈ openedOf entries ↔ ∃ entry ∈ entries, entry.phrase.kind.opensScope = true ∧ entry.id = id := by
  simp only [openedOf, List.mem_map, List.mem_filter, and_assoc]

theorem isScoped_of_opensScope {kind : Kind} (h : kind.opensScope = true) : kind.isScoped = true := by
  rw [Kind.isScoped, h, Bool.true_or]

theorem isScoped_of_declares {kind : Kind} (h : kind.declares = true) : kind.isScoped = true := by
  rw [Kind.isScoped, h, Bool.or_true]

section

variable {phrase : Phrase} {levels : Levels} {source : Text} {entry inner outer child : TreeEntry}
  {front back : List TreeEntry} {bound : List (Option Nat × Symbol)} {offset length : Nat}

/-- The owner of an entry is another entry that opens a scope and that the entry is inside of. -/
theorem exists_of_owner {id : Nat} (hinner : inner ∈ phrase.entries none 0)
    (h : owner (phrase.toTree levels source) inner.id = some id) :
    ∃ holder ∈ phrase.entries none 0, holder.id = id ∧ holder.phrase.kind.opensScope = true ∧ inner ∈ holder.below :=
  exists_of_ancestorWhere? hinner h

theorem owner_of_mem_below (houter : outer ∈ phrase.entries none 0) (hopens : outer.phrase.kind.opensScope = true)
    (hinner : inner ∈ outer.below) : ∃ holder ∈ outer.inside, holder.phrase.kind.opensScope = true ∧
      owner (phrase.toTree levels source) inner.id = some holder.id :=
  ancestorWhere?_of_mem_below houter hopens hinner

/-- What is inside an entry that opens a scope does not stand in the scope that the entry stands in. -/
theorem owner_ne_of_mem_below (houter : outer ∈ phrase.entries none 0)
    (hopens : outer.phrase.kind.opensScope = true) (hinner : inner ∈ outer.below) :
    owner (phrase.toTree levels source) inner.id ≠ owner (phrase.toTree levels source) outer.id := by
  intro hsame
  obtain ⟨holder, hholder, _, hid⟩ := @owner_of_mem_below phrase levels source inner outer houter hopens hinner
  obtain ⟨other, hother, hsameid, _, hbelow⟩ := exists_of_owner houter (hsame.symm.trans hid)
  obtain rfl := entry_eq_of_id_eq hother (Phrase.sublist_inside houter hholder) hsameid
  rcases TreeEntry.mem_inside_iff.mp hholder with rfl | hholder
  · exact TreeEntry.not_mem_below_self _ hbelow
  · exact TreeEntry.not_mem_below_of_mem_below hholder hbelow

/-! ### The scopes met so far -/

theorem owner_mem_owners (hsplit : phrase.entries none 0 = front ++ inner :: back) :
    owner (phrase.toTree levels source) inner.id ∈ owners (openedOf front) := by
  have hinner : inner ∈ phrase.entries none 0 := hsplit ▸ List.mem_append_right _ List.mem_cons_self
  rw [mem_owners]
  intro id hid
  obtain ⟨holder, hholder, rfl, hopens, hbelow⟩ := exists_of_owner hinner hid
  obtain ⟨before, between, rfl, _⟩ := @TreeEntry.exists_split ⟨0, none, phrase⟩ _ _ _ _ hsplit hholder hbelow
  exact mem_openedOf.mpr ⟨holder, List.mem_append_right _ List.mem_cons_self, hopens, rfl⟩

theorem nodup_openedOf (hsplit : phrase.entries none 0 = front ++ back) : (openedOf front).Nodup := by
  have hnodup := TreeEntry.nodup_map_id_inside ⟨0, none, phrase⟩
  have hsublist : (openedOf front).Sublist ((phrase.entries none 0).map TreeEntry.id) := by
    rw [hsplit]
    exact (List.filter_sublist.trans (List.sublist_append_left _ _)).map _
  exact hnodup.sublist hsublist

theorem walked_openedOf (hsplit : phrase.entries none 0 = front ++ back) :
    Walked (phrase.toTree levels source) (openedOf front) := by
  refine ⟨nodup_openedOf hsplit, fun lower id higher hopened => ?_⟩
  obtain ⟨first, second, hfilter, rfl, hsecond⟩ := List.map_eq_append_iff.mp hopened
  obtain ⟨entry, more, rfl, rfl, _⟩ := List.map_eq_cons_iff.mp hsecond
  obtain ⟨before, after, rfl, hfirst, hafter⟩ := List.filter_eq_append_iff.mp hfilter
  obtain ⟨between, rest, rfl, hbetween, _⟩ := List.filter_eq_cons_iff.mp hafter
  have howner := @owner_mem_owners phrase levels source entry (before ++ between) (rest ++ back)
    (by rw [hsplit]; simp)
  have hnone : openedOf between = [] := by
    rw [openedOf, List.map_eq_nil_iff, List.filter_eq_nil_iff]
    exact fun other hother => hbetween other hother
  rwa [openedOf_append, hnone, List.append_nil, openedOf, hfirst] at howner

theorem walked_entries : Walked (phrase.toTree levels source) (openedOf (phrase.entries none 0)) :=
  walked_openedOf (List.append_nil _).symm

theorem mem_entries_of_split (hsplit : phrase.entries none 0 = front ++ back) (hentry : entry ∈ front) :
    entry ∈ phrase.entries none 0 := hsplit ▸ List.mem_append_left _ hentry

/-! ### The scope of an entry -/

theorem mem_owners_entry (hchild : child ∈ front) (hopens : child.phrase.kind.opensScope = true) :
    some child.id ∈ owners (openedOf front) := some_mem_owners.mpr (mem_openedOf.mpr ⟨child, hchild, hopens, rfl⟩)

theorem offset_scopeOf_entry (hchild : child ∈ phrase.entries none 0) (opened : List Nat) :
    (scopeOf (phrase.toTree levels source) opened bound (some child.id)).offset = child.phrase.start := by
  simp only [scopeOf, Option.bind_some, Phrase.node?_toTree levels source hchild]
  rfl

theorem stop_scopeOf_entry (hframed : phrase.Framed) (hsize : phrase.stop ≤ maxOffset)
    (hchild : child ∈ phrase.entries none 0) (opened : List Nat) :
    (scopeOf (phrase.toTree levels source) opened bound (some child.id)).stop = child.phrase.stop := by
  have hlength : (scopeOf (phrase.toTree levels source) opened bound (some child.id)).length =
      child.phrase.stop - child.phrase.start := by
    simp only [scopeOf, Option.bind_some, Phrase.node?_toTree levels source hchild]
    rfl
  have hwhole := (hframed.enclosed (Phrase.mem_entries_self none 0 phrase) hchild).2
  rw [Scope.stop, offset_scopeOf_entry hchild, hlength, offsetAdd,
    Nat.add_sub_cancel' (hframed.fits hchild).ordered, Nat.min_eq_left (Nat.le_trans hwhole hsize)]

theorem started_entry (hsplit : phrase.entries none 0 = front ++ back) (hchild : child ∈ front)
    (hopens : child.phrase.kind.opensScope = true) :
    (layout (phrase.toTree levels source) (openedOf front) bound).started offset
      (number (openedOf front) (some child.id)) = decide (child.phrase.start ≤ offset) := by
  rw [ScopeTree.started, scope?_layout (mem_owners_entry hchild hopens), Option.any_some,
    offset_scopeOf_entry (mem_entries_of_split hsplit hchild)]

theorem holds_entry (hframed : phrase.Framed) (hsize : phrase.stop ≤ maxOffset)
    (hsplit : phrase.entries none 0 = front ++ back) (hchild : child ∈ front)
    (hopens : child.phrase.kind.opensScope = true) :
    (layout (phrase.toTree levels source) (openedOf front) bound).holds offset length
        (number (openedOf front) (some child.id)) = true ↔
      child.phrase.start ≤ offset ∧ offset < child.phrase.stop ∧ offsetAdd offset length ≤ child.phrase.stop := by
  have hentry := mem_entries_of_split hsplit hchild
  rw [ScopeTree.holds, scope?_layout (mem_owners_entry hchild hopens), Option.any_some, Scope.contains,
    offset_scopeOf_entry hentry, stop_scopeOf_entry hframed hsize hentry,
    Bool.and_eq_true, Bool.and_eq_true, decide_eq_true_eq, decide_eq_true_eq, decide_eq_true_eq, and_assoc]

/-! ### The search -/

/-- The search goes on to an entry that holds the range if no later one in the same scope has started. -/
theorem childAt?_entry {before after : List TreeEntry} (hframed : phrase.Framed) (hsize : phrase.stop ≤ maxOffset)
    (hsplit : phrase.entries none 0 = (before ++ child :: after) ++ back)
    (hopens : child.phrase.kind.opensScope = true) (hstart : child.phrase.start ≤ offset)
    (hstop : offset < child.phrase.stop) (hrange : offsetAdd offset length ≤ child.phrase.stop)
    (hafter : ∀ other ∈ after, other.phrase.kind.opensScope = true →
      owner (phrase.toTree levels source) other.id = owner (phrase.toTree levels source) child.id →
        offset < other.phrase.start) :
    (layout (phrase.toTree levels source) (openedOf (before ++ child :: after)) bound).childAt?
        (number (openedOf (before ++ child :: after)) (owner (phrase.toTree levels source) child.id)) offset length =
      some (number (openedOf (before ++ child :: after)) (some child.id)) := by
  have hmem : child ∈ before ++ child :: after := List.mem_append_right _ List.mem_cons_self
  have howner : owner (phrase.toTree levels source) child.id ∈ owners (openedOf (before ++ child :: after)) :=
    (walked_openedOf hsplit).closed _ (mem_openedOf.mpr ⟨child, hmem, hopens, rfl⟩)
  have hopened : (openedOf (before ++ child :: after)).filter
      (owner (phrase.toTree levels source) · = owner (phrase.toTree levels source) child.id) =
        (openedOf before).filter
            (owner (phrase.toTree levels source) · = owner (phrase.toTree levels source) child.id) ++
          child.id :: (openedOf after).filter
            (owner (phrase.toTree levels source) · = owner (phrase.toTree levels source) child.id) := by
    rw [openedOf_append, openedOf_cons, if_pos hopens, List.filter_append, List.filter_cons_of_pos (by simp)]
  have hchildren := @children_layout (phrase.toTree levels source) _ bound _ howner
  rw [hopened, List.map_append, List.map_cons] at hchildren
  refine ScopeTree.childAt?_eq hchildren ?_ ?_ ?_ ?_
  · intro other hother
    obtain ⟨id, hid, rfl⟩ := List.mem_map.mp hother
    obtain ⟨sibling, hsibling, hsopens, rfl⟩ := mem_openedOf.mp (List.mem_filter.mp hid).1
    have hpair : [sibling, child].Sublist (phrase.entries none 0) := by
      rw [hsplit]
      exact (sublist_of_mem_front hsibling).trans (List.sublist_append_left _ _)
    have hle := hframed.start_le hpair (isScoped_of_opensScope hsopens) (isScoped_of_opensScope hopens)
    rw [started_entry hsplit (List.mem_append_left _ hsibling) hsopens]
    exact decide_eq_true (Nat.le_trans hle hstart)
  · rw [started_entry hsplit hmem hopens]
    exact decide_eq_true hstart
  · intro other hother
    obtain ⟨id, hid, rfl⟩ := List.mem_map.mp hother
    obtain ⟨hid, hsame⟩ := List.mem_filter.mp hid
    obtain ⟨sibling, hsibling, hsopens, rfl⟩ := mem_openedOf.mp hid
    rw [started_entry hsplit (List.mem_append_right _ (List.mem_cons_of_mem _ hsibling)) hsopens]
    exact decide_eq_false (Nat.not_le.mpr (hafter sibling hsibling hsopens (of_decide_eq_true hsame)))
  · exact (holds_entry hframed hsize hsplit hmem hopens).mpr ⟨hstart, hstop, hrange⟩

/-- When the search goes on to each scope that an entry is inside of, it leads to the scope of the entry. -/
theorem leadsTo_owner {scopes : ScopeTree} {opened : List Nat} (hinner : inner ∈ phrase.entries none 0)
    (hstep : ∀ outer ∈ phrase.entries none 0, outer.phrase.kind.opensScope = true → inner ∈ outer.below →
      scopes.childAt? (number opened (owner (phrase.toTree levels source) outer.id)) offset length =
        some (number opened (some outer.id))) :
    scopes.LeadsTo offset length ScopeTree.root
      (number opened (owner (phrase.toTree levels source) inner.id)) := by
  refine Phrase.entries_induction_on (motive := fun above => inner ∈ above.inside →
    scopes.LeadsTo offset length ScopeTree.root
      (number opened (owner (phrase.toTree levels source) above.id))) hinner ?_ ?_ (TreeEntry.mem_inside_self inner)
  · intro _
    have htop : TreeEntry.id ⟨0, none, phrase⟩ = phrase.idFrom 0 := rfl
    rw [owner, Tree.ancestorWhere?, htop, Phrase.ancestors_top, List.find?_nil, number_none]
    exact .refl
  · intro above habove ih part hpart hinside
    have hbelow : inner ∈ above.below := TreeEntry.mem_below_of_mem_inside hinside (TreeEntry.mem_below_of_mem_parts hpart)
    have hleads := ih (TreeEntry.mem_inside_iff.mpr (.inr hbelow))
    rw [owner, ancestorWhere?_part habove hpart]
    split
    · rename_i hopens
      exact hleads.tail (hstep above habove hopens hbelow)
    · exact hleads

/-- The search for a node that is just met finds the scope that it stands in. -/
theorem find_owner (hframed : phrase.Framed) (hsize : phrase.stop ≤ maxOffset)
    (hsplit : phrase.entries none 0 = front ++ inner :: back) (hscoped : inner.phrase.kind.isScoped = true) :
    (layout (phrase.toTree levels source) (openedOf front) bound).find inner.phrase.start
        (inner.phrase.stop - inner.phrase.start) =
      number (openedOf front) (owner (phrase.toTree levels source) inner.id) := by
  have hinner : inner ∈ phrase.entries none 0 := hsplit ▸ List.mem_append_right _ List.mem_cons_self
  have hfilled := hframed.filled hinner hscoped
  have hinnersize : inner.phrase.stop ≤ maxOffset :=
    Nat.le_trans (hframed.enclosed (Phrase.mem_entries_self none 0 phrase) hinner).2 hsize
  have hreach : offsetAdd inner.phrase.start (inner.phrase.stop - inner.phrase.start) = inner.phrase.stop := by
    rw [offsetAdd, Nat.add_sub_cancel' (Nat.le_of_lt hfilled), Nat.min_eq_left hinnersize]
  have howner := @owner_mem_owners phrase levels source inner front back hsplit
  refine (walked_openedOf hsplit).linked.find_eq (leadsTo_owner hinner ?_) (ScopeTree.childAt?_eq_none ?_)
  · intro outer houter hopens hbelow
    -- all scopes that were met since are inside this one
    obtain ⟨before, between, rfl, hbetween⟩ := @TreeEntry.exists_split ⟨0, none, phrase⟩ _ _ _ _ hsplit houter hbelow
    have henclosed := hframed.enclosed houter (TreeEntry.mem_inside_iff.mpr (.inr hbelow))
    refine childAt?_entry hframed hsize hsplit hopens henclosed.1 (Nat.lt_of_lt_of_le hfilled henclosed.2) ?_ ?_
    · rw [hreach]
      exact henclosed.2
    · intro other hother _ hsame
      exact absurd hsame (owner_ne_of_mem_below houter hopens (hbetween other hother))
  · intro id hid
    rw [← Array.mem_toList_iff, children_layout howner] at hid
    obtain ⟨child, hchild, rfl⟩ := List.mem_map.mp hid
    obtain ⟨hmem, hsame⟩ := List.mem_filter.mp hchild
    obtain ⟨sibling, hsibling, hopens, rfl⟩ := mem_openedOf.mp hmem
    have hpair : [sibling, inner].Sublist (phrase.entries none 0) := hsplit ▸ sublist_of_mem_front hsibling
    rw [Bool.eq_false_iff]
    intro hholds
    obtain ⟨_, hstop, hrange⟩ := (holds_entry hframed hsize hsplit hsibling hopens).mp hholds
    rw [hreach] at hrange
    cases hframed.placed hpair (isScoped_of_opensScope hopens) hscoped with
    | inside hbelow =>
        exact owner_ne_of_mem_below (mem_entries_of_split hsplit hsibling) hopens hbelow (of_decide_eq_true hsame).symm
    | behind hbehind => exact absurd hstop (Nat.not_lt.mpr hbehind)
    | modifiers _ _ _ _ hsuccessive =>
        have := hsuccessive.stop
        have := hsuccessive.behind
        omega

end

end Scope

end Gamebook
