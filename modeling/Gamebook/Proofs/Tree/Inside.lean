import Gamebook.Tree.Query
import Gamebook.Proofs.Scene.Cursor

/-!
What is inside what. In the order of a walk all that is inside a node follows the node without a gap; of two
nodes of which neither is inside the other, the first is inside an earlier child of some node and the second
inside a later child of it. Going up from a node leads through the nodes that it is inside of, and the
nearest one of some kind is inside all others of that kind.
-/

namespace Gamebook

namespace TreeEntry

/-- An entry and the entries inside it, parents first. -/
def inside (entry : TreeEntry) : List TreeEntry := entry.phrase.entries entry.parent entry.base

def below (entry : TreeEntry) : List TreeEntry := entry.parts.flatMap inside

theorem entriesOf_eq_flatMap (parent : Option Nat) (base : Nat) (phrases : List Phrase) :
    Phrase.entriesOf parent base phrases = (located parent base phrases).flatMap inside := by
  induction phrases generalizing base with
  | nil =>
      rw [Phrase.entriesOf]
      rfl
  | cons phrase more ih =>
      rw [Phrase.entriesOf, ih, located, List.flatMap_cons]
      rfl

theorem inside_eq (entry : TreeEntry) : entry.inside = entry :: entry.below := by
  rw [inside, Phrase.entries_eq_cons, entriesOf_eq_flatMap, entriesOf_eq_flatMap, below, parts,
    List.flatMap_append]
  rfl

variable {entry inner outer : TreeEntry}

theorem mem_inside_self (entry : TreeEntry) : entry ∈ entry.inside := by
  rw [inside_eq]
  exact List.mem_cons_self

theorem mem_inside_iff : inner ∈ entry.inside ↔ inner = entry ∨ inner ∈ entry.below := by
  rw [inside_eq, List.mem_cons]

theorem mem_below_iff : inner ∈ entry.below ↔ ∃ part ∈ entry.parts, inner ∈ part.inside := List.mem_flatMap

theorem mem_below_of_mem_parts (h : inner ∈ entry.parts) : inner ∈ entry.below :=
  mem_below_iff.mpr ⟨inner, h, mem_inside_self inner⟩

/-- What holds of an entry whenever it holds of its parts holds of every entry. -/
theorem parts_induction {motive : TreeEntry → Prop}
    (h : ∀ entry : TreeEntry, (∀ part ∈ entry.parts, motive part) → motive entry) (entry : TreeEntry) :
    motive entry := by
  induction hcount : entry.phrase.count using Nat.strongRecOn generalizing entry with
  | ind size ih =>
      refine h entry fun part hpart => ih part.phrase.count ?_ part rfl
      rw [← hcount]
      exact Phrase.count_lt_of_mem_parts (phrase_mem_parts hpart)

theorem count_lt_of_mem_below (h : inner ∈ entry.below) : inner.phrase.count < entry.phrase.count := by
  induction entry using parts_induction with
  | h entry ih =>
      obtain ⟨part, hpart, hinner⟩ := mem_below_iff.mp h
      have hlt := Phrase.count_lt_of_mem_parts (phrase_mem_parts hpart)
      rcases mem_inside_iff.mp hinner with rfl | hinner
      · exact hlt
      · exact Nat.lt_trans (ih part hpart hinner) hlt

theorem not_mem_below_self (entry : TreeEntry) : entry ∉ entry.below :=
  fun h => absurd (count_lt_of_mem_below h) (Nat.lt_irrefl _)

theorem not_mem_below_of_mem_below (h : inner ∈ entry.below) : entry ∉ inner.below :=
  fun hback => absurd (count_lt_of_mem_below h) (Nat.lt_asymm (count_lt_of_mem_below hback))

theorem mem_below_of_mem_inside (hinner : inner ∈ entry.inside) (h : entry ∈ outer.below) : inner ∈ outer.below := by
  induction outer using parts_induction with
  | h outer ih =>
      obtain ⟨part, hpart, hentry⟩ := mem_below_iff.mp h
      refine mem_below_iff.mpr ⟨part, hpart, ?_⟩
      rcases mem_inside_iff.mp hentry with rfl | hentry
      · exact hinner
      · exact mem_inside_iff.mpr (.inr (ih part hpart hentry))

theorem inside_subset (h : entry ∈ outer.inside) : entry.inside ⊆ outer.inside := by
  intro inner hinner
  rcases mem_inside_iff.mp h with rfl | h
  · exact hinner
  · exact mem_inside_iff.mpr (.inr (mem_below_of_mem_inside hinner h))

/-- All that is inside an entry stands together. -/
theorem inside_infix (h : inner ∈ entry.inside) : inner.inside <:+: entry.inside := by
  induction entry using parts_induction with
  | h entry ih =>
      rcases mem_inside_iff.mp h with rfl | h
      · exact List.infix_rfl
      · obtain ⟨part, hpart, hinner⟩ := mem_below_iff.mp h
        obtain ⟨left, right, hsplit⟩ := List.append_of_mem hpart
        have hbelow : part.inside <:+: entry.below := by
          rw [below, hsplit, List.flatMap_append, List.flatMap_cons]
          exact ⟨left.flatMap inside, right.flatMap inside, List.append_assoc _ _ _⟩
        rw [inside_eq entry]
        exact (ih part hpart hinner).trans (List.infix_cons hbelow)

theorem nodup_map_id_inside (entry : TreeEntry) : (entry.inside.map id).Nodup :=
  (Phrase.entries_ids_perm entry.parent entry.base entry.phrase).nodup_iff.mpr List.nodup_range'

theorem nodup_inside (entry : TreeEntry) : entry.inside.Nodup := (nodup_map_id_inside entry).of_map

/-- When a walk comes to an entry inside another one, all that it has met since the other one is inside it. -/
theorem exists_split {front back : List TreeEntry} (hsplit : entry.inside = front ++ inner :: back)
    (houter : outer ∈ entry.inside) (hinner : inner ∈ outer.below) :
    ∃ before between, front = before ++ outer :: between ∧ ∀ other ∈ between, other ∈ outer.below := by
  obtain ⟨before, after, hinfix⟩ := inside_infix houter
  obtain ⟨between, rest, hbelow⟩ := List.append_of_mem hinner
  have hnodup := nodup_inside entry
  have hwhole : entry.inside = (before ++ outer :: between) ++ inner :: (rest ++ after) := by
    rw [← hinfix, inside_eq outer, hbelow]
    simp only [List.append_assoc, List.cons_append]
  rw [hsplit] at hwhole hnodup
  have hfresh := List.nodup_append.mp hnodup
  have hfront : inner ∉ front := fun hmem => hfresh.2.2 inner hmem inner List.mem_cons_self rfl
  have hback : inner ∉ back := (List.nodup_cons.mp hfresh.2.1).1
  obtain ⟨heq, _⟩ := (List.append_cons_inj_of_notMem hfront hback).mp hwhole
  refine ⟨before, between, heq, fun other hother => ?_⟩
  rw [hbelow]
  exact List.mem_append_left _ hother

/-- The entries are inside different parts of one entry, the left one in an earlier part. -/
def Beside (all : List TreeEntry) (left right : TreeEntry) : Prop :=
  ∃ above ∈ all, ∃ first second, [first, second].Sublist above.parts ∧ left ∈ first.inside ∧ right ∈ second.inside

theorem Beside.mono {all more : List TreeEntry} {left right : TreeEntry} (h : Beside all left right)
    (hsubset : all ⊆ more) : Beside more left right := by
  obtain ⟨above, habove, hparts⟩ := h
  exact ⟨above, hsubset habove, hparts⟩

/-- Of two entries that a walk comes to, the second is inside the first or beside it. -/
theorem pairwise_inside (entry : TreeEntry) :
    entry.inside.Pairwise fun left right => right ∈ left.below ∨ Beside entry.inside left right := by
  induction entry using parts_induction with
  | h entry ih =>
      have hself : ∀ part ∈ entry.parts, part.inside ⊆ entry.inside :=
        fun part hpart => inside_subset (mem_inside_iff.mpr (.inr (mem_below_of_mem_parts hpart)))
      rw [inside_eq entry]
      refine .cons (fun inner hinner => .inl hinner) (List.pairwise_flatMap.mpr ⟨fun part hpart => ?_, ?_⟩)
      · refine (ih part hpart).imp (Or.imp_right fun hbeside => hbeside.mono ?_)
        rw [← inside_eq]
        exact hself part hpart
      · refine List.pairwise_iff_forall_sublist.mpr fun hsublist left hleft right hright => ?_
        exact .inr ⟨entry, List.mem_cons_self, _, _, hsublist, hleft, hright⟩

/-! ### Numbers of what is beside each other -/

theorem located_apart (parent : Option Nat) (base : Nat) (phrases : List Phrase) :
    (located parent base phrases).Pairwise (fun left right => left.base + left.phrase.count ≤ right.base) ∧
      ∀ entry ∈ located parent base phrases,
        base ≤ entry.base ∧ entry.base + entry.phrase.count ≤ base + Phrase.countAll phrases := by
  induction phrases generalizing base with
  | nil => exact ⟨.nil, List.forall_mem_nil _⟩
  | cons phrase more ih =>
      obtain ⟨hapart, hbounds⟩ := ih (base + phrase.count)
      rw [located, Phrase.countAll]
      refine ⟨.cons (fun right hright => (hbounds right hright).1) hapart, List.forall_mem_cons.mpr ⟨?_, ?_⟩⟩
      · exact ⟨Nat.le_refl _, by dsimp only; omega⟩
      · intro entry hentry
        have := hbounds entry hentry
        omega

/-- The numbers of a part and of all that is inside it are lower than those of the parts behind it. -/
theorem parts_apart (entry : TreeEntry) :
    entry.parts.Pairwise fun left right => left.base + left.phrase.count ≤ right.base := by
  obtain ⟨hbefore, hlow⟩ := located_apart (some entry.id) entry.base entry.phrase.before
  obtain ⟨hafter, hhigh⟩ := located_apart (some entry.id) (entry.id + 1) entry.phrase.after
  refine List.pairwise_append.mpr ⟨hbefore, hafter, fun left hleft right hright => ?_⟩
  have hid : entry.id = entry.base + Phrase.countAll entry.phrase.before := rfl
  have := (hlow left hleft).2
  have := (hhigh right hright).1
  omega

theorem Beside.id_lt {all : List TreeEntry} {left right : TreeEntry} (h : Beside all left right) :
    left.id < right.id := by
  obtain ⟨above, _, first, second, hsublist, hleft, hright⟩ := h
  have hapart := List.pairwise_iff_forall_sublist.mp above.parts_apart hsublist
  have hbelow := (Phrase.entries_id_bounds hleft).2
  have hbehind := (Phrase.entries_id_bounds hright).1
  omega

theorem below_eq_nil (h : entry.phrase.parts = []) : entry.below = [] := by
  rw [← map_phrase_parts, List.map_eq_nil_iff] at h
  rw [below, h, List.flatMap_nil]

/-- Of two entries without parts the one with the lower number comes first. -/
theorem beside_of_id_lt {left right : TreeEntry} (hleft : left ∈ entry.inside) (hright : right ∈ entry.inside)
    (hleaf : left.phrase.parts = []) (hother : right.phrase.parts = []) (hlt : left.id < right.id) :
    Beside entry.inside left right := by
  obtain ⟨i, hi, rfl⟩ := List.getElem_of_mem hleft
  obtain ⟨j, hj, rfl⟩ := List.getElem_of_mem hright
  have hpairs := List.pairwise_iff_getElem.mp entry.pairwise_inside
  have hnone : ∀ {inner leaf : TreeEntry}, leaf.phrase.parts = [] → inner ∉ leaf.below :=
    fun hleaf hinner => List.not_mem_nil (below_eq_nil hleaf ▸ hinner)
  rcases Nat.lt_trichotomy i j with hbefore | rfl | hbehind
  · exact (hpairs i j hi hj hbefore).resolve_left (hnone hleaf)
  · exact absurd hlt (Nat.lt_irrefl _)
  · have hbeside := (hpairs j i hj hi hbehind).resolve_left (hnone hother)
    exact absurd hbeside.id_lt (Nat.lt_asymm hlt)

end TreeEntry

/-! ### Going up -/

namespace Phrase

open TreeEntry (Descent inside below)

variable {levels : Levels} {source : Text} {phrase : Phrase} {above part inner entry : TreeEntry}

theorem ancestors_top (levels : Levels) (source : Text) (phrase : Phrase) :
    (phrase.toTree levels source).ancestors (phrase.idFrom 0) = [] := by
  have h := @ancestors_descent levels source phrase _ _ (.nil ⟨0, none, phrase⟩)
  exact List.reverse_eq_nil_iff.mp (List.append_cancel_right (h.trans (List.nil_append _).symm))

theorem ancestors_part (habove : above ∈ phrase.entries none 0) (hpart : part ∈ above.parts) :
    (phrase.toTree levels source).ancestors part.id =
      above.id :: (phrase.toTree levels source).ancestors above.id := by
  obtain ⟨way, hway⟩ := exists_descent habove
  have hupper := @ancestors_descent levels source phrase _ _ hway
  have hlower := @ancestors_descent levels source phrase _ _ (hway.step hpart)
  rw [List.map_append, ← List.cons_append, ← hupper] at hlower
  have hsame := congrArg List.reverse (List.append_cancel_right hlower)
  rwa [List.reverse_reverse, List.reverse_append, List.reverse_reverse] at hsame

theorem ancestorWhere?_part {test : Kind → Bool} (habove : above ∈ phrase.entries none 0)
    (hpart : part ∈ above.parts) :
    (phrase.toTree levels source).ancestorWhere? part.id test =
      if test above.phrase.kind then some above.id
      else (phrase.toTree levels source).ancestorWhere? above.id test := by
  rw [Tree.ancestorWhere?, ancestors_part habove hpart, List.find?_cons, kind?_toTree levels source habove,
    Option.any_some]
  cases test above.phrase.kind <;> rfl

/-- The nearest ancestor of some kind is an entry of that kind that the entry is inside of. -/
theorem exists_of_ancestorWhere? {test : Kind → Bool} {id : Nat} (hinner : inner ∈ phrase.entries none 0)
    (h : (phrase.toTree levels source).ancestorWhere? inner.id test = some id) :
    ∃ holder ∈ phrase.entries none 0, holder.id = id ∧ test holder.phrase.kind = true ∧ inner ∈ holder.below := by
  refine entries_induction_on (motive := fun inner =>
    (phrase.toTree levels source).ancestorWhere? inner.id test = some id → ∃ holder ∈ phrase.entries none 0,
      holder.id = id ∧ test holder.phrase.kind = true ∧ inner ∈ holder.below) hinner ?_ ?_ h
  · intro hfound
    have htop : TreeEntry.id ⟨0, none, phrase⟩ = phrase.idFrom 0 := rfl
    rw [Tree.ancestorWhere?, htop, ancestors_top] at hfound
    cases hfound
  · intro above habove ih part hpart hfound
    rw [ancestorWhere?_part habove hpart] at hfound
    split at hfound
    · rename_i htest
      exact ⟨above, habove, Option.some.inj hfound, htest, TreeEntry.mem_below_of_mem_parts hpart⟩
    · obtain ⟨holder, hholder, hid, htest, hbelow⟩ := ih hfound
      refine ⟨holder, hholder, hid, htest, ?_⟩
      exact TreeEntry.mem_below_of_mem_inside
        (TreeEntry.mem_inside_iff.mpr (.inr (TreeEntry.mem_below_of_mem_parts hpart))) hbelow

/-- Inside an entry of some kind the nearest ancestor of that kind is the entry or inside it. -/
theorem ancestorWhere?_of_mem_below {test : Kind → Bool} (hentry : entry ∈ phrase.entries none 0)
    (htest : test entry.phrase.kind = true) (hinner : inner ∈ entry.below) :
    ∃ holder ∈ entry.inside, test holder.phrase.kind = true ∧
      (phrase.toTree levels source).ancestorWhere? inner.id test = some holder.id := by
  have hsubset : entry.inside ⊆ phrase.entries none 0 := @TreeEntry.inside_subset _ ⟨0, none, phrase⟩ hentry
  have hmem : inner ∈ entry.phrase.entries entry.parent entry.base := TreeEntry.mem_inside_iff.mpr (.inr hinner)
  have hcases := entries_induction_on (motive := fun inner => inner = entry ∨
    ∃ holder ∈ entry.inside, test holder.phrase.kind = true ∧
      (phrase.toTree levels source).ancestorWhere? inner.id test = some holder.id) hmem (.inl rfl) ?_
  · rcases hcases with rfl | hholder
    · exact absurd hinner (TreeEntry.not_mem_below_self _)
    · exact hholder
  · intro above habove ih part hpart
    right
    rw [ancestorWhere?_part (hsubset habove) hpart]
    split
    · rename_i habovetest
      exact ⟨above, habove, habovetest, rfl⟩
    · rename_i habovetest
      rcases ih with rfl | hholder
      · exact absurd htest habovetest
      · exact hholder

end Phrase

end Gamebook
