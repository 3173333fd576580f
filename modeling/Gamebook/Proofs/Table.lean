import Gamebook.Table
import Mathlib.Data.List.Sort
import Mathlib.Data.String.Basic

/-!
Tables that are in order. A table that is only made by insertions and erasures is in order and has no name
twice, so that its entries are what it answers. Two such tables are the same when they answer the same.
-/

namespace Gamebook.Table

variable {table : Table α} {key other : String} {value old : α}

def Ordered (table : Table α) : Prop := table.entries.Pairwise fun left right => left.1 < right.1

theorem ordered_empty : (empty : Table α).Ordered := .nil

theorem insertEntry_insertEntry (entries : List (String × α)) :
    insertEntry key value (insertEntry key value entries) = insertEntry key value entries := by
  induction entries with
  | nil => simp [insertEntry]
  | cons entry more ih =>
      obtain ⟨name, old⟩ := entry
      by_cases hbefore : key < name
      · simp [insertEntry, hbefore]
      · by_cases hsame : key = name
        · simp [insertEntry, hsame]
        · simp [insertEntry, hbefore, hsame, ih]

/-- To insert an entry twice is to insert it once. -/
theorem insert_insert (table : Table α) (key : String) (value : α) :
    (table.insert key value).insert key value = table.insert key value :=
  congrArg Table.mk (insertEntry_insertEntry table.entries)

theorem mem_insertEntry {entries : List (String × α)} {entry : String × α}
    (h : entry ∈ insertEntry key value entries) : entry = (key, value) ∨ entry ∈ entries := by
  induction entries with
  | nil => exact .inl (List.mem_singleton.mp h)
  | cons first more ih =>
      obtain ⟨name, old⟩ := first
      rw [insertEntry] at h
      split at h
      · exact List.mem_cons.mp h
      · split at h
        · exact (List.mem_cons.mp h).imp_right (List.mem_cons_of_mem _)
        · rcases List.mem_cons.mp h with rfl | hmore
          · exact .inr List.mem_cons_self
          · exact (ih hmore).imp_right (List.mem_cons_of_mem _)

theorem Ordered.insert (h : table.Ordered) (key : String) (value : α) : (table.insert key value).Ordered := by
  obtain ⟨entries⟩ := table
  show (insertEntry key value entries).Pairwise _
  induction entries with
  | nil => exact List.pairwise_singleton _ _
  | cons first more ih =>
      obtain ⟨name, old⟩ := first
      obtain ⟨hfirst, hmore⟩ := List.pairwise_cons.mp h
      rw [insertEntry]
      split
      · rename_i hbefore
        exact .cons (List.forall_mem_cons.mpr ⟨hbefore, fun entry hentry => lt_trans hbefore (hfirst entry hentry)⟩) h
      · rename_i hbefore
        split
        · rename_i hsame
          subst hsame
          exact .cons hfirst hmore
        · rename_i hother
          refine .cons (fun entry hentry => ?_) (ih hmore)
          rcases mem_insertEntry hentry with rfl | hold
          · exact lt_of_le_of_ne (not_lt.mp hbefore) (Ne.symm hother)
          · exact hfirst entry hold

theorem Ordered.erase (h : table.Ordered) (key : String) : (table.erase key).Ordered := List.Pairwise.filter _ h

/-- A table in order has the entries that it answers. -/
theorem Ordered.mem_entries_iff (h : table.Ordered) : (key, value) ∈ table.entries ↔ table.get? key = some value := by
  obtain ⟨entries⟩ := table
  simp only [get?]
  induction entries with
  | nil => simp
  | cons first more ih =>
      obtain ⟨name, old⟩ := first
      obtain ⟨hfirst, hmore⟩ := List.pairwise_cons.mp h
      by_cases hsame : key = name
      · subst hsame
        have hfresh : (key, value) ∉ more := fun hmem => lt_irrefl key (hfirst _ hmem)
        simp [hfresh, eq_comm]
      · have happart : (key == name) = false := by simp [hsame]
        rw [List.lookup_cons, happart, ← ih hmore, List.mem_cons, Prod.mk.injEq]
        simp [hsame]

theorem Ordered.mem_values_iff (h : table.Ordered) : value ∈ table.values ↔ ∃ key, table.get? key = some value := by
  rw [values, List.mem_map]
  constructor
  · rintro ⟨⟨key, _⟩, hentry, rfl⟩
    exact ⟨key, h.mem_entries_iff.mp hentry⟩
  · rintro ⟨key, hkey⟩
    exact ⟨(key, value), h.mem_entries_iff.mpr hkey, rfl⟩

/-- What only one value contributes to is what that contributes. -/
theorem Ordered.flatMap_values (h : table.Ordered) (hvalue : table.get? key = some value) {contribute : α → List β}
    (hothers : ∀ other found, other ≠ key → table.get? other = some found → contribute found = []) :
    table.values.flatMap contribute = contribute value := by
  obtain ⟨front, back, hsplit⟩ := List.append_of_mem (h.mem_entries_iff.mpr hvalue)
  have hpairs := h
  rw [Ordered, hsplit] at hpairs
  obtain ⟨_, hbehind, hbefore⟩ := List.pairwise_append.mp hpairs
  have hnone : ∀ entry ∈ front ++ back, contribute entry.2 = [] := by
    intro entry hentry
    have hmem : entry ∈ table.entries := by
      rw [hsplit]
      exact (List.mem_append.mp hentry).elim (List.mem_append_left _) fun hback =>
        List.mem_append_right _ (List.mem_cons_of_mem _ hback)
    refine hothers entry.1 entry.2 ?_ (h.mem_entries_iff.mp hmem)
    rcases List.mem_append.mp hentry with hfront | hback
    · exact (hbefore entry hfront _ List.mem_cons_self).ne
    · exact ((List.pairwise_cons.mp hbehind).1 entry hback).ne'
  obtain ⟨hfront, hback⟩ := List.forall_mem_append.mp hnone
  rw [values, hsplit, List.flatMap_map, List.flatMap_append, List.flatMap_cons, List.flatMap_eq_nil_iff.mpr hfront,
    List.flatMap_eq_nil_iff.mpr hback, List.nil_append, List.append_nil]

/-- Tables in order that answer the same are the same. -/
theorem Ordered.ext {left right : Table α} (hleft : left.Ordered) (hright : right.Ordered)
    (h : ∀ key, left.get? key = right.get? key) : left = right := by
  have hmem : ∀ entry, entry ∈ left.entries ↔ entry ∈ right.entries := by
    rintro ⟨key, value⟩
    rw [hleft.mem_entries_iff, h, hright.mem_entries_iff]
  have hirreflexive : Std.Irrefl fun first second : String × α => first.1 < second.1 := ⟨fun _ => lt_irrefl _⟩
  have hantisymmetric : Std.Antisymm fun first second : String × α => first.1 < second.1 :=
    ⟨fun _ _ hfirst hsecond => absurd hsecond (lt_asymm hfirst)⟩
  exact congrArg Table.mk (List.Pairwise.eq_of_mem_iff hleft hright hmem)

end Gamebook.Table
