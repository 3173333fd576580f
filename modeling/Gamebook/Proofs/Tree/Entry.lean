import Gamebook.Tree.Walk
import Gamebook.Proofs.Phrase.Built
import Mathlib.Data.List.Nodup

/-!
The nodes of a phrase. A phrase gets one node for each phrase inside it; an entry tells which phrase a
node stands for, where its numbers begin and which node is its parent. The entries of a phrase are
listed parents first, which is the order of a walk over its tree, and their numbers are those of all
the nodes.
-/

namespace Gamebook

/-- A node of a tree by the phrase that it stands for, the number of the first phrase begun in it, and
the number of its parent. -/
structure TreeEntry where
  base : Nat
  parent : Option Nat
  phrase : Phrase

namespace TreeEntry

def id (entry : TreeEntry) : Nat := entry.phrase.idFrom entry.base

/-- The entries of phrases that follow each other, without what is inside them. -/
def located (parent : Option Nat) (base : Nat) : List Phrase → List TreeEntry
  | [] => []
  | phrase :: more => ⟨base, parent, phrase⟩ :: located parent (base + phrase.count) more

def parts (entry : TreeEntry) : List TreeEntry :=
  located (some entry.id) entry.base entry.phrase.before ++
    located (some entry.id) (entry.id + 1) entry.phrase.after

def node (levels : Levels) (entry : TreeEntry) : Node where
  kind := entry.phrase.kind
  offset := entry.phrase.start
  length := entry.phrase.stop - entry.phrase.start
  parent := entry.parent
  children := entry.parts.map id
  issues := entry.phrase.issues.filterMap (·.marker? levels entry.id)

theorem map_id_located (parent : Option Nat) (base : Nat) (phrases : List Phrase) :
    (located parent base phrases).map id = Phrase.idsFrom base phrases := by
  induction phrases generalizing base with
  | nil => rfl
  | cons phrase more ih =>
      rw [located, List.map_cons, ih, Phrase.idsFrom]
      rfl

theorem map_phrase_located (parent : Option Nat) (base : Nat) (phrases : List Phrase) :
    (located parent base phrases).map phrase = phrases := by
  induction phrases generalizing base with
  | nil => rfl
  | cons phrase more ih => rw [located, List.map_cons, ih]

theorem located_append (parent : Option Nat) (base : Nat) (left right : List Phrase) :
    located parent base (left ++ right) =
      located parent base left ++ located parent (base + Phrase.countAll left) right := by
  induction left generalizing base with
  | nil => rfl
  | cons phrase more ih =>
      rw [List.cons_append, located, ih, located, Phrase.countAll, List.cons_append, Nat.add_assoc]

theorem parent_of_mem_located {parent : Option Nat} {base : Nat} {phrases : List Phrase} {entry : TreeEntry}
    (h : entry ∈ located parent base phrases) : entry.parent = parent := by
  induction phrases generalizing base with
  | nil => cases h
  | cons phrase more ih =>
      rcases List.mem_cons.mp h with rfl | h
      · rfl
      · exact ih h

theorem map_phrase_parts (entry : TreeEntry) : entry.parts.map phrase = entry.phrase.parts := by
  rw [parts, List.map_append, map_phrase_located, map_phrase_located, Phrase.parts]

theorem phrase_mem_parts {entry part : TreeEntry} (h : part ∈ entry.parts) :
    part.phrase ∈ entry.phrase.parts := by
  rw [← map_phrase_parts]
  exact List.mem_map_of_mem h

theorem parent_of_mem_parts {entry part : TreeEntry} (h : part ∈ entry.parts) :
    part.parent = some entry.id := by
  rcases List.mem_append.mp h with h | h
  · exact parent_of_mem_located h
  · exact parent_of_mem_located h

end TreeEntry

namespace Phrase

open TreeEntry (located)

theorem count_eq (phrase : Phrase) :
    phrase.count = countAll phrase.before + 1 + countAll phrase.after := by
  cases phrase
  rw [count]

mutual

/-- The entries of a phrase, parents first, where the first phrase begun in it has number `base`. -/
def entries (parent : Option Nat) (base : Nat) : Phrase → List TreeEntry
  | ⟨kind, start, stop, issues, before, after⟩ =>
    let id := base + countAll before
    ⟨base, parent, ⟨kind, start, stop, issues, before, after⟩⟩ ::
      (entriesOf (some id) base before ++ entriesOf (some id) (id + 1) after)

def entriesOf (parent : Option Nat) (base : Nat) : List Phrase → List TreeEntry
  | [] => []
  | phrase :: more => entries parent base phrase ++ entriesOf parent (base + count phrase) more

end

theorem entries_eq_cons (parent : Option Nat) (base : Nat) (phrase : Phrase) :
    phrase.entries parent base = ⟨base, parent, phrase⟩ ::
      (entriesOf (some (phrase.idFrom base)) base phrase.before ++
        entriesOf (some (phrase.idFrom base)) (phrase.idFrom base + 1) phrase.after) := by
  cases phrase
  rw [entries]
  rfl

theorem mem_entries_self (parent : Option Nat) (base : Nat) (phrase : Phrase) :
    ⟨base, parent, phrase⟩ ∈ phrase.entries parent base := by
  rw [entries_eq_cons]
  exact List.mem_cons_self

theorem entriesOf_append (parent : Option Nat) (base : Nat) (left right : List Phrase) :
    entriesOf parent base (left ++ right) =
      entriesOf parent base left ++ entriesOf parent (base + countAll left) right := by
  induction left generalizing base with
  | nil => rfl
  | cons phrase more ih =>
      rw [List.cons_append, entriesOf, ih, entriesOf, countAll, List.append_assoc, Nat.add_assoc]

theorem mem_entriesOf_of_located {parent : Option Nat} {base : Nat} {phrases : List Phrase}
    {entry : TreeEntry} (h : entry ∈ located parent base phrases) :
    entry ∈ entriesOf parent base phrases := by
  induction phrases generalizing base with
  | nil => cases h
  | cons phrase more ih =>
      rw [entriesOf]
      rcases List.mem_cons.mp h with rfl | h
      · exact List.mem_append_left _ (mem_entries_self parent base phrase)
      · exact List.mem_append_right _ (ih h)

/-! ### Numbers -/

mutual

/-- The numbers of the entries are consecutive, in some order. -/
theorem entries_ids_perm (parent : Option Nat) (base : Nat) : (phrase : Phrase) →
    ((phrase.entries parent base).map TreeEntry.id).Perm (List.range' base phrase.count)
  | ⟨kind, start, stop, issues, before, after⟩ => by
      have hbefore := entriesOf_ids_perm (some (base + countAll before)) base before
      have hafter := entriesOf_ids_perm (some (base + countAll before)) (base + countAll before + 1) after
      have hrange : List.range' base (countAll before + 1 + countAll after) =
          List.range' base (countAll before) ++ (base + countAll before) ::
            List.range' (base + countAll before + 1) (countAll after) := by
        rw [Nat.add_assoc, ← List.range'_append_1, Nat.add_comm 1, List.range'_succ]
      rw [entries, count, List.map_cons, List.map_append, hrange]
      exact (List.Perm.cons _ (hbefore.append hafter)).trans List.perm_middle.symm

theorem entriesOf_ids_perm (parent : Option Nat) (base : Nat) : (phrases : List Phrase) →
    ((entriesOf parent base phrases).map TreeEntry.id).Perm (List.range' base (countAll phrases))
  | [] => by rw [entriesOf, countAll]; rfl
  | phrase :: more => by
      rw [entriesOf, countAll, List.map_append, ← List.range'_append_1]
      exact (entries_ids_perm parent base phrase).append
        (entriesOf_ids_perm parent (base + count phrase) more)

end

theorem entries_id_bounds {parent : Option Nat} {base : Nat} {phrase : Phrase} {entry : TreeEntry}
    (h : entry ∈ phrase.entries parent base) : base ≤ entry.id ∧ entry.id < base + phrase.count := by
  have hmem := (entries_ids_perm parent base phrase).mem_iff.mp (List.mem_map_of_mem h)
  exact List.mem_range'_1.mp hmem

theorem entry_eq_of_id_eq {parent : Option Nat} {base : Nat} {phrase : Phrase} {left right : TreeEntry}
    (hleft : left ∈ phrase.entries parent base) (hright : right ∈ phrase.entries parent base)
    (hid : left.id = right.id) : left = right := by
  have hnodup : ((phrase.entries parent base).map TreeEntry.id).Nodup :=
    (entries_ids_perm parent base phrase).nodup_iff.mpr List.nodup_range'
  exact List.inj_on_of_nodup_map hnodup hleft hright hid

theorem exists_entry (parent : Option Nat) {base id : Nat} {phrase : Phrase} (hlow : base ≤ id)
    (hhigh : id < base + phrase.count) : ∃ entry ∈ phrase.entries parent base, entry.id = id := by
  have hmem := (entries_ids_perm parent base phrase).mem_iff.mpr (List.mem_range'_1.mpr ⟨hlow, hhigh⟩)
  exact List.mem_map.mp hmem

theorem idsFrom_sorted (base : Nat) (phrases : List Phrase) :
    (idsFrom base phrases).Pairwise (· < ·) ∧
      ∀ id ∈ idsFrom base phrases, base ≤ id ∧ id < base + countAll phrases := by
  induction phrases generalizing base with
  | nil => exact ⟨.nil, by simp [idsFrom]⟩
  | cons phrase more ih =>
      obtain ⟨hsorted, hbounds⟩ := ih (base + count phrase)
      have hcount := count_eq phrase
      rw [idsFrom, countAll, idFrom]
      refine ⟨.cons (fun id hid => ?_) hsorted, ?_⟩
      · have := hbounds id hid
        omega
      · intro id hid
        rcases List.mem_cons.mp hid with rfl | hid
        · omega
        · have := hbounds id hid
          omega

theorem nodup_map_id_parts (entry : TreeEntry) : (entry.parts.map TreeEntry.id).Nodup := by
  obtain ⟨hbefore, hbelow⟩ := idsFrom_sorted entry.base entry.phrase.before
  obtain ⟨hafter, habove⟩ := idsFrom_sorted (entry.id + 1) entry.phrase.after
  have hid : entry.id = entry.base + countAll entry.phrase.before := rfl
  rw [TreeEntry.parts, List.map_append, TreeEntry.map_id_located, TreeEntry.map_id_located]
  refine List.Pairwise.imp (fun hlt => Nat.ne_of_lt hlt) (List.pairwise_append.mpr ⟨hbefore, hafter, ?_⟩)
  intro left hleft right hright
  have := hbelow left hleft
  have := habove right hright
  omega

/-! ### Parents and children -/

mutual

/-- With an entry there are those of its parts. -/
theorem parts_subset_entries (parent : Option Nat) (base : Nat) : (phrase : Phrase) →
    ∀ entry ∈ phrase.entries parent base, entry.parts ⊆ phrase.entries parent base
  | ⟨kind, start, stop, issues, before, after⟩ => by
      intro entry hentry part hpart
      rw [entries] at hentry ⊢
      refine List.mem_cons_of_mem _ (List.mem_append.mpr ?_)
      rcases List.mem_cons.mp hentry with rfl | hentry
      · exact (List.mem_append.mp hpart).imp mem_entriesOf_of_located mem_entriesOf_of_located
      · refine (List.mem_append.mp hentry).imp (fun hentry => ?_) (fun hentry => ?_)
        · exact parts_subset_entriesOf _ base before entry hentry hpart
        · exact parts_subset_entriesOf _ (base + countAll before + 1) after entry hentry hpart

theorem parts_subset_entriesOf (parent : Option Nat) (base : Nat) : (phrases : List Phrase) →
    ∀ entry ∈ entriesOf parent base phrases, entry.parts ⊆ entriesOf parent base phrases
  | [] => by
      intro entry hentry
      rw [entriesOf] at hentry
      cases hentry
  | phrase :: more => by
      intro entry hentry part hpart
      rw [entriesOf] at hentry ⊢
      refine List.mem_append.mpr ((List.mem_append.mp hentry).imp (fun hentry => ?_) (fun hentry => ?_))
      · exact parts_subset_entries parent base phrase entry hentry hpart
      · exact parts_subset_entriesOf parent (base + count phrase) more entry hentry hpart

end

mutual

/-- What holds of a phrase's own entry, and of the parts of an entry whenever it holds of the entry,
holds of all entries. -/
theorem entries_induction {motive : TreeEntry → Prop} (parent : Option Nat) (base : Nat)
    (hparts : ∀ entry, motive entry → ∀ part ∈ entry.parts, motive part) : (phrase : Phrase) →
    motive ⟨base, parent, phrase⟩ → ∀ entry ∈ phrase.entries parent base, motive entry
  | ⟨kind, start, stop, issues, before, after⟩ => by
      intro hroot entry hentry
      have hbelow := hparts _ hroot
      rw [entries] at hentry
      rcases List.mem_cons.mp hentry with rfl | hentry
      · exact hroot
      rcases List.mem_append.mp hentry with hentry | hentry
      · exact entriesOf_induction _ base hparts before
          (fun part hpart => hbelow part (List.mem_append_left _ hpart)) entry hentry
      · exact entriesOf_induction _ (base + countAll before + 1) hparts after
          (fun part hpart => hbelow part (List.mem_append_right _ hpart)) entry hentry

theorem entriesOf_induction {motive : TreeEntry → Prop} (parent : Option Nat) (base : Nat)
    (hparts : ∀ entry, motive entry → ∀ part ∈ entry.parts, motive part) : (phrases : List Phrase) →
    (∀ entry ∈ located parent base phrases, motive entry) →
      ∀ entry ∈ entriesOf parent base phrases, motive entry
  | [] => by
      intro _ entry hentry
      rw [entriesOf] at hentry
      cases hentry
  | phrase :: more => by
      intro hlocated entry hentry
      rw [entriesOf] at hentry
      rcases List.mem_append.mp hentry with hentry | hentry
      · exact entries_induction parent base hparts phrase (hlocated _ List.mem_cons_self) entry hentry
      · exact entriesOf_induction parent (base + count phrase) hparts more
          (fun part hpart => hlocated part (List.mem_cons_of_mem _ hpart)) entry hentry

end

/-- The same for what is only handed on among the entries of the phrase. -/
theorem entries_induction_on {motive : TreeEntry → Prop} {parent : Option Nat} {base : Nat} {phrase : Phrase}
    {entry : TreeEntry} (hentry : entry ∈ phrase.entries parent base) (hroot : motive ⟨base, parent, phrase⟩)
    (hparts : ∀ above ∈ phrase.entries parent base, motive above → ∀ part ∈ above.parts, motive part) :
    motive entry := by
  let held (entry : TreeEntry) := entry ∈ phrase.entries parent base ∧ motive entry
  have hheld : held ⟨base, parent, phrase⟩ := ⟨mem_entries_self parent base phrase, hroot⟩
  refine (entries_induction (motive := held) parent base ?_ phrase hheld entry hentry).2
  rintro above ⟨habove, hmotive⟩ part hpart
  exact ⟨parts_subset_entries parent base phrase above habove hpart, hparts above habove hmotive part hpart⟩

/-- Every entry but that of the phrase itself is a part of another one. -/
theorem exists_parent {parent : Option Nat} {base : Nat} {phrase : Phrase} {entry : TreeEntry}
    (hentry : entry ∈ phrase.entries parent base) :
    entry = ⟨base, parent, phrase⟩ ∨ ∃ above ∈ phrase.entries parent base, entry ∈ above.parts := by
  let motive (entry : TreeEntry) := entry = ⟨base, parent, phrase⟩ ∨
    ∃ above ∈ phrase.entries parent base, entry ∈ above.parts
  exact entries_induction_on (motive := motive) hentry (.inl rfl)
    fun above habove _ part hpart => .inr ⟨above, habove, hpart⟩

theorem Everywhere.entry {property : Phrase → Prop} {parent : Option Nat} {base : Nat} {phrase : Phrase}
    (h : Everywhere property phrase) {entry : TreeEntry} (hentry : entry ∈ phrase.entries parent base) :
    property entry.phrase := by
  let motive (entry : TreeEntry) := Everywhere property entry.phrase
  refine (entries_induction (motive := motive) parent base ?_ phrase h entry hentry).here
  exact fun above habove part hpart => habove.part (TreeEntry.phrase_mem_parts hpart)

/-- What holds of all entries of a phrase holds everywhere in it. -/
theorem everywhere_of_entries {phrase : Phrase} {property : Phrase → Prop} {parent : Option Nat} {base : Nat}
    (h : ∀ entry ∈ phrase.entries parent base, property entry.phrase) {entry : TreeEntry}
    (hentry : entry ∈ phrase.entries parent base) {other : Phrase → Prop}
    (hother : entry.phrase.Everywhere other) : entry.phrase.Everywhere property := by
  generalize hinner : entry.phrase = inner at hother
  induction hother generalizing entry with
  | intro _ _ ih =>
      subst hinner
      refine .intro (h entry hentry) fun part hpart => ?_
      have hmem := hpart
      rw [← TreeEntry.map_phrase_parts] at hmem
      obtain ⟨below, hbelow, rfl⟩ := List.mem_map.mp hmem
      exact ih _ hpart (parts_subset_entries parent base phrase entry hentry hbelow) rfl

/-! ### The tree of a phrase -/

mutual

theorem length_nodes (levels : Levels) (parent : Option Nat) (base : Nat) : (phrase : Phrase) →
    (phrase.nodes levels parent base).length = phrase.count
  | ⟨kind, start, stop, issues, before, after⟩ => by
      rw [nodes, count, List.length_append, List.length_cons, length_nodesOf, length_nodesOf]
      omega

theorem length_nodesOf (levels : Levels) (parent : Option Nat) (base : Nat) : (phrases : List Phrase) →
    (nodesOf levels parent base phrases).length = countAll phrases
  | [] => by rw [nodesOf, countAll]; rfl
  | phrase :: more => by rw [nodesOf, countAll, List.length_append, length_nodes, length_nodesOf]

end

mutual

theorem nodes_split (levels : Levels) (parent : Option Nat) (base : Nat) : (phrase : Phrase) →
    ∀ entry ∈ phrase.entries parent base, ∃ left right,
      phrase.nodes levels parent base = left ++ entry.node levels :: right ∧ entry.id = base + left.length
  | ⟨kind, start, stop, issues, before, after⟩ => by
      intro entry hentry
      have hlength := length_nodesOf levels (some (base + countAll before)) base before
      rw [entries] at hentry
      rw [nodes]
      rcases List.mem_cons.mp hentry with rfl | hentry
      · refine ⟨_, _, congrArg _ (congrArg (· :: _) ?_), by rw [hlength]; rfl⟩
        rw [TreeEntry.node, TreeEntry.parts, List.map_append, TreeEntry.map_id_located,
          TreeEntry.map_id_located]
        rfl
      rcases List.mem_append.mp hentry with hentry | hentry
      · obtain ⟨left, right, hnodes, hid⟩ := nodesOf_split levels _ base before entry hentry
        rw [hnodes, List.append_assoc, List.cons_append]
        exact ⟨left, _, rfl, hid⟩
      · obtain ⟨left, right, hnodes, hid⟩ :=
          nodesOf_split levels _ (base + countAll before + 1) after entry hentry
        rw [hnodes, ← List.cons_append, ← List.append_assoc]
        refine ⟨_, right, rfl, ?_⟩
        rw [List.length_append, List.length_cons, hlength, hid]
        omega

theorem nodesOf_split (levels : Levels) (parent : Option Nat) (base : Nat) : (phrases : List Phrase) →
    ∀ entry ∈ entriesOf parent base phrases, ∃ left right,
      nodesOf levels parent base phrases = left ++ entry.node levels :: right ∧
        entry.id = base + left.length
  | [] => by
      intro entry hentry
      rw [entriesOf] at hentry
      cases hentry
  | phrase :: more => by
      intro entry hentry
      rw [entriesOf] at hentry
      rw [nodesOf]
      rcases List.mem_append.mp hentry with hentry | hentry
      · obtain ⟨left, right, hnodes, hid⟩ := nodes_split levels parent base phrase entry hentry
        rw [hnodes, List.append_assoc, List.cons_append]
        exact ⟨left, _, rfl, hid⟩
      · obtain ⟨left, right, hnodes, hid⟩ :=
          nodesOf_split levels parent (base + count phrase) more entry hentry
        rw [hnodes, ← List.append_assoc]
        refine ⟨_, right, rfl, ?_⟩
        rw [List.length_append, length_nodes, hid]
        omega

end

@[simp] theorem size_toTree (levels : Levels) (source : Text) (phrase : Phrase) :
    (phrase.toTree levels source).size = phrase.count := by
  rw [Tree.size, toTree, List.size_toArray, length_nodes]

theorem node?_toTree (levels : Levels) (source : Text) {phrase : Phrase} {entry : TreeEntry}
    (hentry : entry ∈ phrase.entries none 0) :
    (phrase.toTree levels source).node? entry.id = some (entry.node levels) := by
  obtain ⟨left, right, hnodes, hid⟩ := nodes_split levels none 0 phrase entry hentry
  rw [Tree.node?, toTree, List.getElem?_toArray, hnodes, hid, Nat.zero_add,
    List.getElem?_append_right (Nat.le_refl _), Nat.sub_self, List.getElem?_cons_zero]

theorem children_toTree (levels : Levels) (source : Text) {phrase : Phrase} {entry : TreeEntry}
    (hentry : entry ∈ phrase.entries none 0) :
    (phrase.toTree levels source).children entry.id = entry.parts.map TreeEntry.id := by
  rw [Tree.children, node?_toTree levels source hentry]
  rfl

theorem kind?_toTree (levels : Levels) (source : Text) {phrase : Phrase} {entry : TreeEntry}
    (hentry : entry ∈ phrase.entries none 0) :
    (phrase.toTree levels source).kind? entry.id = some entry.phrase.kind := by
  rw [Tree.kind?, Phrase.node?_toTree levels source hentry]
  rfl

theorem parent?_toTree (levels : Levels) (source : Text) {phrase : Phrase} {entry : TreeEntry}
    (hentry : entry ∈ phrase.entries none 0) :
    (phrase.toTree levels source).parent? entry.id = entry.parent := by
  rw [Tree.parent?, node?_toTree levels source hentry]
  rfl

theorem exists_entry_of_node? {levels : Levels} {source : Text} {phrase : Phrase} {id : Nat} {node : Node}
    (hnode : (phrase.toTree levels source).node? id = some node) :
    ∃ entry ∈ phrase.entries none 0, entry.id = id ∧ entry.node levels = node := by
  have hsize : id < (phrase.toTree levels source).size := (Array.getElem?_eq_some_iff.mp hnode).1
  rw [size_toTree] at hsize
  obtain ⟨entry, hentry, rfl⟩ := exists_entry none (Nat.zero_le id) (by rwa [Nat.zero_add])
  rw [node?_toTree levels source hentry] at hnode
  exact ⟨entry, hentry, rfl, Option.some.inj hnode⟩

end Phrase

end Gamebook
