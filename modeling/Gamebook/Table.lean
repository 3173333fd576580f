/-!
Tables from names to values, kept in increasing order of the names and with one entry for each of
them, so that a table is determined by its entries.
-/

namespace Gamebook

/-- A table with names as keys. -/
structure Table (α : Type u) where
  entries : List (String × α)
  deriving Repr, DecidableEq

namespace Table

instance : Inhabited (Table α) := ⟨⟨[]⟩⟩

def empty : Table α := ⟨[]⟩

def isEmpty (table : Table α) : Bool := table.entries.isEmpty

def size (table : Table α) : Nat := table.entries.length

def keys (table : Table α) : List String := table.entries.map Prod.fst

def values (table : Table α) : List α := table.entries.map Prod.snd

/-- The value of a name. -/
def get? (table : Table α) (key : String) : Option α := table.entries.lookup key

/-- Puts an entry at its place, in the place of an older one of the same name. -/
def insertEntry (key : String) (value : α) : List (String × α) → List (String × α)
  | [] => [(key, value)]
  | (other, old) :: more =>
    if key < other then (key, value) :: (other, old) :: more
    else if key = other then (key, value) :: more
    else (other, old) :: insertEntry key value more

/-- The table with the given value under the given name. -/
def insert (table : Table α) (key : String) (value : α) : Table α :=
  ⟨insertEntry key value table.entries⟩

/-- The table without the given name. -/
def erase (table : Table α) (key : String) : Table α :=
  ⟨table.entries.filter (·.1 != key)⟩

/-- Behind an insertion the name has the new value, and every other name the value it had. -/
theorem get?_insert (table : Table α) (key other : String) (value : α) :
    (table.insert key value).get? other = if other = key then some value else table.get? other := by
  obtain ⟨entries⟩ := table
  simp only [get?, insert]
  induction entries with
  | nil =>
    by_cases same : other = key
    · simp [insertEntry, same]
    · have apart : (other == key) = false := by simp [same]
      simp [insertEntry, List.lookup_cons, same, apart]
  | cons entry more ih =>
    obtain ⟨name, old⟩ := entry
    simp only [insertEntry]
    by_cases same : other = key
    · subst same
      split
      · simp
      · split
        · simp
        · rename_i distinct
          have apart : (other == name) = false := by simp [distinct]
          simpa [List.lookup_cons, apart] using ih
    · have apart : (other == key) = false := by simp [same]
      split
      · simp [List.lookup_cons, apart]
      · split
        · rename_i found
          subst found
          simp [List.lookup_cons, apart]
        · by_cases here : other = name
          · simp [here]
          · have elsewhere : (other == name) = false := by simp [here]
            simpa [List.lookup_cons, elsewhere, same] using ih

/-- Behind an erasure the name has no value, and every other name the value it had. -/
theorem get?_erase (table : Table α) (key other : String) :
    (table.erase key).get? other = if other = key then none else table.get? other := by
  obtain ⟨entries⟩ := table
  simp only [get?, erase]
  induction entries with
  | nil => simp
  | cons entry more ih =>
    obtain ⟨name, old⟩ := entry
    by_cases gone : name = key
    · subst gone
      rw [List.filter_cons_of_neg (by simp), ih]
      by_cases same : other = name
      · simp [same]
      · have apart : (other == name) = false := by simp [same]
        simp [List.lookup_cons, same, apart]
    · rw [List.filter_cons_of_pos (by simp [gone])]
      by_cases here : other = name
      · subst here
        simp [gone]
      · have elsewhere : (other == name) = false := by simp [here]
        simpa [List.lookup_cons, elsewhere] using ih

end Table

end Gamebook
