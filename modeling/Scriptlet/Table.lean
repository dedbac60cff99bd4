/-!
# Tables

A finite map from keys to values that can be listed. At most one entry of a
table counts for a key, so looking up what was inserted last is a matter of two
cases: the key itself, and every other key.

## Main definitions

* `Table`: A list of entries.
* `Table.get?`: The value of a key.
* `Table.insert`: Sets the value of a key.

## Theorems

* `Table.get?_insert_self`, `Table.get?_insert_other`: Insertion changes one
  key.
* `Table.mem_values_insert`: Insertion lists one new value.
-/

namespace Scriptlet

/-- A finite map, as a list of entries. -/
structure Table (κ α : Type) where
  entries : List (κ × α)

namespace Table

variable {κ α : Type} [DecidableEq κ]

/-- The table without entries. -/
def empty : Table κ α := ⟨[]⟩

/-- The value of a key, if it has one. -/
def get? (table : Table κ α) (key : κ) : Option α := table.entries.lookup key

/-- Whether a key has a value. -/
def contains (table : Table κ α) (key : κ) : Bool := (table.get? key).isSome

/-- Sets the value of a key, whether it had one or not. -/
def insert (table : Table κ α) (key : κ) (value : α) : Table κ α :=
  ⟨(key, value) :: table.entries.filter fun entry => entry.1 ≠ key⟩

/-- All values, in no particular order. -/
def values (table : Table κ α) : List α := table.entries.map Prod.snd

/-- Entries of one key do not matter for another. -/
theorem lookup_filter_ne {key other : κ} (h : other ≠ key) (entries : List (κ × α)) :
    (entries.filter fun entry => decide (entry.1 ≠ key)).lookup other =
      entries.lookup other := by
  induction entries with
  | nil => rfl
  | cons entry rest ih =>
    obtain ⟨k, v⟩ := entry
    by_cases hk : k = key
    -- An entry of `key` is dropped, and `other` would not have met it.
    · have hne : (other == k) = false := by simp [hk, h]
      rw [List.filter_cons_of_neg (by simp [hk]), List.lookup_cons, hne]
      exact ih
    · rw [List.filter_cons_of_pos (by simp [hk]), List.lookup_cons, List.lookup_cons, ih]

/-- The key that was set has the value it was set to. -/
@[simp]
theorem get?_insert_self (table : Table κ α) (key : κ) (value : α) :
    (table.insert key value).get? key = some value := by
  simp [get?, insert]

/-- Every other key keeps its value. -/
theorem get?_insert_other (table : Table κ α) {key other : κ} (value : α) (h : other ≠ key) :
    (table.insert key value).get? other = table.get? other := by
  have hne : (other == key) = false := by simp [h]
  simp only [get?, insert, List.lookup_cons, hne]
  exact lookup_filter_ne h table.entries

/-- What is listed after an insertion is the new value or was listed before. -/
theorem mem_values_insert {table : Table κ α} {key : κ} {value found : α}
    (h : found ∈ (table.insert key value).values) : found = value ∨ found ∈ table.values := by
  simp only [values, insert, List.map_cons, List.mem_cons] at h ⊢
  refine h.imp id fun hrest => ?_
  rcases List.mem_map.mp hrest with ⟨entry, hentry, rfl⟩
  exact List.mem_map_of_mem (List.mem_filter.mp hentry).1

end Table

end Scriptlet
