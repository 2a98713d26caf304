/-!
# Keyed entries

An index holds at most one entry a key, in the order in which the keys came. `insert` replaces
the entry of a key that is there already.
-/

namespace DataChange

/-- Entries by key. -/
structure Index (κ α : Type) where
  entries : List (κ × α) := []
  deriving Repr, Inhabited

namespace Index

variable {κ α : Type} [BEq κ]

/-- The entry of a key. -/
def get? (index : Index κ α) (key : κ) : Option α :=
  index.entries.lookup key

def insertEntry (key : κ) (value : α) : List (κ × α) → List (κ × α)
  | [] => [(key, value)]
  | (k, v) :: rest =>
    if key == k then (key, value) :: rest else (k, v) :: insertEntry key value rest

/-- Sets the entry of a key. -/
def insert (index : Index κ α) (key : κ) (value : α) : Index κ α :=
  ⟨insertEntry key value index.entries⟩

/-- Takes the entry of a key away. -/
def erase (index : Index κ α) (key : κ) : Index κ α :=
  ⟨index.entries.filter fun entry => !(key == entry.1)⟩

def keys (index : Index κ α) : List κ :=
  index.entries.map (·.1)

def values (index : Index κ α) : List α :=
  index.entries.map (·.2)

/-! ## Laws -/

@[simp] theorem get?_insert_self [LawfulBEq κ] (index : Index κ α) (key : κ) (value : α) :
    (index.insert key value).get? key = some value := by
  simp only [get?, insert]
  induction index.entries with
  | nil => simp [insertEntry]
  | cons entry rest ih =>
    obtain ⟨k, v⟩ := entry
    by_cases h : key == k
    · simp [insertEntry, h]
    · simp [insertEntry, h, List.lookup_cons, ih]

theorem get?_insert_of_ne [LawfulBEq κ] (index : Index κ α) {key other : κ} (value : α)
    (h : other ≠ key) : (index.insert key value).get? other = index.get? other := by
  have h' : (other == key) = false := by simpa using h
  simp only [get?, insert]
  induction index.entries with
  | nil => simp [insertEntry, List.lookup_cons, h']
  | cons entry rest ih =>
    obtain ⟨k, v⟩ := entry
    by_cases hk : key == k
    · obtain rfl : key = k := by simpa using hk
      simp [insertEntry, List.lookup_cons, h']
    · simp [insertEntry, hk, List.lookup_cons, ih]

end Index

end DataChange
