import DataChange.Catalog.Index

/-!
# Definitions found by id and by name

A directory keeps definitions by id and, beside them, the id that each name stands for. A name is
looked up in two steps: its id, then the definition of that id. Setting a definition takes away
the name that its id had before, and whatever the new name stood for gives way.
-/

namespace DataChange

/-- A definition with an id and a name key. -/
class Named (α : Type) (κ : outParam Type) where
  id : α → Nat
  key : α → κ

/-- Definitions by id, and ids by name. -/
structure Directory (κ α : Type) where
  byId : Index Nat α := {}
  ids : Index κ Nat := {}
  deriving Inhabited

namespace Directory

variable {κ α : Type} [BEq κ] [Named α κ]

/-- The definition with an id. -/
def get? (d : Directory κ α) (id : Nat) : Option α :=
  d.byId.get? id

/-- The definition with a name. -/
def find? (d : Directory κ α) (key : κ) : Option α :=
  match d.ids.get? key with
  | some id => d.get? id
  | none => none

/-- The names that are left when the name of an id is given up. -/
def idsWithout (d : Directory κ α) (id : Nat) : Index κ Nat :=
  match d.get? id with
  | some previous => d.ids.erase (Named.key previous)
  | none => d.ids

/-- Adds a definition, or replaces the one with the same id. -/
def insert (d : Directory κ α) (definition : α) : Directory κ α where
  byId := d.byId.insert (Named.id definition) definition
  ids := (d.idsWithout (Named.id definition)).insert (Named.key definition) (Named.id definition)

/-- Takes the definition with an id away, and its name with it. -/
def erase (d : Directory κ α) (id : Nat) : Directory κ α where
  byId := d.byId.erase id
  ids := d.idsWithout id

/-- All definitions in the order of their ids. -/
def sorted (d : Directory κ α) : List α :=
  d.byId.values.mergeSort fun a b => Named.id a ≤ Named.id b

@[simp] theorem find?_insert_self [LawfulBEq κ] (d : Directory κ α) (definition : α) :
    (d.insert definition).find? (Named.key definition) = some definition := by
  simp [find?, insert, get?]

end Directory

end DataChange
