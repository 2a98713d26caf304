import DataChange.Catalog.Directory
import DataChange.Catalog.Relation
import DataChange.Catalog.Routine

/-!
# The catalog

All definitions that statements refer to. Names are looked up without regard to case within a
namespace, itself found by name; a table hides a view of the same name.
-/

namespace DataChange

/-- A name within a namespace, in its common spelling. -/
abbrev NameKey := Nat × String

/-- The key of a name in the namespace with an id. -/
def NameKey.of (schemaId : Nat) (name : String) : NameKey :=
  (schemaId, Text.foldCase name)

/-- A name that routines share, and the id of one of them. -/
abbrev OverloadKey := NameKey × Nat

/-- The largest id: ids are 64 bit numbers. -/
def maxId : Nat := UInt64.size - 1

instance : Named Namespace String where
  id n := n.id
  key n := Text.foldCase n.name

instance : Named Table NameKey where
  id t := t.id
  key t := NameKey.of t.schemaId t.name

instance : Named View NameKey where
  id v := v.id
  key v := NameKey.of v.schemaId v.name

instance : Named Routine OverloadKey where
  id r := r.id
  key r := (NameKey.of r.schemaId r.name, r.id)

/-- The definitions that statements refer to. -/
structure Catalog where
  namespaces : Directory String Namespace := {}
  tables : Directory NameKey Table := {}
  views : Directory NameKey View := {}
  routines : Directory OverloadKey Routine := {}
  synonyms : Index NameKey QualifiedName := {}
  deriving Inhabited

namespace Catalog

/-- The catalog that defines nothing. -/
def empty : Catalog := {}

/-! ## Changes -/

def setNamespace (c : Catalog) (n : Namespace) : Catalog :=
  { c with namespaces := c.namespaces.insert n }

def setTable (c : Catalog) (t : Table) : Catalog :=
  { c with tables := c.tables.insert t }

def removeTable (c : Catalog) (id : Nat) : Catalog :=
  { c with tables := c.tables.erase id }

def setView (c : Catalog) (v : View) : Catalog :=
  { c with views := c.views.insert v }

def setRoutine (c : Catalog) (r : Routine) : Catalog :=
  { c with routines := c.routines.insert r }

def setSynonym (c : Catalog) (schemaId : Nat) (name : String) (target : QualifiedName) : Catalog :=
  { c with synonyms := c.synonyms.insert (NameKey.of schemaId name) target }

/-! ## Lookup in the namespace with an id -/

def tableIn? (c : Catalog) (schemaId : Nat) (name : String) : Option Table :=
  c.tables.find? (NameKey.of schemaId name)

def viewIn? (c : Catalog) (schemaId : Nat) (name : String) : Option View :=
  c.views.find? (NameKey.of schemaId name)

/-- The keys of a name in the order of their ids, from the first id to the last. -/
def overloads (c : Catalog) (name : NameKey) : List OverloadKey :=
  (c.routines.ids.keys.filter fun key => key.1 == name && key.2 ≤ maxId).mergeSort
    fun a b => a.2 ≤ b.2

/-- All routines of a name, in the order of their ids. -/
def routinesIn (c : Catalog) (schemaId : Nat) (name : String) : List Routine :=
  (c.overloads (NameKey.of schemaId name)).filterMap fun key => c.routines.get? key.2

def synonymIn? (c : Catalog) (schemaId : Nat) (name : String) : Option QualifiedName :=
  c.synonyms.get? (NameKey.of schemaId name)

/-! ## Lookup in the namespace with a name -/

def namespace? (c : Catalog) (name : String) : Option Namespace :=
  c.namespaces.find? (Text.foldCase name)

def table? (c : Catalog) (schema name : String) : Option Table :=
  match c.namespace? schema with
  | some n => c.tableIn? n.id name
  | none => none

def view? (c : Catalog) (schema name : String) : Option View :=
  match c.namespace? schema with
  | some n => c.viewIn? n.id name
  | none => none

def routines? (c : Catalog) (schema name : String) : List Routine :=
  match c.namespace? schema with
  | some n => c.routinesIn n.id name
  | none => []

def synonym? (c : Catalog) (schema name : String) : Option QualifiedName :=
  match c.namespace? schema with
  | some n => c.synonymIn? n.id name
  | none => none

/-- The table of a name, or else the view. -/
def relation? (c : Catalog) (schema name : String) : Option Relation :=
  match c.table? schema name with
  | some t => some (.table t)
  | none => (c.view? schema name).map .view

/-- The names of all tables, in the order of their ids. -/
def baseTables (c : Catalog) : List QualifiedName :=
  c.tables.sorted.map (·.qualifiedName)

end Catalog

end DataChange
