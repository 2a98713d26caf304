import DataChange.Catalog.Column
import DataChange.Name

/-!
# Tables and views

A view over a single relation names it as its base: a column map from its own columns to those of
the base, and the text of its filter. A view may handle an operation itself by a trigger.
-/

namespace DataChange

/-- A schema that relations and routines belong to. -/
structure Namespace where
  id : Nat
  name : String
  deriving DecidableEq, Repr, Inhabited

/-- A base table. -/
structure Table where
  id : Nat
  schemaId : Nat
  schemaName : String
  name : String
  columns : List Column
  primaryKey : List Nat
  deriving DecidableEq, Repr, Inhabited

/-- What a view selects: some columns of one relation, and of its rows those of a filter. -/
structure ViewBase where
  relation : QualifiedName
  /-- For each column of the view the ordinal in the base. -/
  columnMap : List Nat
  /-- The text of the WHERE clause, over the columns of the base. -/
  filter : Option String
  deriving DecidableEq, Repr, Inhabited

/-- A view; one without a base cannot be written through. -/
structure View where
  id : Nat
  schemaId : Nat
  schemaName : String
  name : String
  columns : List Column
  base : Option ViewBase
  insertTrigger : Bool := false
  updateTrigger : Bool := false
  deleteTrigger : Bool := false
  deriving DecidableEq, Repr, Inhabited

/-- A table or a view. -/
inductive Relation where
  | table (t : Table)
  | view (v : View)
  deriving DecidableEq, Repr, Inhabited

namespace Table

def qualifiedName (t : Table) : QualifiedName :=
  ⟨some t.schemaName, t.name⟩

end Table

namespace View

def qualifiedName (v : View) : QualifiedName :=
  ⟨some v.schemaName, v.name⟩

/-- Whether the view can be written through. -/
def isUpdatable (v : View) : Bool :=
  v.base.isSome

end View

namespace Relation

def columns : Relation → List Column
  | table t => t.columns
  | view v => v.columns

def name : Relation → String
  | table t => t.name
  | view v => v.name

def id : Relation → Nat
  | table t => t.id
  | view v => v.id

def qualifiedName : Relation → QualifiedName
  | table t => t.qualifiedName
  | view v => v.qualifiedName

def columnIndex? (r : Relation) (name : String) : Option Nat :=
  Column.indexOf? r.columns name

end Relation

end DataChange
