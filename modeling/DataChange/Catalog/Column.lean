import DataChange.SqlType
import DataChange.Text.Case

/-!
# Columns

A column of a table or a view: its name, its type and how it gets a value.
-/

namespace DataChange

/-- How the value of an identity column is produced. -/
inductive Identity where
  /-- Always generated: an explicit value needs an OVERRIDING clause. -/
  | always
  /-- Generated by default: an explicit value is accepted. -/
  | byDefault
  deriving DecidableEq, Repr

/-- A column of a relation. -/
structure Column where
  name : String
  type : SqlType
  nullable : Bool := true
  /-- The text of the DEFAULT clause. -/
  defaultText : Option String := none
  identity : Option Identity := none
  /-- The text of the expression that computes the column. -/
  generated : Option String := none
  deriving DecidableEq, Repr, Inhabited

namespace Column

def isGenerated (c : Column) : Bool :=
  c.generated.isSome

def isIdentity (c : Column) : Bool :=
  c.identity.isSome

/-- The column as an identity column, which is never null. -/
def withIdentity (c : Column) (identity : Identity) : Column :=
  { c with identity := some identity, nullable := false }

/-- The ordinal of the first column with a name. -/
def indexOf? (columns : List Column) (name : String) : Option Nat :=
  columns.findIdx? fun c => Text.sameName c.name name

end Column

end DataChange
