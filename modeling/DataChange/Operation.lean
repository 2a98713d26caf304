import DataChange.Catalog.Relation

/-!
# Operations on a target

What a statement does to the relation it writes. A view takes an operation when it handles it by a
trigger, or when it can be written through to its base; only tables are truncated.
-/

namespace DataChange

/-- A data change on a relation. -/
inductive Operation where
  | insert
  | update
  | delete
  | merge
  | truncate
  deriving DecidableEq, Repr

namespace Operation

def name : Operation → String
  | insert => "INSERT"
  | update => "UPDATE"
  | delete => "DELETE"
  | merge => "MERGE"
  | truncate => "TRUNCATE"

/-- Whether the view handles the operation itself. -/
def hasTrigger : Operation → View → Bool
  | insert, v => v.insertTrigger
  | update, v => v.updateTrigger
  | delete, v => v.deleteTrigger
  | merge, v => v.updateTrigger && v.insertTrigger
  | truncate, _ => false

/-- Whether the view takes the operation at all. -/
def acceptedBy (operation : Operation) (v : View) : Bool :=
  operation != .truncate && (operation.hasTrigger v || v.isUpdatable)

end Operation

/-- The kinds of WHEN clause of a MERGE. -/
inductive MergeBranch where
  | update
  | delete
  | insert
  deriving DecidableEq, Repr

def MergeBranch.text : MergeBranch → String
  | update => "MATCHED THEN UPDATE"
  | delete => "MATCHED THEN DELETE"
  | insert => "NOT MATCHED"

end DataChange
