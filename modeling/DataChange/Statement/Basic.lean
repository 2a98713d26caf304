import DataChange.Catalog.Routine
import DataChange.Expr.Nodes
import DataChange.Target.ColumnMap

/-!
# Compiled statements

The six data change statements with all names resolved and all expressions typed.
-/

namespace DataChange

/-- How an INSERT settles conflicts of keys, and what it inserts. -/
inductive InsertMode where
  | plain
  /-- The rows come from a query. -/
  | select
  /-- A row with the same key is replaced. -/
  | replace
  /-- A row whose key is there already is left out. -/
  | ignore
  /-- A row with the same key is updated. -/
  | update
  deriving DecidableEq, Repr

/-- Where the inserted rows come from. -/
inductive InsertSource where
  | values (rows : Expr)
  | query (plan : Plan)

/-- The assignments of a SET clause. A row or a subquery among the values takes several columns of
the map. -/
structure Assignments where
  columnMap : ColumnMap
  /-- For each column of the target whether it is assigned. -/
  checkList : List Bool
  values : List Expr

/-- The names of the relations that a statement writes. -/
abbrev WriteSet := List QualifiedName

structure InsertStatement where
  target : Relation
  mode : InsertMode
  columnMap : ColumnMap
  checkList : List Bool
  source : InsertSource
  /-- The identity column whose values from a query are replaced by generated ones. -/
  overrideIndex : Option Nat
  onDuplicate : Option Assignments
  writeTables : WriteSet

structure SortKey where
  key : Expr
  descending : Bool

/-- The first rows in some order. -/
structure Slice where
  orderBy : List SortKey
  limit : Expr
  offset : Option Expr

structure UpdateStatement where
  target : Relation
  ranges : List Range
  condition : Option Expr
  assignments : Assignments
  slice : Option Slice
  writeTables : WriteSet

structure DeleteStatement where
  target : Relation
  ranges : List Range
  condition : Option Expr
  slice : Option Slice
  writeTables : WriteSet

structure MergeUpdate where
  guard : Expr
  assignments : Assignments

structure MergeInsert where
  guard : Expr
  columnMap : ColumnMap
  checkList : List Bool
  row : Expr

structure MergeStatement where
  target : Relation
  /-- The source and then the target. -/
  ranges : List Range
  condition : Expr
  update : Option MergeUpdate
  /-- The guard of the delete branch. -/
  delete : Option Expr
  insert : Option MergeInsert
  /-- Whether the guard of the delete branch is asked before that of the update branch. -/
  deleteFirst : Bool
  writeTables : WriteSet

inductive TruncateTarget where
  | table (t : Table)
  | schema (n : Namespace)

inductive TruncateForm where
  /-- Within the transaction. -/
  | rows
  /-- As a command that commits. -/
  | command (noCheck : Bool)
  deriving DecidableEq, Repr

structure TruncateStatement where
  target : TruncateTarget
  restartIdentity : Bool
  form : TruncateForm
  writeTables : WriteSet

inductive CallTarget where
  | routine (r : Routine) (arguments : List Expr)
  | expression (e : Expr)

structure CallStatement where
  target : CallTarget
  /-- Nothing: a routine answers for what it writes itself. -/
  writeTables : WriteSet

/-- A compiled statement. -/
inductive Statement where
  | insert (s : InsertStatement)
  | update (s : UpdateStatement)
  | delete (s : DeleteStatement)
  | merge (s : MergeStatement)
  | truncate (s : TruncateStatement)
  | call (s : CallStatement)

namespace Statement

def writeTables : Statement → WriteSet
  | insert s => s.writeTables
  | update s => s.writeTables
  | delete s => s.writeTables
  | merge s => s.writeTables
  | truncate s => s.writeTables
  | call s => s.writeTables

/-- The condition of a statement, or the expression that it calls. -/
def condition? : Statement → Option Expr
  | update s => s.condition
  | delete s => s.condition
  | merge s => some s.condition
  | call ⟨.expression e, _⟩ => some e
  | _ => none

end Statement

/-! ## The nodes of a statement -/

def InsertSource.nodes : InsertSource → List Expr
  | values rows => rows.nodes
  | query plan => plan.nodes

def Assignments.nodes (a : Assignments) : List Expr :=
  Expr.nodesOfList a.values

def MergeStatement.nodes (s : MergeStatement) : List Expr :=
  let update := match s.update with
    | some u => u.guard.nodes ++ u.assignments.nodes
    | none => []
  let delete := match s.delete with
    | some guard => guard.nodes
    | none => []
  let insert := match s.insert with
    | some i => i.guard.nodes ++ i.row.nodes
    | none => []
  Range.nodesOfList s.ranges ++ update ++ delete ++ insert

/-- The nodes of the expressions of a statement, operands first: conditions through their ranges,
and with the ranges what they are joined on. -/
def Statement.nodes : Statement → List Expr
  | insert s => s.source.nodes ++ (s.onDuplicate.map (·.nodes)).getD []
  | update s =>
    Range.nodesOfList s.ranges ++ s.assignments.nodes ++ Expr.nodesOfOption s.condition
  | delete s => Range.nodesOfList s.ranges ++ Expr.nodesOfOption s.condition
  | merge s => s.nodes
  | truncate _ => []
  | call ⟨.routine _ arguments, _⟩ => Expr.nodesOfList arguments
  | call ⟨.expression e, _⟩ => e.nodes

end DataChange
