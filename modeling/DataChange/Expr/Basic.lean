import DataChange.Catalog.Relation
import DataChange.Expr.Operator
import DataChange.Token.Basic
import DataChange.Value

/-!
# Expressions, plans and ranges

An expression is a tree whose nodes carry the fragment they were written as and, once types are
inferred, their type. A subquery in it is at first the tokens of its body; compiled, it is a plan
over ranges, which in turn may hold expressions. A range exposes the columns of a relation, of a
derived table or of the variables of a routine.
-/

namespace DataChange

/-- A named column of a range or a plan. -/
structure Attribute where
  name : String
  type : SqlType
  deriving DecidableEq, Repr, Inhabited

/-- The attribute that a column of a relation shows. -/
def Column.toAttribute (c : Column) : Attribute :=
  ⟨c.name, c.type⟩

/-- The column that a reference stands for. -/
structure Binding where
  /-- The id of its range. -/
  range : Nat
  /-- Its ordinal in the range. -/
  column : Nat
  type : SqlType
  /-- Whether the range holds the variables of a routine. -/
  isVariable : Bool
  deriving DecidableEq, Repr, Inhabited

/-- A reference to a column by name. -/
structure ColumnRef where
  qualifier : Option String
  name : String
  binding : Option Binding
  deriving DecidableEq, Repr, Inhabited

/-- A question mark, by its number in the statement. -/
structure Marker where
  index : Nat
  /-- Whether its type is that of the column or parameter it is assigned to. -/
  asColumn : Bool
  /-- Whether it receives a value back. -/
  writeable : Bool
  deriving DecidableEq, Repr, Inhabited

/-- What a subquery stands for. -/
inductive QueryShape where
  | scalar
  | row (degree : Nat)
  deriving DecidableEq, Repr

/-- The number of columns that a subquery must have. -/
def QueryShape.degree : QueryShape → Nat
  | scalar => 1
  | row degree => degree

/-- What can be asked about the last statement. -/
inductive DiagnosticsItem where
  | rowCount
  | more
  deriving DecidableEq, Repr

mutual

/-- A node of an expression tree. -/
structure Expr where
  kind : ExprKind
  fragment : Fragment
  /-- The type, once it is inferred. -/
  type? : Option SqlType

/-- What a node is. -/
inductive ExprKind where
  | constant (value : Value)
  | parameter (marker : Marker)
  | column (ref : ColumnRef)
  /-- The marker DEFAULT. -/
  | defaultMarker
  | row (items : List Expr)
  /-- The rows of a VALUES list. -/
  | values (rows : List Expr)
  /-- A subquery that is not compiled yet. -/
  | pending (shape : QueryShape) (body : List Token)
  /-- A compiled subquery. -/
  | query (shape : QueryShape) (plan : Plan)
  | diagnostics (item : DiagnosticsItem)
  | unary (op : UnaryOp) (operand : Expr)
  | binary (op : BinaryOp) (left right : Expr)
  | isNull (operand : Expr) (negated : Bool)
  | call (name : String) (builtin : Option Builtin) (arguments : List Expr)

/-- A compiled query: its columns and what produces them. -/
inductive Plan where
  | select (columns : List Attribute) (projection : List Expr) (ranges : List Range)
      (condition : Option Expr)
  | values (columns : List Attribute) (rows : Expr)

/-- A name scope over the columns of something. -/
structure Range where
  /-- Unique within a compilation. -/
  id : Nat
  /-- The name by which columns are qualified. -/
  name : String
  source : RangeSource
  columns : List Attribute
  /-- For each column whether it is read. -/
  used : List Bool
  join : Option Expr
  fragment : Fragment

/-- What a range ranges over. -/
inductive RangeSource where
  | relation (r : Relation)
  | derived (plan : Plan)
  /-- The variables of an enclosing routine. -/
  | routineVariables

end

instance : Inhabited Expr := ⟨⟨.defaultMarker, .absent, none⟩⟩

instance : Inhabited Plan := ⟨.values [] default⟩

/-- The columns of a plan. -/
def Plan.columns : Plan → List Attribute
  | select columns _ _ _ => columns
  | values columns _ => columns

def Plan.columnTypes (p : Plan) : List SqlType :=
  p.columns.map (·.type)

namespace Expr

/-! ## Making expressions -/

/-- A node without a type. -/
def untyped (kind : ExprKind) (fragment : Fragment) : Expr :=
  ⟨kind, fragment, none⟩

/-- A literal, which has its type from the start. -/
def literal (value : Value) (fragment : Fragment) : Expr :=
  ⟨.constant value, fragment, some value.type⟩

/-- The condition that always holds. -/
def always : Expr :=
  literal (.boolean true) (.synthetic "TRUE")

/-- A reference to a column of a range. -/
def boundColumn (qualifier : Option String) (a : Attribute) (range column : Nat)
    (isVariable : Bool) (fragment : Fragment) : Expr :=
  ⟨.column ⟨qualifier, a.name, some ⟨range, column, a.type, isVariable⟩⟩, fragment, some a.type⟩

/-- The conjunction of two conditions. -/
def and (left right : Expr) : Expr :=
  ⟨.binary .and left right, left.fragment.withText "AND", some .boolean⟩

/-- The conjunction of two conditions that may be missing. -/
def and? : Option Expr → Option Expr → Option Expr
  | some left, some right => some (and left right)
  | some left, none => some left
  | none, right => right

/-- The same node with a type. -/
def withType (e : Expr) (type : SqlType) : Expr :=
  { e with type? := some type }

/-! ## Looking at expressions -/

def isDefault (e : Expr) : Bool :=
  match e.kind with
  | .defaultMarker => true
  | _ => false

def isRow (e : Expr) : Bool :=
  match e.kind with
  | .row _ => true
  | _ => false

def isParameter (e : Expr) : Bool :=
  match e.kind with
  | .parameter _ => true
  | _ => false

/-- Whether it is a parameter without a type. -/
def isUntypedParameter (e : Expr) : Bool :=
  e.isParameter && e.type?.isNone

/-- The column that a reference is bound to. -/
def binding? (e : Expr) : Option Binding :=
  match e.kind with
  | .column ref => ref.binding
  | _ => none

/-- Whether it refers to a variable of a routine. -/
def isVariable (e : Expr) : Bool :=
  e.binding?.any (·.isVariable)

/-- The number of values it stands for in a row. -/
def degree (e : Expr) : Nat :=
  match e.kind with
  | .row items => items.length
  | .pending shape _ => shape.degree
  | .query shape _ => shape.degree
  | _ => 1

/-- The operands of a node. -/
def children (e : Expr) : List Expr :=
  match e.kind with
  | .row items | .values items | .call _ _ items => items
  | .unary _ operand | .isNull operand _ => [operand]
  | .binary _ left right => [left, right]
  | _ => []

/-- A parameter takes the type of the column or parameter it is assigned to. -/
def asColumn (e : Expr) (type : SqlType) (writeable : Bool) : Expr :=
  match e.kind with
  | .parameter marker =>
    { e with
      kind := .parameter { marker with asColumn := true, writeable := writeable }
      type? := some type }
  | _ => e

end Expr

end DataChange
