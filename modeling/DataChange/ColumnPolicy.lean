import DataChange.Catalog.Column
import DataChange.Expr.Typing
import DataChange.Target.ColumnMap
import DataChange.Compiler.Monad

/-!
# What may be written to a column

A computed column takes no value but DEFAULT on insert, and none on update. An identity column that
is always generated takes an explicit value only under an OVERRIDING clause. Every other value must
have a type that the column accepts.
-/

namespace DataChange

/-- Whose value an OVERRIDING clause prefers for the identity column. -/
inductive OverridingKind where
  /-- The generated value replaces that of the user. -/
  | user
  /-- The value of the user replaces the generated one. -/
  | system
  deriving DecidableEq, Repr

/-- An OVERRIDING clause. -/
structure Overriding where
  kind : OverridingKind
  fragment : Fragment
  deriving DecidableEq, Repr

/-- Reads whose values are overridden. -/
def OverridingKind.read : Reader OverridingKind := do
  if ← Reader.skipKeyword .USER then return .user
  else if ← Reader.skipKeyword .SYSTEM then return .system
  else throw (.unexpected .overridingKind (← get).fragment)

/-- Reads an OVERRIDING clause, if there is one. -/
def Overriding.read? : Reader (Option Overriding) := do
  match ← Reader.keyword? .OVERRIDING with
  | none => return none
  | some t =>
    let kind ← OverridingKind.read
    let _ ← Reader.keyword .VALUE
    return some ⟨kind, t.fragment⟩

namespace ColumnPolicy

/-- The first identity column and how it is generated. -/
def identityOf (columns : List Column) : Option (Nat × Identity) :=
  columns.zipIdx.findSome? fun (c, i) => c.identity.map fun g => (i, g)

/-- Refuses an OVERRIDING clause unless the identity column is among the targets. -/
def checkOverriding (columns : List Column) (columnMap : ColumnMap)
    (overriding : Option Overriding) : Except Error Unit :=
  match overriding with
  | none => .ok ()
  | some clause =>
    if (identityOf columns).any fun (identity, _) => columnMap.contains identity then .ok ()
    else .error ⟨.overridingWithoutIdentity, clause.fragment⟩

/-- A value assigned to a column: a parameter takes its type, any other must fit it. -/
def assign (column : Column) (cell : Expr) : Except Error Expr :=
  let cell := if cell.isUntypedParameter then cell.asColumn column.type false else cell
  match Expr.checkAssignable column.type cell column.name with
  | .ok _ => .ok cell
  | .error e => .error e

/-! ## Inserted rows -/

/-- A cell of an inserted row. `identity` says how the column is generated if it is the identity
column of the target. -/
def insertCell (column : Column) (identity : Option Identity) (overriding : Option OverridingKind)
    (cell : Expr) : Except Error Expr :=
  if cell.isDefault then .ok cell
  else if identity.isSome && overriding = some .user then
    .ok (.untyped .defaultMarker cell.fragment)
  else if identity = some .always && overriding = none then
    .error ⟨.identityOverrideRequired column.name, cell.fragment⟩
  else if column.isGenerated then .error ⟨.generatedColumnWrite column.name, cell.fragment⟩
  else assign column cell

/-- The identity of the target if it is in the column at an ordinal. -/
def identityAt (columns : List Column) (ordinal : Nat) : Option Identity :=
  (identityOf columns).bind fun (identity, generation) =>
    if identity = ordinal then some generation else none

/-- The cells of an inserted row, each for the column that the map gives it. -/
def insertCells (columns : List Column) (overriding : Option OverridingKind) :
    List Expr → List Nat → Compiler (List Expr)
  | cell :: cells, ordinal :: ordinals => do
    let column ← inRange columns[ordinal]?
    let cell ← insertCell column (identityAt columns ordinal) overriding cell
    return cell :: (← insertCells columns overriding cells ordinals)
  | cells, _ => return cells

/-- An inserted row. -/
def insertRow (columns : List Column) (columnMap : ColumnMap) (overriding : Option OverridingKind)
    (row : Expr) : Compiler Expr :=
  match row.kind with
  | .row cells => do
    let cells ← insertCells columns overriding cells columnMap.ordinals
    return { row with kind := .row cells }
  | _ => reject (.unexpected .rowValue row.fragment)

/-- The rows of an insert under the rules for its columns. -/
def insertRows (columns : List Column) (columnMap : ColumnMap) (overriding : Option Overriding)
    (rows : List Expr) : Compiler (List Expr) := do
  checkOverriding columns columnMap overriding
  rows.mapM (insertRow columns columnMap (overriding.map (·.kind)))

/-! ## Inserted queries -/

/-- Checks a column of an inserted query; the identity column that is overridden is reported. -/
def queryColumn (column : Column) (ordinal : Nat) (overriding : Option OverridingKind)
    (produced : SqlType) (fragment : Fragment) : Except Error (Option Nat) :=
  if column.isGenerated then .error ⟨.generatedColumnWrite column.name, fragment⟩
  else if column.isIdentity && overriding = some .user then .ok (some ordinal)
  else if column.identity = some .always && overriding = none then
    .error ⟨.identityOverrideRequired column.name, fragment⟩
  else if column.type.assignableFrom produced then .ok none
  else .error (.clash (.assignment produced column.name column.type) fragment)

/-- Checks the columns of an inserted query; of several overridden identity columns the last
counts. -/
def queryColumnsFrom (columns : List Column) (overriding : Option OverridingKind)
    (fragment : Fragment) (overridden : Option Nat) :
    List Nat → List SqlType → Compiler (Option Nat)
  | ordinal :: ordinals, produced :: types => do
    let column ← inRange columns[ordinal]?
    let found ← queryColumn column ordinal overriding produced fragment
    queryColumnsFrom columns overriding fragment (found.or overridden) ordinals types
  | _, _ => return overridden

/-- Checks an inserted query and gives the identity column whose values are replaced. -/
def queryColumns (columns : List Column) (columnMap : ColumnMap) (produced : List SqlType)
    (overriding : Option Overriding) (fragment : Fragment) : Compiler (Option Nat) := do
  checkOverriding columns columnMap overriding
  queryColumnsFrom columns (overriding.map (·.kind)) fragment none columnMap.ordinals produced

/-! ## Assignments -/

/-- Refuses a column that cannot be assigned. -/
def checkTarget (column : Column) (isDefault : Bool) (fragment : Fragment) : Except Error Unit :=
  if column.isGenerated then .error ⟨.generatedColumnWrite column.name, fragment⟩
  else if column.identity = some .always && !isDefault then
    .error ⟨.identityOverrideRequired column.name, fragment⟩
  else .ok ()

/-- A value assigned to one column. -/
def updateCell (column : Column) (cell : Expr) : Except Error Expr :=
  match checkTarget column cell.isDefault cell.fragment with
  | .error e => .error e
  | .ok _ => if cell.isDefault then .ok cell else assign column cell

/-- A column of a subquery assigned to one column. -/
def updateProduced (column : Column) (produced : SqlType) (fragment : Fragment) :
    Except Error Unit :=
  match checkTarget column false fragment with
  | .error e => .error e
  | .ok _ =>
    if column.type.assignableFrom produced then .ok ()
    else .error (.clash (.assignment produced column.name column.type) fragment)

/-- The column that the first of some slots stands for, and the slots after it. -/
def nextSlot (columns : List Column) : List Nat → Compiler (Column × List Nat)
  | [] => throw .outOfRange
  | ordinal :: slots => return (← inRange columns[ordinal]?, slots)

/-- The items of an assigned row, each for the next slot. -/
def updateItems (columns : List Column) : List Expr → List Nat → Compiler (List Expr × List Nat)
  | [], slots => return ([], slots)
  | item :: items, slots => do
    let (column, slots) ← nextSlot columns slots
    let item ← updateCell column item
    let (items, slots) ← updateItems columns items slots
    return (item :: items, slots)

/-- The columns of an assigned subquery, each for the next slot. -/
def updateProducedList (columns : List Column) (fragment : Fragment) :
    List SqlType → List Nat → Compiler (List Nat)
  | [], slots => return slots
  | produced :: types, slots => do
    let (column, slots) ← nextSlot columns slots
    updateProduced column produced fragment
    updateProducedList columns fragment types slots

/-- An assigned value; a row or a subquery for a row takes several slots. -/
def updateValue (columns : List Column) (value : Expr) (slots : List Nat) :
    Compiler (Expr × List Nat) :=
  match value.kind with
  | .row items => do
    let (items, slots) ← updateItems columns items slots
    return ({ value with kind := .row items }, slots)
  | .query (.row _) plan => do
    return (value, ← updateProducedList columns value.fragment plan.columnTypes slots)
  | _ => do
    let (column, slots) ← nextSlot columns slots
    return (← updateCell column value, slots)

/-- The values of a SET clause, each for its slots of the column map. -/
def updateValuesFrom (columns : List Column) : List Expr → List Nat → Compiler (List Expr)
  | [], _ => return []
  | value :: values, slots => do
    let (value, slots) ← updateValue columns value slots
    return value :: (← updateValuesFrom columns values slots)

/-- The values of a SET clause under the rules for its columns. -/
def updateValues (columns : List Column) (columnMap : ColumnMap) (values : List Expr) :
    Compiler (List Expr) :=
  updateValuesFrom columns values columnMap.ordinals

end ColumnPolicy

end DataChange
