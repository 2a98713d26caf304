import DataChange.Expr.Columns
import DataChange.Expr.Parser
import DataChange.Target.ColumnMap

/-!
# Assignment targets and values

The columns that a statement names as its targets, and the assignments of a SET clause. A target
may be a group of columns between brackets, whose value is a row or a subquery of the same degree.
-/

namespace DataChange

/-- A column named as a target. -/
structure TargetColumn where
  /-- Its ordinal in the range. -/
  ordinal : Nat
  /-- The name under which it is declared. -/
  name : String
  /-- The bound reference to it. -/
  expr : Expr

namespace TargetColumn

/-- Whether a qualifier names the range or the relation behind it. -/
def qualifies (range : Range) (qualifier : String) : Bool :=
  range.isNamed qualifier || range.relation?.any fun r => Text.sameName r.name qualifier

/-- Refuses a qualifier that is not allowed or names another range. -/
def checkQualifier (range : Range) (allowed : Bool) (qualifier : Option Token) (name : Token) :
    Except Error Unit :=
  match qualifier with
  | none => .ok ()
  | some q =>
    if !allowed then .error (.unexpected .unqualifiedColumn q.fragment)
    else if qualifies range q.text then .ok ()
    else .error ⟨.unresolvedReference [q.text ++ "." ++ name.text], q.fragment⟩

/-- The column of the range with a name. -/
def find (range : Range) (qualifier : Option Token) (name : Token) : Except Error TargetColumn :=
  match range.columnIndex? name.text with
  | some ordinal =>
    let column := range.columns.get ordinal
    .ok ⟨ordinal, column.name,
      .boundColumn (qualifier.map (·.text)) column range.id ordinal false name.fragment⟩
  | none => .error ⟨.unresolvedReference [name.text], name.fragment⟩

/-- Reads a name with or without a qualifier. -/
def readName : Reader (Option Token × Token) := do
  let first ← Reader.identifier
  if ← Reader.skipSymbol .dot then return (some first, ← Reader.identifier)
  else return (none, first)

/-- Reads a column of the range; with `qualified` it may be qualified. -/
def read (range : Range) (qualified : Bool) : Reader TargetColumn := do
  let (qualifier, name) ← readName
  match checkQualifier range qualified qualifier name with
  | .error e => throw e
  | .ok _ =>
    match find range qualifier name with
    | .ok column => return column
    | .error e => throw e

/-- Adds the column to a map. -/
def addTo (column : TargetColumn) (map : ColumnMap) : Reader ColumnMap :=
  match map.insert column.ordinal column.name column.expr.fragment with
  | .ok map => return map
  | .error e => throw e

end TargetColumn

/-- Reads a list of columns between brackets. -/
def ColumnMap.read (range : Range) (qualified : Bool) : Reader ColumnMap := do
  let _ ← Reader.symbol .openParen
  let step := fun map => do (← TargetColumn.read range qualified).addTo map
  let map ← commaSteps step ColumnMap.empty
  let _ ← Reader.symbol .closeParen
  return map

/-- The assignments of a SET clause, with one value a target or group of targets. -/
structure SetClause where
  columnMap : ColumnMap := .empty
  targets : List Expr := []
  values : List Expr := []

namespace SetClause

/-- Reads a target. -/
def addTarget (range : Range) (clause : SetClause) : Reader SetClause := do
  let column ← TargetColumn.read range true
  let columnMap ← column.addTo clause.columnMap
  return { clause with columnMap := columnMap, targets := clause.targets ++ [column.expr] }

/-- Reads a target or a group of them, and says whether it was a group. -/
def addTargets (range : Range) (clause : SetClause) : Reader (SetClause × Bool) := do
  if ← Reader.skipSymbol .openParen then
    let clause ← commaSteps (addTarget range) clause
    let _ ← Reader.symbol .closeParen
    return (clause, true)
  else return (← addTarget range clause, false)

/-- The brackets before a SELECT at the cursor. -/
def bracketsBeforeSelect? (cursor : Cursor) : Option Nat :=
  let brackets := (cursor.rest.takeWhile (·.isSymbol .openParen)).length
  if brackets > 0 && (cursor.rest[brackets]?).any (·.isKeyword .SELECT) then some brackets else none

/-- Reads a subquery for a group; the innermost brackets are its own. -/
def readQuery (degree brackets : Nat) : Parser Expr := do
  modify fun s => { s with cursor := s.cursor.advance (brackets - 1) }
  let opening ← Reader.symbol .openParen
  let body ← Reader.parenthesised
  Reader.closeParens (brackets - 1)
  return .untyped (.pending (.row degree) body) opening.fragment

/-- Reads a row of a degree between brackets. -/
def readRow (degree : Nat) : Parser Expr := do
  let opening ← Reader.symbol .openParen
  let row ← Expr.parseRow
  let _ ← Reader.symbol .closeParen
  let actual := if row.isRow then row.degree else 1
  if actual = degree then return row else reject (.degree degree actual opening.fragment)

/-- Reads the value of a target or of a group with `degree` columns. In the dialect that has it,
VALUES before a row makes its columns those of the proposed row. -/
def readValue (mysql group : Bool) (degree : Nat) : Parser Expr := do
  let cursor := (← get).cursor
  match if group then bracketsBeforeSelect? cursor else none with
  | some brackets => readQuery degree brackets
  | none =>
    let proposed ← if mysql then Reader.skipKeyword .VALUES else pure false
    if proposed then return (← readRow degree).qualifyFree newRowName
    else if degree > 1 then readRow degree
    else Expr.parse

/-- Reads an assignment. -/
def addAssignment (mysql : Bool) (range : Range) (clause : SetClause) : Parser SetClause := do
  let (extended, group) ← addTargets range clause
  let _ ← Reader.symbol .equal
  let value ← readValue mysql group (extended.columnMap.length - clause.columnMap.length)
  return { extended with values := extended.values ++ [value] }

/-- Reads the assignments after SET. -/
def read (mysql : Bool) (range : Range) : Parser SetClause :=
  commaSteps (addAssignment mysql range) {}

end SetClause

end DataChange
