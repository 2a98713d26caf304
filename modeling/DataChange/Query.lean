import DataChange.Expr.Binding
import DataChange.Range.Reading

/-!
# Queries

The queries within statements: SELECT over relations, TABLE and VALUES. A query is compiled within
the groups that enclose it; the types of the columns that it fills, where they are known, settle
what the query itself leaves open.
-/

namespace DataChange

namespace Query

/-- The types of the columns that a query fills. -/
abbrev Expectation := Option (List SqlType)

/-- The expected type of a column. -/
def expectedType? (expected : Expectation) (column : Nat) : Option SqlType :=
  expected.bind fun types => types[column]?

/-- The name of a column that has none. -/
def columnName (index : Nat) : String :=
  "C" ++ toString (index + 1)

/-! ## SELECT -/

/-- An item of a SELECT list. -/
inductive Item where
  /-- All columns of all ranges. -/
  | all (fragment : Fragment)
  | expression (e : Expr) (asName : Option String)

def readItem : Compiler Item := do
  match ← Reader.symbol? .asterisk with
  | some star => return .all star.fragment
  | none =>
    let e ← Expr.parse
    return .expression e (← Reader.asName?)

/-- The columns selected so far and what produces them. -/
structure Selection where
  projection : List Expr := []
  columns : List Attribute := []

/-- The name of a selected column. -/
def selectedName (asName : Option String) (e : Expr) (position : Nat) : String :=
  match asName, e.kind with
  | some asName, _ => asName
  | none, .column ref => ref.name
  | none, _ => columnName position

/-- A selected value with its type; a parameter takes the expected one. -/
def typeSelected (e : Expr) (expected : Option SqlType) : Except Error (Expr × SqlType) :=
  match e.type? with
  | some t => .ok (e, t)
  | none =>
    match expected with
    | some t =>
      if e.isUntypedParameter then .ok (e.asColumn t false, t)
      else .error (.clash .untypedSelection e.fragment)
    | none => .error (.clash .untypedSelection e.fragment)

/-- Adds the columns of an item. -/
def selectItem (compile : QueryCompiler) (scope : Scope) (expected : Expectation)
    (selection : Selection) : Item → Compiler Selection
  | .all fragment =>
    if scope.ranges.isEmpty then reject (.unexpected .rangesForStar fragment)
    else return {
      projection := selection.projection ++
        scope.ranges.flatMap fun r => r.allColumns (some r.name) fragment
      columns := selection.columns ++ scope.ranges.flatMap (·.columns) }
  | .expression e asName => do
    let position := selection.projection.length
    let e ← e.resolveWith compile scope
    let (e, type) ← typeSelected e (expectedType? expected position)
    return {
      projection := selection.projection ++ [e]
      columns := selection.columns ++ [⟨selectedName asName e position, type⟩] }

/-- The condition after WHERE. -/
def readCondition : Compiler (Option Expr) := do
  if ← Reader.skipKeyword .WHERE then return some (← Expr.parse) else return none

/-- Resolves a condition that may be missing. -/
def resolveCondition? (compile : QueryCompiler) (scope : Scope) :
    Option Expr → Compiler (Option Expr)
  | none => return none
  | some e => return some (← e.resolveConditionWith compile scope)

def compileSelect (env : Environment) (compile : QueryCompiler) (outer : List RangeGroup)
    (expected : Expectation) : Compiler Plan := do
  let _ ← Reader.keyword .SELECT
  let items ← commaSeparated readItem
  let ranges ←
    if ← Reader.skipKeyword .FROM then commaSeparated (Range.readRelation env) else pure []
  let ranges ← RangeGroup.ofRanges ranges
  let condition ← readCondition
  let scope : Scope := ⟨ranges, outer⟩
  let selection ← items.foldlM (selectItem compile scope expected) {}
  let condition ← resolveCondition? compile scope condition
  return .select selection.columns selection.projection ranges condition

/-! ## TABLE -/

def compileTable (env : Environment) : Compiler Plan := do
  let _ ← Reader.keyword .TABLE
  let (name, fragment) ← Reader.qualifiedName
  let range ← Range.named env name none fragment
  return .select range.columns (range.allColumns none fragment) [range] none

/-! ## VALUES -/

/-- A row of one value. -/
def asRow (e : Expr) : Expr :=
  if e.isRow then e else .untyped (.row [e]) e.fragment

/-- The type of a column joined with that of a further value. -/
def joinCell (type : Option SqlType) (cell : Expr) : Except Error (Option SqlType) :=
  if cell.isDefault then .error (.unexpected .valueNotDefault cell.fragment)
  else
    match type, cell.type? with
    | type, none => .ok type
    | none, some t => .ok (some t)
    | some current, some t =>
      match SqlType.promote current t with
      | some joined => .ok (some joined)
      | none => .error (.clash (.rows current t) cell.fragment)

/-- The types of the columns joined with those of a further row. A typed value without a column is
out of range. -/
def joinRow : List (Option SqlType) → List Expr → Compiler (List (Option SqlType))
  | types, [] => return types
  | type :: types, cell :: cells => do
    let type ← joinCell type cell
    return type :: (← joinRow types cells)
  | [], cell :: cells => do
    match ← joinCell none cell with
    | none => joinRow [] cells
    | some _ => throw .outOfRange

/-- Resolves a row of a degree and joins its types to those so far. -/
def addRow (compile : QueryCompiler) (outer : List RangeGroup) (degree : Nat)
    (sofar : List (Option SqlType) × List Expr) (row : Expr) :
    Compiler (List (Option SqlType) × List Expr) := do
  if row.degree ≠ degree then reject (.degree degree row.degree row.fragment)
  let row ← (asRow row).resolveWith compile (.outerOnly outer)
  let types ← joinRow sofar.1 row.children
  return (types, sofar.2 ++ [row])

/-- The types of the columns: the expected ones, or else those of the values. -/
def columnTypes (expected : Expectation) (fragment : Fragment) :
    Nat → List (Option SqlType) → Except Error (List SqlType)
  | _, [] => .ok []
  | index, type :: types =>
    match (expectedType? expected index).or type with
    | none => .error (.clash (.untypedColumn (index + 1)) fragment)
    | some t =>
      match columnTypes expected fragment (index + 1) types with
      | .ok ts => .ok (t :: ts)
      | .error e => .error e

/-- An untyped parameter takes the type of its column. -/
def settleCell (cell : Expr) (type : SqlType) : Expr :=
  if cell.isUntypedParameter then cell.asColumn type false else cell

/-- The cells of a row with the types of their columns. -/
def settleRow (types : List SqlType) (row : Expr) : Expr :=
  match row.kind with
  | .row cells => { row with kind := .row (cells.zipWith settleCell types) }
  | _ => row

def compileValues (compile : QueryCompiler) (outer : List RangeGroup) (expected : Expectation) :
    Compiler Plan := do
  let values ← Reader.keyword .VALUES
  let rows ← Expr.parseList
  let degree ← inRange (rows.head?.map (·.degree))
  let (types, rows) ← rows.foldlM (addRow compile outer degree) (List.replicate degree none, [])
  let types ← columnTypes expected values.fragment 0 types
  let columns := types.mapIdx fun index type => ⟨columnName index, type⟩
  return .values columns (.untyped (.values (rows.map (settleRow types))) values.fragment)

/-! ## All queries -/

/-- Compiles the tokens of a query that stands by itself, and notes it. -/
def embedded (compile : List RangeGroup → Expectation → Compiler Plan) : QueryCompiler :=
  fun tokens outer => Compiler.onTokens tokens do
    Compiler.noteQuery outer none
    let plan ← compile outer none
    Reader.finish
    return plan

/-- Compiles the query at the cursor, whose subqueries nest less than `bound` deep. -/
def compileWithin (env : Environment) : Nat → List RangeGroup → Expectation → Compiler Plan
  | 0, _, _ => do reject ((← get).cursor.endedBefore .query)
  | bound + 1, outer, expected => do
    let subquery := embedded (compileWithin env bound)
    let parens ← Reader.openParens
    let cursor := (← get).cursor
    let plan ← match cursor.rest with
      | [] => reject (cursor.endedBefore .query)
      | t :: _ =>
        if t.isKeyword .SELECT then compileSelect env subquery outer expected
        else if t.isKeyword .TABLE then compileTable env
        else if t.isKeyword .VALUES then compileValues subquery outer expected
        else reject (.unexpected .queryKeyword t.fragment)
    Reader.closeParens parens
    return plan

/-- Compiles the query at the cursor. Every subquery stands in brackets of its own, so the tokens
to come bound the nesting. -/
def compile (env : Environment) (outer : List RangeGroup) (expected : Expectation) :
    Compiler Plan := do
  compileWithin env ((← remaining) + 1) outer expected

/-- Compiles the tokens of a subquery of a statement. -/
def compileTokens (env : Environment) : QueryCompiler :=
  embedded (compile env)

end Query

namespace Expr

/-- Binds and types an expression of a statement. -/
def resolve (env : Environment) (scope : Scope) (e : Expr) : Compiler Expr :=
  e.resolveWith (Query.compileTokens env) scope

/-- Binds and types a condition of a statement. -/
def resolveCondition (env : Environment) (scope : Scope) (e : Expr) : Compiler Expr :=
  e.resolveConditionWith (Query.compileTokens env) scope

end Expr

end DataChange
