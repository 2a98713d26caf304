import DataChange.ColumnPolicy
import DataChange.Statement.Basic
import DataChange.Target.Assignment
import DataChange.ViewTarget

/-!
# INSERT

Rows are inserted as they are written, from a query, or with nothing but defaults. The column list
names columns of the written relation; what is stored are the columns of the relation behind it.
Each row after VALUES is a list of values between brackets, or a single value without them, and has
as many values as there are target columns.
-/

namespace DataChange

namespace Rows

/-- Reads a row of a degree. -/
def readRow (degree : Nat) : Parser Expr := do
  let fragment := (← get).cursor.fragment
  let items ←
    if ← Reader.skipSymbol .openParen then do
      let items ← Expr.parseList
      let _ ← Reader.symbol .closeParen
      pure items
    else do
      let item ← Expr.parse
      pure [item]
  if items.length = degree then return .untyped (.row items) fragment
  else reject (.degree degree items.length fragment)

/-- Reads rows of a degree, with the fragment of the first. -/
def read (degree : Nat) : Parser (List Expr × Fragment) := do
  let start := (← get).cursor.fragment
  return (← commaSeparated (readRow degree), start)

end Rows

/-- Projects a column map through the views on the way. -/
def ViewTarget.project (target : ViewTarget) (map : ColumnMap) : Compiler ColumnMap :=
  inRange (map.project target.columnMap)

/-- The flags of a column map over the columns of the target. -/
def ViewTarget.checkList (target : ViewTarget) (map : ColumnMap) : Compiler (List Bool) :=
  inRange (map.checkList target.relation.columns.length)

/-- Resolved values as assignments to the target. -/
def ViewTarget.assign (target : ViewTarget) (map : ColumnMap) (values : List Expr) :
    Compiler Assignments := do
  let map ← target.project map
  let values ← ColumnPolicy.updateValues target.relation.columns map values
  return ⟨map, ← target.checkList map, values⟩

namespace Insert

/-- Reads INSERT or REPLACE up to the target. -/
def readMode (mysql : Bool) : Reader InsertMode := do
  let mode ←
    if ← Reader.skipKeyword .REPLACE then pure InsertMode.replace
    else do
      let _ ← Reader.keyword .INSERT
      if mysql then
        if ← Reader.skipKeyword .IGNORE then pure InsertMode.ignore else pure InsertMode.plain
      else pure InsertMode.plain
  if mysql then
    let _ ← Reader.keyword? .INTO
  else
    let _ ← Reader.keyword .INTO
  return mode

/-- Whether the brackets at the cursor open a query and not a column list. -/
def isQueryAhead (cursor : Cursor) : Bool :=
  match cursor.rest.dropWhile (·.isSymbol .openParen) with
  | t :: _ =>
    t.isKeyword .SELECT || t.isKeyword .TABLE || t.isKeyword .WITH || t.isKeyword .VALUES
  | [] => false

/-- Whether a query follows where VALUES does not. -/
def isQueryStart (cursor : Cursor) : Bool :=
  cursor.isSymbol .openParen || cursor.isKeyword .SELECT || cursor.isKeyword .TABLE ||
    cursor.isKeyword .WITH

/-- Reads the column list; without one all columns are meant. -/
def readColumns (oracle : Bool) (range : Range) : Reader ColumnMap := do
  let cursor ← get
  if cursor.isSymbol .openParen && !isQueryAhead cursor then ColumnMap.read range oracle
  else return .all range.columns.length

/-- The statement that inserts a row of defaults. -/
def defaults (mode : InsertMode) (target : ViewTarget) : Compiler InsertStatement := do
  let fragment := target.written.fragment
  let map ← target.project (.all target.written.columns.length)
  let row := Expr.untyped (.row []) fragment
  return {
    target := target.relation
    mode := mode
    columnMap := map
    checkList := ← target.checkList map
    source := .values (.untyped (.values [row]) fragment)
    overrideIndex := none
    onDuplicate := none
    writeTables := [target.relation.qualifiedName] }

/-- Reads the rows after VALUES. -/
def readRows (env : Environment) (target : ViewTarget) (map : ColumnMap)
    (overriding : Option Overriding) : Compiler InsertSource := do
  let (rows, fragment) ← Rows.read map.length
  let scope := Scope.outerOnly (← Compiler.outerGroups)
  let values ← (Expr.untyped (.values rows) fragment).resolve env scope
  match values.kind with
  | .values rows =>
    let rows ← ColumnPolicy.insertRows target.relation.columns map overriding rows
    return .values { values with kind := .values rows }
  | _ => reject (.unexpected (.keyword .VALUES) values.fragment)

/-- Reads the query whose rows are inserted, and gives the identity column that is overridden. -/
def readQuery (env : Environment) (target : ViewTarget) (map : ColumnMap)
    (overriding : Option Overriding) : Compiler (InsertSource × Option Nat) := do
  let columns := target.relation.columns
  let outer ← Compiler.outerGroups
  let expected ← inRange (map.ordinals.mapM fun ordinal => columns[ordinal]?.map (·.type))
  let fragment := (← get).cursor.fragment
  Compiler.noteQuery outer (some expected)
  let plan ← Query.compile env outer (some expected)
  if plan.columns.length ≠ map.length then
    reject (.degree map.length plan.columns.length fragment)
  let overridden ← ColumnPolicy.queryColumns columns map plan.columnTypes overriding fragment
  return (.query plan, overridden)

/-- Resolves a value of an upsert over the target row and the proposed row, and moves its
references to the relation behind the written one. -/
def resolveUpsert (env : Environment) (target : ViewTarget) (scope : Scope) (newRow : Range)
    (value : Expr) : Compiler Expr := do
  let value ← value.resolve env scope
  let value ← target.onBase value
  if target.isMoved then inRange (value.redirect newRow.id newRow target.columnMap)
  else return value

/-- Reads the assignments of an upsert. -/
def readUpsert (env : Environment) (target : ViewTarget) : Compiler Assignments := do
  let written := target.written
  let clause ← SetClause.read env.config.dialect.mysql written
  let id ← Compiler.newRange
  let newRow := Range.fresh id newRowName written.source written.columns written.fragment
  let baseRow := Range.fresh id newRowName target.range.source target.range.columns written.fragment
  let scope : Scope := ⟨[written, newRow], ← Compiler.outerGroups⟩
  let values ← clause.values.mapM (resolveUpsert env target scope baseRow)
  target.assign clause.columnMap values

/-- Reads ON DUPLICATE KEY UPDATE where it is understood. -/
def readUpsert? (env : Environment) (target : ViewTarget) (mode : InsertMode) :
    Compiler (Option Assignments) := do
  if env.config.dialect.mysql && (mode = .plain || mode = .select) then
    if ← Reader.skipKeyword .ON then
      let _ ← Reader.keyword .DUPLICATE
      let _ ← Reader.keyword .KEY
      let _ ← Reader.keyword .UPDATE
      return some (← readUpsert env target)
    else return none
  else return none

/-- Reads VALUES, or VALUE in the dialect that has it. -/
def skipValues (mysql : Bool) : Reader Bool := do
  if ← Reader.skipKeyword .VALUES then return true
  else if mysql then Reader.skipKeyword .VALUE
  else return false

/-- Reads where the rows come from; rows from a query make a mode of their own. -/
def readSource (env : Environment) (target : ViewTarget) (map : ColumnMap) (mode : InsertMode)
    (overriding : Option Overriding) : Compiler (InsertSource × Option Nat × InsertMode) := do
  if ← skipValues env.config.dialect.mysql then
    return (← readRows env target map overriding, none, mode)
  else if isQueryStart (← get).cursor then
    let (source, overridden) ← readQuery env target map overriding
    return (source, overridden, if mode = .plain then .select else mode)
  else reject (.unexpected .valuesOrQuery (← get).cursor.fragment)

def compile (env : Environment) : Compiler InsertStatement := do
  let mode ← readMode env.config.dialect.mysql
  let written ← Range.readTarget env .insert
  let target ← ViewTarget.resolve env written .insert
  if ← Reader.skipKeyword .DEFAULT then
    let _ ← Reader.keyword .VALUES
    defaults mode target
  else
    let columns ← readColumns env.config.dialect.oracle written
    let map ← target.project columns
    let overriding ← Overriding.read?
    let (source, overridden, mode) ← readSource env target map mode overriding
    let onDuplicate ← readUpsert? env target mode
    return {
      target := target.relation
      mode := if onDuplicate.isSome then .update else mode
      columnMap := map
      checkList := ← target.checkList map
      source := source
      overrideIndex := overridden
      onDuplicate := onDuplicate
      writeTables := [target.relation.qualifiedName] }

end Insert

end DataChange
