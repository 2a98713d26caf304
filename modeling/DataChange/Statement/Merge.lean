import DataChange.Statement.Update

/-!
# MERGE

A MERGE joins a source with the target. Its branches update or delete the target row of a pair, or
insert a row for a source row without a pair. Each kind of branch stands at most once; the insert
branch sees the source only.
-/

namespace DataChange

namespace Merge

/-! ## The source -/

/-- Reads a query between brackets with its name. -/
def readDerived (env : Environment) (opening : Token) : Compiler Range := do
  let body ← Reader.parenthesised
  let plan ← Query.compileTokens env body (← Compiler.outerGroups)
  match ← Reader.asName? with
  | none => reject (.unexpected .correlationName (← get).cursor.fragment)
  | some asName =>
    return .fresh (← Compiler.newRange) asName (.derived plan) plan.columns opening.fragment

def readSource (env : Environment) : Compiler Range := do
  match ← Reader.symbol? .openParen with
  | some opening => readDerived env opening
  | none => Range.readRelation env

/-! ## Branches as they are written -/

/-- A branch that updates. -/
structure UpdateBranch where
  guard : Option Expr
  clause : SetClause

/-- A branch that inserts. -/
structure InsertBranch where
  guard : Option Expr
  columnMap : ColumnMap
  row : Expr

/-- The branches read so far. -/
structure Branches where
  update : Option UpdateBranch := none
  /-- The guard of the delete branch, if the branch is there. -/
  delete : Option (Option Expr) := none
  insert : Option InsertBranch := none
  /-- Whether the delete branch came first. -/
  deleteLeads : Bool := false

namespace Branches

def isEmpty (b : Branches) : Bool :=
  b.update.isNone && b.delete.isNone && b.insert.isNone

/-- An unguarded update takes every row, so the guard of a delete is asked first then too. -/
def deleteFirst (b : Branches) : Bool :=
  b.delete.isSome && (b.deleteLeads || b.update.all (·.guard.isNone))

end Branches

/-- Reads the guard of a branch. -/
def readGuard : Parser (Option Expr) := do
  if ← Reader.skipKeyword .AND then return some (← Expr.parse) else return none

/-- Reads the one row of an insert branch. -/
def readInsertRow (degree : Nat) : Parser Expr := do
  let (rows, fragment) ← Rows.read degree
  match rows with
  | [row] => return row
  | _ => reject (.degree 1 rows.length fragment)

/-- Refuses a second branch of a kind. -/
def checkNew (isThere : Bool) (branch : MergeBranch) (clause : Token) : Parser Unit :=
  if isThere then reject ⟨.duplicateMergeBranch branch, clause.fragment⟩ else return ()

/-- Reads a branch for source rows without a pair. -/
def readInsert (env : Environment) (target : Range) (clause : Token) (branches : Branches) :
    Parser Branches := do
  let _ ← Reader.keyword .MATCHED
  let guard ← readGuard
  let _ ← Reader.keyword .THEN
  let _ ← Reader.keyword .INSERT
  checkNew branches.insert.isSome .insert clause
  let columnMap ←
    if (← get).cursor.isSymbol .openParen then ColumnMap.read target env.config.dialect.oracle
    else pure (ColumnMap.all target.columns.length)
  let _ ← Reader.keyword .VALUES
  let row ← readInsertRow columnMap.length
  return { branches with insert := some ⟨guard, columnMap, row⟩ }

/-- Reads a branch for pairs. -/
def readMatched (env : Environment) (target : Range) (clause : Token) (branches : Branches) :
    Parser Branches := do
  let _ ← Reader.keyword .MATCHED
  let guard ← readGuard
  let _ ← Reader.keyword .THEN
  if ← Reader.skipKeyword .UPDATE then
    checkNew branches.update.isSome .update clause
    let _ ← Reader.keyword .SET
    let clause ← SetClause.read env.config.dialect.mysql target
    return { branches with update := some ⟨guard, clause⟩ }
  else if ← Reader.skipKeyword .DELETE then
    checkNew branches.delete.isSome .delete clause
    return { branches with delete := some guard, deleteLeads := branches.update.isNone }
  else reject (.unexpected .matchedAction (← get).cursor.fragment)

/-- Reads branches while WHEN follows, at most `bound` ones. -/
def readBranchesWithin (env : Environment) (target : Range) : Nat → Branches → Parser Branches
  | 0, branches => return branches
  | bound + 1, branches => do
    match ← Reader.keyword? .WHEN with
    | none => return branches
    | some clause =>
      let branches ←
        if ← Reader.skipKeyword .NOT then readInsert env target clause branches
        else readMatched env target clause branches
      readBranchesWithin env target bound branches

/-- Reads all branches; there must be one. -/
def readBranches (env : Environment) (target : Range) : Parser Branches := do
  let branches ← readBranchesWithin env target (← remaining) {}
  if branches.isEmpty then reject (.unexpected (.keyword .WHEN) (← get).cursor.fragment)
  else return branches

/-! ## Resolved branches -/

/-- A guard that is missing always holds. -/
def resolveGuard (env : Environment) (scope : Scope) : Option Expr → Compiler Expr
  | some guard => guard.resolveCondition env scope
  | none => return .always

def resolveUpdate (env : Environment) (target : ViewTarget) (scope : Scope)
    (branch : UpdateBranch) : Compiler MergeUpdate := do
  let guard ← resolveGuard env scope branch.guard
  let values ← branch.clause.values.mapM fun value => do
    let value ← value.resolve env scope
    target.onBase value
  let assignments ← target.assign branch.clause.columnMap values
  return ⟨← target.onBase guard, assignments⟩

def resolveDelete (env : Environment) (target : ViewTarget) (scope : Scope)
    (guard : Option Expr) : Compiler Expr := do
  target.onBase (← resolveGuard env scope guard)

def resolveInsert (env : Environment) (target : ViewTarget) (scope : Scope)
    (branch : InsertBranch) : Compiler MergeInsert := do
  let guard ← resolveGuard env scope branch.guard
  let row ← branch.row.resolve env scope
  let map ← target.project branch.columnMap
  let columns := target.relation.columns
  let row ← ColumnPolicy.insertRow columns map none row
  return ⟨guard, map, ← target.checkList map, row⟩

/-- A step for a branch that may be missing. -/
def ifPresent {α β : Type} (step : α → Compiler β) : Option α → Compiler (Option β)
  | none => return none
  | some a => return some (← step a)

def compile (env : Environment) : Compiler MergeStatement := do
  let _ ← Reader.keyword .MERGE
  let _ ← Reader.keyword .INTO
  let written ← Range.readTarget env .merge
  let _ ← Reader.keyword .USING
  let source ← readSource env
  let _ ← Reader.keyword .ON
  let on ← Expr.parse
  let ranges ← RangeGroup.ofRanges [source, written]
  let outer ← Compiler.outerGroups
  let matched : Scope := ⟨ranges, outer⟩
  let unmatched : Scope := ⟨[source], outer⟩
  let on ← on.resolveCondition env matched
  let branches ← readBranches env written
  let target ← ViewTarget.resolve env written .merge
  let update ← ifPresent (resolveUpdate env target matched) branches.update
  let delete ← ifPresent (resolveDelete env target matched) branches.delete
  let insert ← ifPresent (resolveInsert env target unmatched) branches.insert
  let on ← target.onBase on
  let condition := (Expr.and? target.filter (some on)).getD .always
  let values := (update.map (·.assignments.values)).getD []
  return {
    target := target.relation
    ranges := JoinCondition.distribute [source, target.rangeFor values (some condition)]
    condition := condition
    update := update
    delete := delete
    insert := insert
    deleteFirst := branches.deleteFirst
    writeTables := [target.relation.qualifiedName] }

end Merge

end DataChange
