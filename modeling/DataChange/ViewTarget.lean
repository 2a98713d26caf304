import DataChange.Expr.Columns
import DataChange.Query
import DataChange.Token.Lexer

/-!
# Writing through views

A statement against a view that does not handle the operation itself is written through to the
base of the view, one layer after the other. On the way the column maps are composed, and the
filters of the layers are collected and moved over to the range of the base.
-/

namespace DataChange

/-- Where a statement against a range lands. -/
structure ViewTarget where
  /-- The range that the statement names. -/
  written : Range
  /-- The table, or the view that handles the operation, which is changed. -/
  relation : Relation
  /-- The range over this relation. -/
  range : Range
  /-- For each column of the written range the ordinal in the relation. -/
  columnMap : List Nat
  /-- The conjunction of the filters on the way, over the range. -/
  filter : Option Expr

namespace ViewTarget

/-- Whether the statement was moved to another range. -/
def isMoved (target : ViewTarget) : Bool :=
  target.written.id != target.range.id

/-- Moves the references to the written range over to the range that is changed. -/
def onBase (target : ViewTarget) (e : Expr) : Compiler Expr :=
  if target.isMoved then inRange (e.redirect target.written.id target.range target.columnMap)
  else pure e

/-- How far a view has been followed. -/
structure Descent where
  range : Range
  columnMap : List Nat
  filter : Option Expr

/-- The view that a range is over, unless it handles the operation itself. -/
def viewToPass? (operation : Operation) (range : Range) : Option View :=
  match range.source with
  | .relation (.view v) => if operation.hasTrigger v then none else some v
  | _ => none

/-- The filter of a view, resolved over the range of its base. -/
def resolveFilter (env : Environment) (base : Range) : Option String → Compiler (Option Expr)
  | none => return none
  | some text => do
    let tokens ← tokenize text
    let condition ← Compiler.onTokens tokens do
      let condition ← Expr.parse
      Reader.finish
      return condition
    return some (← condition.resolveCondition env ⟨[base], []⟩)

/-- Passes from a view to its base. -/
def descend (env : Environment) (operation : Operation) (view : View) (state : Descent) :
    Compiler Descent := do
  let fragment := state.range.fragment
  match view.base with
  | none => reject ⟨.notUpdatable view.qualifiedName.text operation, fragment⟩
  | some base =>
    let relation ← env.relation (base.relation.qualify view.schemaName) fragment
    let range ← Range.ofNew relation none fragment
    let outerFilter ← match state.filter with
      | none => pure none
      | some filter => do
        let filter ← inRange (filter.redirect state.range.id range base.columnMap)
        pure (some filter)
    let filter ← resolveFilter env range base.filter
    let columnMap ← inRange (state.columnMap.mapM fun column => base.columnMap[column]?)
    return ⟨range.markAllUsed, columnMap, Expr.and? filter outerFilter⟩

/-- Passes views until a relation takes the operation, through at most `bound` layers. -/
def followWithin (env : Environment) (operation : Operation) : Nat → Descent → Compiler Descent
  | 0, _ => throw .viewCycle
  | bound + 1, state =>
    match viewToPass? operation state.range with
    | none => return state
    | some view => do followWithin env operation bound (← descend env operation view state)

/-- Finds where a statement against a range lands. More layers than there are views mean that
their bases lead in a circle. -/
def resolve (env : Environment) (written : Range) (operation : Operation) :
    Compiler ViewTarget := do
  let start : Descent := ⟨written, List.range written.columns.length, none⟩
  let bound := env.catalog.views.byId.entries.length + 2
  let ⟨range, columnMap, filter⟩ ← followWithin env operation bound start
  match range.relation? with
  | some relation => return ⟨written, relation, range, columnMap, filter⟩
  | none => reject (.unexpected .relation range.fragment)

end ViewTarget

end DataChange
