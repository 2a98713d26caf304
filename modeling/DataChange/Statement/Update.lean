import DataChange.JoinCondition
import DataChange.Statement.Insert
import DataChange.Statement.Slice

/-!
# UPDATE

Values, condition and order are resolved over the written range and then moved to the range behind
it; the filters of the views on the way join the condition.
-/

namespace DataChange

/-- A condition that may be missing, moved to the range that is changed. -/
def ViewTarget.onBase? (target : ViewTarget) : Option Expr → Compiler (Option Expr)
  | none => return none
  | some e => return some (← target.onBase e)

/-- The keys of a slice, moved to the range that is changed. -/
def ViewTarget.sliceOnBase (target : ViewTarget) : Option Slice → Compiler (Option Slice)
  | none => return none
  | some slice => do
    let orderBy ← slice.orderBy.mapM fun k => do
      let key ← target.onBase k.key
      pure { k with key := key }
    return some { slice with orderBy := orderBy }

/-- The range that is changed, with the columns marked that some expressions read and a condition
to join on. -/
def ViewTarget.rangeFor (target : ViewTarget) (values : List Expr) (condition : Option Expr) :
    Range :=
  let marked := values.foldl Range.markUsed target.range
  match condition with
  | some condition => (marked.markUsed condition).addJoin condition
  | none => marked

namespace Update

def compile (env : Environment) : Compiler UpdateStatement := do
  let _ ← Reader.keyword .UPDATE
  let written ← Range.readTarget env .update
  let _ ← Reader.keyword .SET
  let clause ← SetClause.read env.config.dialect.mysql written
  let condition ← Query.readCondition
  let slice ← Slice.read? env [written]
  let scope : Scope := ⟨[written], ← Compiler.outerGroups⟩
  let values ← clause.values.mapM fun value => value.resolve env scope
  let condition ← Query.resolveCondition? (Query.compileTokens env) scope condition
  let target ← ViewTarget.resolve env written .update
  let values ← values.mapM target.onBase
  let condition ← target.onBase? condition
  let slice ← target.sliceOnBase slice
  let assignments ← target.assign clause.columnMap values
  let condition := Expr.and? target.filter condition
  return {
    target := target.relation
    ranges := JoinCondition.distribute [target.rangeFor assignments.values condition]
    condition := condition
    assignments := assignments
    slice := slice
    writeTables := [target.relation.qualifiedName] }

end Update

end DataChange
