import DataChange.Statement.Update

/-!
# DELETE

The condition is resolved over the written range and moved to the range behind it.
-/

namespace DataChange

namespace Delete

def compile (env : Environment) : Compiler DeleteStatement := do
  let _ ← Reader.keyword .DELETE
  let _ ← Reader.keyword .FROM
  let written ← Range.readTarget env .delete
  let condition ← Query.readCondition
  let slice ← Slice.read? env [written]
  let scope : Scope := ⟨[written], ← Compiler.outerGroups⟩
  let condition ← Query.resolveCondition? (Query.compileTokens env) scope condition
  let target ← ViewTarget.resolve env written .delete
  let condition ← target.onBase? condition
  let slice ← target.sliceOnBase slice
  let condition := Expr.and? target.filter condition
  return {
    target := target.relation
    ranges := JoinCondition.distribute [target.rangeFor [] condition]
    condition := condition
    slice := slice
    writeTables := [target.relation.qualifiedName] }

end Delete

end DataChange
