import DataChange.Query
import DataChange.Statement.Basic

/-!
# ORDER BY, LIMIT and OFFSET

An UPDATE or DELETE can be limited to the first rows in some order. An order without a limit is
refused. The keys refer to the ranges of the statement, the bounds only to enclosing scopes.
-/

namespace DataChange

namespace SortKey

/-- Reads ASC or DESC; ASC may be left out. -/
def readDescending : Reader Bool := do
  if ← Reader.skipKeyword .DESC then return true
  else
    let _ ← Reader.keyword? .ASC
    return false

def read (env : Environment) (scope : Scope) : Compiler SortKey := do
  let key ← Expr.parse
  let key ← key.resolve env scope
  return ⟨key, ← readDescending⟩

end SortKey

namespace Slice

/-- A bound must be an integer; a parameter becomes one. -/
def typeBound (e : Expr) : Except Error Expr :=
  match e.type? with
  | none =>
    if e.isUntypedParameter then .ok (e.asColumn .bigint false)
    else .error (.clash .sliceBound e.fragment)
  | some t => if t.isInteger then .ok e else .error (.clash .sliceBound e.fragment)

def readBound (env : Environment) (outer : List RangeGroup) : Compiler Expr := do
  let bound ← Expr.parseAt .comparison
  typeBound (← bound.resolve env (.outerOnly outer))

/-- Reads the slice, if there is one. -/
def read? (env : Environment) (ranges : List Range) : Compiler (Option Slice) := do
  let outer ← Compiler.outerGroups
  let orderBy ←
    if ← Reader.skipKeyword .ORDER then do
      let _ ← Reader.keyword .BY
      commaSeparated (SortKey.read env ⟨ranges, outer⟩)
    else pure []
  if ← Reader.skipKeyword .LIMIT then
    let limit ← readBound env outer
    let offset ← if ← Reader.skipKeyword .OFFSET then some <$> readBound env outer else pure none
    return some ⟨orderBy, limit, offset⟩
  else if orderBy.isEmpty then return none
  else reject (.unexpected (.keyword .LIMIT) (← get).cursor.fragment)

end Slice

end DataChange
