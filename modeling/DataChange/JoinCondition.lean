import DataChange.Expr.Conjuncts
import DataChange.Range.Basic

/-!
# Join conditions

The conditions of some ranges are split into conjuncts, and each conjunct is placed on the last
range that it refers to, where all it reads is at hand; one that refers to none of them is placed
on the first.
-/

namespace DataChange

namespace JoinCondition

/-- The conjuncts of the conditions of all ranges. -/
def conjuncts (ranges : List Range) : List Expr :=
  ranges.flatMap fun r => (r.join.map Expr.conjuncts).getD []

/-- The position of the last range that a condition refers to. -/
def lastReferenced? (e : Expr) : List Range → Option Nat
  | [] => none
  | r :: rs =>
    match lastReferenced? e rs with
    | some i => some (i + 1)
    | none => if e.refersTo r.id then some 0 else none

/-- Where a conjunct is placed. -/
def place (ranges : List Range) (e : Expr) : Nat :=
  (lastReferenced? e ranges).getD 0

/-- Places every conjunct on its range, in order. -/
def distribute (ranges : List Range) : List Range :=
  ranges.mapIdx fun i r =>
    { r with join := Expr.conjoin ((conjuncts ranges).filter fun e => place ranges e = i) }

end JoinCondition

end DataChange
