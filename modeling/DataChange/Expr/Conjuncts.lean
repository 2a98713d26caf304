import DataChange.Expr.Basic

/-!
# Conjuncts

A condition is the conjunction of its conjuncts: the operands of the ANDs at its top.
-/

namespace DataChange

namespace Expr

mutual

/-- The operands of the ANDs at the top of a condition. -/
def conjuncts : Expr → List Expr
  | ⟨kind, fragment, type⟩ =>
    match kindConjuncts kind with
    | some parts => parts
    | none => [⟨kind, fragment, type⟩]

def kindConjuncts : ExprKind → Option (List Expr)
  | .binary .and left right => some (conjuncts left ++ conjuncts right)
  | _ => none

end

/-- The conjunction of some conditions. -/
def conjoin (conditions : List Expr) : Option Expr :=
  conditions.foldl (fun whole condition => and? whole (some condition)) none

end Expr

end DataChange
