import DataChange.Compiler.Monad
import DataChange.Expr.Printer
import DataChange.Expr.Typing
import DataChange.Scope

/-!
# Binding references

`bindIn` binds the free columns of an expression within a scope, finds its functions and compiles
its subqueries, from left to right. The columns that no range has are gathered, so that they can
be reported together.
-/

namespace DataChange

/-- A reference that no range has: its text and where it is written. -/
structure FreeColumn where
  text : String
  fragment : Fragment
  deriving DecidableEq, Repr

/-- How the tokens of a subquery are compiled within enclosing groups. -/
abbrev QueryCompiler := List Token → List RangeGroup → Compiler Plan

namespace Expr

/-- The function that a call means. -/
def findBuiltin (name : String) (builtin : Option Builtin) (fragment : Fragment) :
    Except Error Builtin :=
  match builtin with
  | some b => .ok b
  | none =>
    match Builtin.ofName? name with
    | some b => .ok b
    | none => .error ⟨.unknownTarget .function name, fragment⟩

/-- Compiles a subquery, which must have as many columns as its shape says. -/
def compilePending (compile : QueryCompiler) (scope : Scope) (shape : QueryShape)
    (body : List Token) (fragment : Fragment) : Compiler Plan := do
  let outer ← scope.within
  let plan ← compile body outer
  if plan.columns.length = shape.degree then return plan
  else reject (.degree shape.degree plan.columns.length fragment)

/-- Binds a reference, unless it is bound already. -/
def bindColumn (scope : Scope) (ref : ColumnRef) (fragment : Fragment) :
    Except Error (ColumnRef × List FreeColumn) :=
  match ref.binding with
  | some _ => .ok (ref, [])
  | none =>
    match scope.lookup ref fragment with
    | .error e => .error e
    | .ok (some binding) => .ok ({ ref with binding := some binding }, [])
    | .ok none => .ok (ref, [⟨ref.text, fragment⟩])

mutual

/-- Binds what can be bound and gathers the rest. -/
def bindIn (compile : QueryCompiler) (scope : Scope) : Expr → Compiler (Expr × List FreeColumn)
  | ⟨.column ref, fragment, type⟩ => do
    let (ref, free) ← bindColumn scope ref fragment
    return (⟨.column ref, fragment, type⟩, free)
  | ⟨.pending shape body, fragment, type⟩ => do
    let plan ← compilePending compile scope shape body fragment
    return (⟨.query shape plan, fragment, type⟩, [])
  | ⟨.row items, fragment, type⟩ => do
    let (items, free) ← bindListIn compile scope items
    return (⟨.row items, fragment, type⟩, free)
  | ⟨.values rows, fragment, type⟩ => do
    let (rows, free) ← bindListIn compile scope rows
    return (⟨.values rows, fragment, type⟩, free)
  | ⟨.unary op operand, fragment, type⟩ => do
    let (operand, free) ← bindIn compile scope operand
    return (⟨.unary op operand, fragment, type⟩, free)
  | ⟨.binary op left right, fragment, type⟩ => do
    let (left, free) ← bindIn compile scope left
    let (right, more) ← bindIn compile scope right
    return (⟨.binary op left right, fragment, type⟩, free ++ more)
  | ⟨.isNull operand negated, fragment, type⟩ => do
    let (operand, free) ← bindIn compile scope operand
    return (⟨.isNull operand negated, fragment, type⟩, free)
  | ⟨.call name builtin arguments, fragment, type⟩ => do
    let builtin ← findBuiltin name builtin fragment
    let (arguments, free) ← bindListIn compile scope arguments
    return (⟨.call name (some builtin) arguments, fragment, type⟩, free)
  | ⟨.constant value, fragment, type⟩ => return (⟨.constant value, fragment, type⟩, [])
  | ⟨.parameter marker, fragment, type⟩ => return (⟨.parameter marker, fragment, type⟩, [])
  | ⟨.defaultMarker, fragment, type⟩ => return (⟨.defaultMarker, fragment, type⟩, [])
  | ⟨.query shape plan, fragment, type⟩ => return (⟨.query shape plan, fragment, type⟩, [])
  | ⟨.diagnostics item, fragment, type⟩ => return (⟨.diagnostics item, fragment, type⟩, [])

def bindListIn (compile : QueryCompiler) (scope : Scope) :
    List Expr → Compiler (List Expr × List FreeColumn)
  | [] => return ([], [])
  | e :: es => do
    let (e, free) ← bindIn compile scope e
    let (es, more) ← bindListIn compile scope es
    return (e :: es, free ++ more)

end

/-- Refuses columns that no range has. -/
def checkBound (free : List FreeColumn) : Except Error Unit :=
  match free with
  | [] => .ok ()
  | first :: _ => .error ⟨.unresolvedReference (free.map (·.text)), first.fragment⟩

/-- Binds all references of an expression. -/
def bindWith (compile : QueryCompiler) (scope : Scope) (e : Expr) : Compiler Expr := do
  let (e, free) ← bindIn compile scope e
  checkBound free
  return e

/-- Binds and types an expression. -/
def resolveWith (compile : QueryCompiler) (scope : Scope) (e : Expr) : Compiler Expr := do
  infer (← bindWith compile scope e)

/-- Binds and types a condition. -/
def resolveConditionWith (compile : QueryCompiler) (scope : Scope) (e : Expr) : Compiler Expr := do
  inferCondition (← bindWith compile scope e)

end Expr

end DataChange
