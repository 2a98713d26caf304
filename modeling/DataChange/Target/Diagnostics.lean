import DataChange.Query

/-!
# Diagnostics assignments

Variables of the enclosing routine receive facts about the last statement.
-/

namespace DataChange

/-- A variable and the item it receives. -/
structure DiagnosticsAssignment where
  target : Expr
  item : Expr

namespace DiagnosticsAssignment

/-- The variable that a reference names. -/
def bindVariable (outer : List RangeGroup) (target : Expr) :
    Except Error (Expr × ColumnRef × Binding) :=
  match target.kind with
  | .column ref =>
    match (Scope.outerOnly outer).lookup ref target.fragment with
    | .error e => .error e
    | .ok found =>
      match found.filter (·.isVariable) with
      | some binding =>
        let ref := { ref with binding := some binding }
        .ok (⟨.column ref, target.fragment, some binding.type⟩, ref, binding)
      | none => .error ⟨.unresolvedReference [ref.name], target.fragment⟩
  | _ => .error (.unexpected .routineVariable target.fragment)

/-- Reads the name of an item. -/
def readItem : Reader Expr := do
  let t ← Reader.next
  match t.kind with
  | .keyword .ROW_COUNT => return .untyped (.diagnostics .rowCount) t.fragment
  | .keyword .MORE => return .untyped (.diagnostics .more) t.fragment
  | _ => throw (.unexpected .diagnosticsItem t.fragment)

/-- Reads an assignment. -/
def read (outer : List RangeGroup) : Compiler DiagnosticsAssignment := do
  let target ← Expr.parseAt .comparison
  let (target, ref, binding) ← bindVariable outer target
  let _ ← Reader.symbol .equal
  let item ← (← readItem).infer
  Expr.checkAssignable binding.type item ref.name
  return ⟨target, item⟩

/-- Reads assignments between commas. -/
def readList : Compiler (List DiagnosticsAssignment) := do
  commaSeparated (read (← Compiler.outerGroups))

end DiagnosticsAssignment

end DataChange
