import DataChange.Expr.Basic

/-!
# Replacing column references

`mapColumns` changes every column reference of an expression, in compiled subqueries too, and
leaves all else as it is. It fails where the change of one reference fails. `redirect` moves the
references to one range over to another.
-/

namespace DataChange

/-- A change of a column reference and of the type of its node. -/
abbrev ColumnChange := ColumnRef → Option SqlType → Option (ColumnRef × Option SqlType)

mutual

/-- Changes every column reference of an expression. -/
def Expr.mapColumns (change : ColumnChange) : Expr → Option Expr
  | ⟨.column ref, fragment, type⟩ =>
    (change ref type).map fun (ref, type) => ⟨.column ref, fragment, type⟩
  | ⟨.row items, fragment, type⟩ =>
    (Expr.mapColumnsOfList change items).map fun items => ⟨.row items, fragment, type⟩
  | ⟨.values rows, fragment, type⟩ =>
    (Expr.mapColumnsOfList change rows).map fun rows => ⟨.values rows, fragment, type⟩
  | ⟨.query shape plan, fragment, type⟩ =>
    (Plan.mapColumns change plan).map fun plan => ⟨.query shape plan, fragment, type⟩
  | ⟨.unary op operand, fragment, type⟩ =>
    (Expr.mapColumns change operand).map fun operand => ⟨.unary op operand, fragment, type⟩
  | ⟨.binary op left right, fragment, type⟩ =>
    match Expr.mapColumns change left, Expr.mapColumns change right with
    | some left, some right => some ⟨.binary op left right, fragment, type⟩
    | _, _ => none
  | ⟨.isNull operand negated, fragment, type⟩ =>
    (Expr.mapColumns change operand).map fun operand => ⟨.isNull operand negated, fragment, type⟩
  | ⟨.call name builtin arguments, fragment, type⟩ =>
    (Expr.mapColumnsOfList change arguments).map fun arguments =>
      ⟨.call name builtin arguments, fragment, type⟩
  | ⟨.constant value, fragment, type⟩ => some ⟨.constant value, fragment, type⟩
  | ⟨.parameter marker, fragment, type⟩ => some ⟨.parameter marker, fragment, type⟩
  | ⟨.defaultMarker, fragment, type⟩ => some ⟨.defaultMarker, fragment, type⟩
  | ⟨.pending shape body, fragment, type⟩ => some ⟨.pending shape body, fragment, type⟩
  | ⟨.diagnostics item, fragment, type⟩ => some ⟨.diagnostics item, fragment, type⟩

def Expr.mapColumnsOfList (change : ColumnChange) : List Expr → Option (List Expr)
  | [] => some []
  | e :: es =>
    match Expr.mapColumns change e, Expr.mapColumnsOfList change es with
    | some e, some es => some (e :: es)
    | _, _ => none

def Expr.mapColumnsOfOption (change : ColumnChange) : Option Expr → Option (Option Expr)
  | none => some none
  | some e => (Expr.mapColumns change e).map some

/-- Changes every column reference of the expressions of a plan. -/
def Plan.mapColumns (change : ColumnChange) : Plan → Option Plan
  | .select columns projection ranges condition =>
    match Expr.mapColumnsOfList change projection, Range.mapColumnsOfList change ranges,
      Expr.mapColumnsOfOption change condition with
    | some projection, some ranges, some condition =>
      some (.select columns projection ranges condition)
    | _, _, _ => none
  | .values columns rows => (Expr.mapColumns change rows).map (.values columns)

/-- Changes every column reference of the join condition of a range. -/
def Range.mapColumns (change : ColumnChange) : Range → Option Range
  | ⟨id, name, source, columns, used, join, fragment⟩ =>
    (Expr.mapColumnsOfOption change join).map fun join =>
      ⟨id, name, source, columns, used, join, fragment⟩

def Range.mapColumnsOfList (change : ColumnChange) : List Range → Option (List Range)
  | [] => some []
  | r :: rs =>
    match Range.mapColumns change r, Range.mapColumnsOfList change rs with
    | some r, some rs => some (r :: rs)
    | _, _ => none

end

/-- The change that moves the columns of the range `source` to those of `target` behind them: its
column `i` is column `columnMap[i]` of the target. Other references stay, and so do columns that
the map does not reach; a map that leads past the columns of the target is a failure. -/
def ColumnRef.redirect (source : Nat) (target : Range) (columnMap : List Nat) : ColumnChange :=
  fun ref type =>
    match ref.binding with
    | none => some (ref, type)
    | some binding =>
      if binding.range = source then
        match columnMap[binding.column]? with
        | none => some (ref, type)
        | some ordinal =>
          match target.columns[ordinal]? with
          | none => none
          | some column =>
            some ({ qualifier := ref.qualifier.map fun _ => target.name
                    name := column.name
                    binding := some ⟨target.id, ordinal, column.type, false⟩ }, some column.type)
      else some (ref, type)

/-- Moves the references to a range over to another one. -/
def Expr.redirect (source : Nat) (target : Range) (columnMap : List Nat) : Expr → Option Expr :=
  Expr.mapColumns (ColumnRef.redirect source target columnMap)

/-- The change that qualifies a free, unqualified reference. -/
def ColumnRef.qualifyFree (qualifier : String) : ColumnChange := fun ref type =>
  if ref.qualifier.isNone && ref.binding.isNone then
    some ({ ref with qualifier := some qualifier }, type)
  else some (ref, type)

/-- Qualifies the free, unqualified references of an expression. -/
def Expr.qualifyFree (qualifier : String) (e : Expr) : Expr :=
  (e.mapColumns (ColumnRef.qualifyFree qualifier)).getD e

end DataChange
