import DataChange.Range.Basic

/-!
# Scopes

A free column is sought among the ranges of the expression itself, and then in the enclosing
groups from the innermost out. The first group that has it decides: if two of its ranges have it,
the reference is ambiguous.
-/

namespace DataChange

/-- The ranges that an expression can refer to. -/
structure Scope where
  /-- The ranges of the expression itself. -/
  ranges : List Range
  /-- The enclosing groups, the innermost last. -/
  outer : List RangeGroup

namespace Scope

/-- Only the enclosing groups. -/
def outerOnly (outer : List RangeGroup) : Scope :=
  ⟨[], outer⟩

/-- The column of a range that a qualifier and a name refer to. -/
def matchRange (qualifier : Option String) (name : String) (r : Range) : Option Binding :=
  if qualifier.all r.isNamed then
    match r.columnIndex? name with
    | some column => some ⟨r.id, column, r.columns[column].type, r.isVariables⟩
    | none => none
  else none

/-- The column of one range of a group. -/
def lookupIn (group : List Range) (ref : ColumnRef) (fragment : Fragment) :
    Except Error (Option Binding) :=
  match group.filterMap (matchRange ref.qualifier ref.name) with
  | [] => .ok none
  | [binding] => .ok (some binding)
  | _ => .error ⟨.ambiguousReference ref.name, fragment⟩

/-- The column in the first of some groups that has it. -/
def lookupFirst (ref : ColumnRef) (fragment : Fragment) :
    List RangeGroup → Except Error (Option Binding)
  | [] => .ok none
  | group :: groups =>
    match lookupIn group ref fragment with
    | .ok none => lookupFirst ref fragment groups
    | found => found

/-- The groups in the order in which they are searched. -/
def groups (scope : Scope) : List RangeGroup :=
  scope.ranges :: scope.outer.reverse

/-- The column that a reference stands for. -/
def lookup (scope : Scope) (ref : ColumnRef) (fragment : Fragment) :
    Except Error (Option Binding) :=
  lookupFirst ref fragment scope.groups

/-- The groups that enclose a subquery of the expression. -/
def within (scope : Scope) : Except Error (List RangeGroup) :=
  if scope.ranges.isEmpty then .ok scope.outer
  else (RangeGroup.ofRanges scope.ranges).map fun group => scope.outer ++ [group]

end Scope

end DataChange
