import DataChange.Error.Basic
import DataChange.Expr.Nodes

/-!
# Ranges

Making ranges and looking at them. The ranges of one group have distinct names.
-/

namespace DataChange

/-- Ranges visible together, searched as one. -/
abbrev RangeGroup := List Range

/-- The name in the place of a table for the row that an INSERT proposes. -/
def newRowName : String := "VALUES"

namespace Range

/-- A range of which no column is read yet. -/
def fresh (id : Nat) (name : String) (source : RangeSource) (columns : List Attribute)
    (fragment : Fragment) : Range :=
  ⟨id, name, source, columns, columns.map fun _ => false, none, fragment⟩

/-- A range over a relation, under its own name or an alias. -/
def ofRelation (id : Nat) (relation : Relation) (asName : Option String) (fragment : Fragment) :
    Range :=
  fresh id (asName.getD relation.name) (.relation relation)
    (relation.columns.map Column.toAttribute) fragment

/-- A range over the variables of a routine. -/
def ofVariables (id : Nat) (name : String) (columns : List Attribute) (fragment : Fragment) :
    Range :=
  fresh id name .routineVariables columns fragment

/-- The ordinal of the first column with a name. -/
def columnIndex? (r : Range) (name : String) : Option (Fin r.columns.length) :=
  r.columns.findFinIdx? fun c => Text.sameName c.name name

/-- Whether a qualifier names the range. -/
def isNamed (r : Range) (qualifier : String) : Bool :=
  Text.sameName r.name qualifier

def isVariables (r : Range) : Bool :=
  match r.source with
  | .routineVariables => true
  | _ => false

/-- The relation behind the range. -/
def relation? (r : Range) : Option Relation :=
  match r.source with
  | .relation relation => some relation
  | _ => none

/-- The range with a further part of its join condition. -/
def addJoin (r : Range) (condition : Expr) : Range :=
  { r with join := Expr.and? r.join (some condition) }

/-- The range with all its columns read. -/
def markAllUsed (r : Range) : Range :=
  { r with used := r.used.map fun _ => true }

/-- Whether an expression reads a column of the range. -/
def isReadBy (r : Range) (e : Expr) (column : Nat) : Bool :=
  e.nodes.any fun node => node.binding?.any fun b => b.range == r.id && b.column == column

/-- The range with the columns marked that an expression reads. -/
def markUsed (r : Range) (e : Expr) : Range :=
  { r with used := r.used.mapIdx fun column used => used || r.isReadBy e column }

/-- References to all columns of the range, qualified or not. -/
def allColumns (r : Range) (qualifier : Option String) (fragment : Fragment) : List Expr :=
  r.columns.mapIdx fun i column =>
    Expr.boundColumn qualifier column r.id i r.isVariables fragment

end Range

namespace RangeGroup

/-- The first range whose name an earlier one has. -/
def clash? (earlier : List Range) : List Range → Option Range
  | [] => none
  | r :: rs => if earlier.any (·.isNamed r.name) then some r else clash? (earlier ++ [r]) rs

/-- The group of some ranges, which must have distinct names. -/
def ofRanges (ranges : List Range) : Except Error RangeGroup :=
  match clash? [] ranges with
  | some r => .error ⟨.duplicateRangeName r.name, r.fragment⟩
  | none => .ok ranges

end RangeGroup

end DataChange
