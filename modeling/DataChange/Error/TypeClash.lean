import DataChange.Expr.Operator
import DataChange.SqlType

/-!
# Clashes of types

The ways in which the types of an expression fail to fit, each with its wording.
-/

namespace DataChange

/-- Why the types of an expression do not fit. -/
inductive TypeClash where
  | condition (found : SqlType)
  | notOperand (found : SqlType)
  | signOperand (found : SqlType)
  | untypedSign
  | untypedNullTest
  | untypedOperands (op : BinaryOp)
  | logicalOperands (op : BinaryOp) (left right : SqlType)
  | comparison (left right : SqlType)
  | concatenation (left right : SqlType)
  | arithmetic (op : BinaryOp) (left right : SqlType)
  | coalesce (left right : SqlType)
  | untypedCoalesce
  | characterArgument (found : SqlType)
  | numberArgument (found : SqlType)
  | untypedAbs
  | assignment (source : SqlType) (column : String) (target : SqlType)
  /-- Two rows of a VALUES list differ in a column. -/
  | rows (left right : SqlType)
  /-- Nothing tells the type of a column, counted from one. -/
  | untypedColumn (position : Nat)
  | untypedSelection
  /-- A LIMIT or OFFSET that is no integer. -/
  | sliceBound
  deriving DecidableEq, Repr

def TypeClash.text : TypeClash → String
  | condition found => "search condition must be BOOLEAN, found " ++ found.name
  | notOperand found => "NOT requires BOOLEAN, found " ++ found.name
  | signOperand found => "sign operator requires a number, found " ++ found.name
  | untypedSign => "the type of a signed parameter cannot be determined"
  | untypedNullTest => "the type of a parameter tested with IS NULL cannot be determined"
  | untypedOperands op => "the types of both operands of " ++ op.text ++ " cannot be determined"
  | logicalOperands op left right =>
    op.text ++ " requires BOOLEAN operands, found " ++ left.name ++ " and " ++ right.name
  | comparison left right => "cannot compare " ++ left.name ++ " with " ++ right.name
  | concatenation left right => "cannot concatenate " ++ left.name ++ " and " ++ right.name
  | arithmetic op left right =>
    "operator " ++ op.text ++ " cannot combine " ++ left.name ++ " and " ++ right.name
  | coalesce left right => "COALESCE cannot combine " ++ left.name ++ " and " ++ right.name
  | untypedCoalesce => "the type of COALESCE cannot be determined"
  | characterArgument found => "character argument expected, found " ++ found.name
  | numberArgument found => "numeric argument expected, found " ++ found.name
  | untypedAbs => "the type of the ABS argument cannot be determined"
  | assignment source column target =>
    "cannot assign " ++ source.name ++ " to column " ++ column ++ " of type " ++ target.name
  | rows left right => "cannot combine " ++ left.name ++ " and " ++ right.name
  | untypedColumn position => "the type of column " ++ toString position ++ " cannot be determined"
  | untypedSelection => "the type of a selected value cannot be determined"
  | sliceBound => "LIMIT and OFFSET require an integer"

end DataChange
