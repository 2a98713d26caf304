import DataChange.Expr.Basic

/-!
# The text of an expression

Operands that are themselves operations between two operands stand in brackets.
-/

namespace DataChange

def DiagnosticsItem.text : DiagnosticsItem → String
  | rowCount => "ROW_COUNT"
  | more => "MORE"

def ColumnRef.text (ref : ColumnRef) : String :=
  match ref.qualifier with
  | some qualifier => qualifier ++ "." ++ ref.name
  | none => ref.name

namespace Expr

/-- Brackets around the text of an operation between two operands. -/
def bracketed (kind : ExprKind) (text : String) : String :=
  match kind with
  | .binary .. => "(" ++ text ++ ")"
  | _ => text

mutual

/-- The text of an expression. -/
def text : Expr → String
  | ⟨kind, _, _⟩ => kindText kind

def kindText : ExprKind → String
  | .constant value => value.text
  | .parameter _ => "?"
  | .column ref => ref.text
  | .defaultMarker => "DEFAULT"
  | .row items => "(" ++ ", ".intercalate (texts items) ++ ")"
  | .values rows => "VALUES " ++ ", ".intercalate (texts rows)
  | .pending .. => "(<subquery>)"
  | .query .. => "(<subquery>)"
  | .diagnostics item => item.text
  | .unary op operand => op.text ++ bracketed operand.kind (text operand)
  | .binary op left right =>
    bracketed left.kind (text left) ++ " " ++ op.text ++ " " ++ bracketed right.kind (text right)
  | .isNull operand negated =>
    bracketed operand.kind (text operand) ++ if negated then " IS NOT NULL" else " IS NULL"
  | .call name _ arguments =>
    Text.upperCase name ++ "(" ++ ", ".intercalate (texts arguments) ++ ")"

def texts : List Expr → List String
  | [] => []
  | e :: es => text e :: texts es

end

end Expr

end DataChange
