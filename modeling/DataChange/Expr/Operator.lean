import DataChange.Token.Symbol
import DataChange.Text.Case

/-!
# Operators and built-in functions

The operators of expressions and their levels: the higher the level, the tighter an operator
binds.
-/

namespace DataChange

/-- An operator with one operand. -/
inductive UnaryOp where
  | not
  | negate
  | plus
  deriving DecidableEq, Repr

/-- An operator between two operands. -/
inductive BinaryOp where
  | and
  | or
  | equal
  | notEqual
  | less
  | lessEqual
  | greater
  | greaterEqual
  | add
  | subtract
  | multiply
  | divide
  | remainder
  | concat
  deriving DecidableEq, Repr

/-- How tight an operator binds. -/
inductive Level where
  | lowest
  | disjunction
  | conjunction
  | negation
  | comparison
  | sum
  | product
  | sign
  deriving DecidableEq, Repr

/-- The levels from the loosest up. -/
def Level.rank : Level → Nat
  | lowest => 0
  | disjunction => 1
  | conjunction => 2
  | negation => 3
  | comparison => 4
  | sum => 5
  | product => 6
  | sign => 7

/-- A function that every statement can call. -/
inductive Builtin where
  | coalesce
  | upper
  | lower
  | abs
  | length
  deriving DecidableEq, Repr

/-- The function with a name, in any case. -/
def Builtin.ofName? (name : String) : Option Builtin :=
  match Text.upperCase name with
  | "COALESCE" => some coalesce
  | "UPPER" => some upper
  | "LOWER" => some lower
  | "ABS" => some abs
  | "LENGTH" => some length
  | "CHAR_LENGTH" => some length
  | _ => none

def UnaryOp.text : UnaryOp → String
  | not => "NOT "
  | negate => "-"
  | plus => "+"

namespace BinaryOp

def text : BinaryOp → String
  | and => "AND"
  | or => "OR"
  | equal => "="
  | notEqual => "<>"
  | less => "<"
  | lessEqual => "<="
  | greater => ">"
  | greaterEqual => ">="
  | add => "+"
  | subtract => "-"
  | multiply => "*"
  | divide => "/"
  | remainder => "%"
  | concat => "||"

def isComparison : BinaryOp → Bool
  | equal | notEqual | less | lessEqual | greater | greaterEqual => true
  | _ => false

def isLogical : BinaryOp → Bool
  | and | or => true
  | _ => false

def level : BinaryOp → Level
  | or => .disjunction
  | and => .conjunction
  | equal | notEqual | less | lessEqual | greater | greaterEqual => .comparison
  | add | subtract | concat => .sum
  | multiply | divide | remainder => .product

/-- The operator that a symbol stands for between two operands. -/
def ofSymbol? : Symbol → Option BinaryOp
  | .equal => some equal
  | .notEqual => some notEqual
  | .less => some less
  | .lessEqual => some lessEqual
  | .greater => some greater
  | .greaterEqual => some greaterEqual
  | .plus => some add
  | .minus => some subtract
  | .concat => some concat
  | .asterisk => some multiply
  | .slash => some divide
  | .percent => some remainder
  | _ => none

end BinaryOp

end DataChange
