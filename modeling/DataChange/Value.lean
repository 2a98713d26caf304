import DataChange.Decimal.Shortest
import DataChange.SqlType

/-!
# Literal values

A value written in a statement: NULL, a truth value, a whole number, a floating number or a text.
-/

namespace DataChange

/-- A literal of a statement. -/
inductive Value where
  | null
  | boolean (b : Bool)
  | bigint (n : Int64)
  | double (x : Float)
  | varchar (s : String)
  deriving DecidableEq, Repr, Inhabited

namespace Value

/-- The type of a literal. -/
def type : Value → SqlType
  | null => .undefined
  | boolean _ => .boolean
  | bigint _ => .bigint
  | double _ => .double
  | varchar _ => .varchar

def isNull : Value → Bool
  | null => true
  | _ => false

/-- The characters of a text between quotes: a quote among them stands twice. -/
def doubleQuotes : List Char → List Char
  | [] => []
  | c :: cs => if c = '\x27' then '\x27' :: '\x27' :: doubleQuotes cs else c :: doubleQuotes cs

/-- A text between quotes. -/
def quoted (s : String) : String :=
  "'" ++ String.ofList (doubleQuotes s.toList) ++ "'"

/-- A literal as a statement spells it. -/
def text : Value → String
  | null => "NULL"
  | boolean true => "TRUE"
  | boolean false => "FALSE"
  | bigint n => toString n.toInt
  | double x => Decimal.text x
  | varchar s => quoted s

end Value

end DataChange
