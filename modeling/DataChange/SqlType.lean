import DataChange.Text.Case

/-!
# Types of columns and expressions

`promote` gives the common type of two operands, `assignableFrom` says which values a column
accepts. A bare NULL has the type `undefined`, which joins every type and goes into every column.
-/

namespace DataChange

/-- The types a column or an expression can have. -/
inductive SqlType where
  | boolean
  | smallint
  | integer
  | bigint
  | real
  | double
  | decimal
  | varchar
  | blob
  | date
  | timestamp
  | time
  /-- The type of a bare NULL. -/
  | undefined
  deriving DecidableEq, Repr, Inhabited

/-- A text that names no type. -/
structure UnknownType where
  text : String
  deriving DecidableEq, Repr

def UnknownType.message (e : UnknownType) : String :=
  "unknown type '" ++ e.text ++ "'"

namespace SqlType

/-! ## Classes -/

def isInteger : SqlType → Bool
  | smallint | integer | bigint => true
  | _ => false

def isFloating : SqlType → Bool
  | real | double => true
  | _ => false

def isNumber (t : SqlType) : Bool :=
  t.isInteger || t.isFloating || t == decimal

def isTemporal : SqlType → Bool
  | date | timestamp | time => true
  | _ => false

/-! ## Combining types -/

/-- The place of a number type among the others: the wider of two types ranks higher. -/
def rank : SqlType → Nat
  | smallint => 1
  | integer => 2
  | bigint => 3
  | decimal => 4
  | real => 5
  | double => 6
  | _ => 0

/-- The common type of two operands: `undefined` gives way to the other, of two numbers the wider
wins, and a character value is taken for a temporal one. -/
def promote (left right : SqlType) : Option SqlType :=
  if left = right then some left
  else if left = undefined then some right
  else if right = undefined then some left
  else if left.isNumber && right.isNumber then some (if left.rank ≥ right.rank then left else right)
  else if left.isTemporal && right = varchar then some left
  else if left = varchar && right.isTemporal then some right
  else none

/-- Whether a value of type `source` may be stored where `target` is declared. -/
def assignableFrom (target source : SqlType) : Bool :=
  target = source || source = undefined ||
    match target with
    | smallint | integer | bigint | decimal | real | double => source.isNumber
    | varchar | boolean => false
    | date | timestamp | time => source = varchar || source.isTemporal
    | blob => source = varchar
    | undefined => true

/-- Whether two values can be compared. -/
def comparable (left right : SqlType) : Bool :=
  (promote left right).isSome

/-! ## Names -/

/-- The name under which a type is reported. -/
def name : SqlType → String
  | boolean => "BOOLEAN"
  | smallint => "SMALLINT"
  | integer => "INTEGER"
  | bigint => "BIGINT"
  | real => "REAL"
  | double => "DOUBLE"
  | decimal => "DECIMAL"
  | varchar => "VARCHAR"
  | blob => "BLOB"
  | date => "DATE"
  | timestamp => "TIMESTAMP"
  | time => "TIME"
  | undefined => "UNDEFINED"

/-- The names a declaration may use, in capitals. -/
def declared : List (String × SqlType) :=
  [("BOOL", boolean), ("BOOLEAN", boolean), ("INT2", smallint), ("SMALLINT", smallint),
   ("INT", integer), ("INT4", integer), ("INTEGER", integer), ("INT8", bigint), ("BIGINT", bigint),
   ("FLOAT4", real), ("REAL", real), ("FLOAT8", double), ("DOUBLE", double), ("FLOAT", double),
   ("DECIMAL", decimal), ("NUMERIC", decimal), ("TEXT", varchar), ("VARCHAR", varchar),
   ("CHAR", varchar), ("UTF8", varchar), ("BLOB", blob), ("DATE", date), ("TIMESTAMP", timestamp),
   ("DATETIME", timestamp), ("TIME", time)]

/-- The type a declaration names, in any case. -/
def ofName (text : String) : Except UnknownType SqlType :=
  match declared.lookup (Text.upperCase text) with
  | some t => .ok t
  | none => .error ⟨text⟩

/-! ## Laws -/

@[simp] theorem promote_self (t : SqlType) : promote t t = some t := by
  simp [promote]

theorem promote_comm (s t : SqlType) : promote s t = promote t s := by
  cases s <;> cases t <;> rfl

@[simp] theorem undefined_promote (t : SqlType) : promote undefined t = some t := by
  cases t <;> rfl

@[simp] theorem assignableFrom_self (t : SqlType) : t.assignableFrom t = true := by
  simp [assignableFrom]

end SqlType

end DataChange
