import DataChange.Compiler.Monad
import DataChange.Decimal.Reading

/-!
# Reading expressions

An operand is read first and then extended by the operators that bind tighter than the level
asked for. Column references come out free, and a subquery as the tokens of its body.
-/

namespace DataChange

namespace Expr

/-! ## Operands -/

/-- The number of the next question mark. -/
def nextMarker : Parser Nat := do
  let s ← get
  set { s with parameters := s.parameters + 1 }
  return s.parameters

/-- The operand under a minus; the sign of a number goes into the literal. -/
def negated (operand : Expr) (minus : Fragment) : Parser Expr :=
  match operand.kind with
  | .constant (.bigint n) =>
    if n = Int64.minValue then throw .outOfRange
    else return literal (.bigint (-n)) (minus.withText ("-" ++ (Value.bigint n).text))
  | .constant (.double x) =>
    return literal (.double (-x)) (minus.withText ("-" ++ (Value.double x).text))
  | _ => return untyped (.unary .negate operand) minus

/-- What follows a name: the arguments of a function, a qualified column or nothing. -/
def named (expressions : Parser (List Expr)) (name : Token) : Parser Expr := do
  if ← Reader.skipSymbol .openParen then
    let arguments ← if (← get).cursor.isSymbol .closeParen then pure [] else expressions
    let _ ← Reader.symbol .closeParen
    return untyped (.call name.text none arguments) name.fragment
  else
    match (← get).cursor.rest with
    | dot :: column :: _ =>
      if dot.isSymbol .dot && column.isIdentifier then
        modify fun s => { s with cursor := s.cursor.advance 2 }
        return untyped (.column ⟨some name.text, column.text, none⟩) column.fragment
      else return untyped (.column ⟨none, name.text, none⟩) name.fragment
    | _ => return untyped (.column ⟨none, name.text, none⟩) name.fragment

/-- The items of a row up to its closing bracket; a single one is itself. -/
def rowItems (expressions : Parser (List Expr)) : Parser Expr := do
  let start := (← get).cursor.fragment
  match ← expressions with
  | [item] => return item
  | items => return untyped (.row items) start

/-- What stands between brackets: a subquery, a row or an expression. -/
def inBrackets (expressions : Parser (List Expr)) (fragment : Fragment) : Parser Expr := do
  if (← get).cursor.startsQuery then
    let body ← Reader.parenthesised
    return untyped (.pending .scalar body) fragment
  else
    let row ← rowItems expressions
    let _ ← Reader.symbol .closeParen
    return row

/-- An operand without a sign. -/
def primary (expressions : Parser (List Expr)) : Parser Expr := do
  let t ← Reader.next
  let fragment := t.fragment
  match t.kind with
  | .integer =>
    match Decimal.readInt64? t.text with
    | some n => return literal (.bigint n) fragment
    | none => reject (.unexpected .integerInRange fragment)
  | .decimal =>
    match Decimal.readDouble? t.text with
    | some x => return literal (.double x) fragment
    | none => reject (.unexpected .expression fragment)
  | .string => return literal (.varchar t.text) fragment
  | .keyword .TRUE => return literal (.boolean true) fragment
  | .keyword .FALSE => return literal (.boolean false) fragment
  | .keyword .NULL => return literal .null fragment
  | .keyword .DEFAULT => return untyped .defaultMarker fragment
  | .parameter => return untyped (.parameter ⟨← nextMarker, false, false⟩) fragment
  | .keyword .ROW =>
    let _ ← Reader.symbol .openParen
    let items ← expressions
    let _ ← Reader.symbol .closeParen
    return untyped (.row items) fragment
  | .symbol .openParen => inBrackets expressions fragment
  | _ => if t.isIdentifier then named expressions t else reject (.unexpected .expression fragment)

/-- An operand with the operators before it. -/
def operand (parse : Level → Parser Expr) : Parser Expr := do
  let t ← Reader.current
  match t.kind with
  | .keyword .NOT =>
    let _ ← Reader.next
    return untyped (.unary .not (← parse .negation)) t.fragment
  | .symbol .minus =>
    let _ ← Reader.next
    negated (← parse .sign) t.fragment
  | .symbol .plus =>
    let _ ← Reader.next
    return untyped (.unary .plus (← parse .sign)) t.fragment
  | _ => primary (commaSeparated (parse .lowest))

/-! ## Operators -/

/-- The level of the operator that a token is. -/
def levelOf (t : Token) : Level :=
  match t.kind with
  | .symbol s => ((BinaryOp.ofSymbol? s).map (·.level)).getD .lowest
  | .keyword .OR => .disjunction
  | .keyword .AND => .conjunction
  | .keyword .IS => .comparison
  | _ => .lowest

/-- The operator between two operands that a token is. -/
def operatorOf? (t : Token) : Option BinaryOp :=
  match t.kind with
  | .symbol s => BinaryOp.ofSymbol? s
  | .keyword .OR => some .or
  | .keyword .AND => some .and
  | _ => none

/-- Reads an operator and what belongs to it on its right. -/
def operation (parse : Level → Parser Expr) (left : Expr) : Parser Expr := do
  let t ← Reader.next
  if t.isKeyword .IS then
    let negated ← Reader.skipKeyword .NOT
    let _ ← Reader.keyword .NULL
    return untyped (.isNull left negated) t.fragment
  else
    match operatorOf? t with
    | some op => return untyped (.binary op left (← parse op.level)) t.fragment
    | none => reject (.unexpected .operator t.fragment)

/-- Extends an operand by the operators that bind tighter than a level, at most `bound` ones. -/
def extendWithin (parse : Level → Parser Expr) (level : Level) : Nat → Expr → Parser Expr
  | 0, left => return left
  | bound + 1, left => do
    match (← get).cursor.rest with
    | [] => return left
    | t :: _ =>
      if level.rank ≥ (levelOf t).rank then return left
      else extendWithin parse level bound (← operation parse left)

/-- An expression nested at most `bound` deep whose operators bind tighter than a level. -/
def parseWithin : Nat → Level → Parser Expr
  | 0, _ => do reject ((← get).cursor.endedBefore .anyToken)
  | bound + 1, level => do
    let left ← operand (parseWithin bound)
    extendWithin (parseWithin bound) level (← remaining) left

/-- An expression whose operators bind tighter than a level. An operator or a bracket stands before
each further level of nesting, so the tokens to come bound the depth. -/
def parseAt (level : Level) : Parser Expr := do
  parseWithin ((← remaining) + 1) level

/-- An expression. -/
def parse : Parser Expr :=
  parseAt .lowest

/-- Expressions between commas. -/
def parseList : Parser (List Expr) :=
  commaSeparated parse

/-- The items of a row between brackets; a single one is itself. -/
def parseRow : Parser Expr :=
  rowItems parseList

end Expr

end DataChange
