import DataChange.Error.Basic
import DataChange.Expr.Basic

/-!
# Types of expressions

`infer` gives every node of a bound expression its type, operands first. Rows, DEFAULT and
parameters of which nothing tells the type keep none; a parameter beside a typed operand takes its
type from there. `inferScalar` wants a single value, `inferCondition` a truth value.
-/

namespace DataChange

namespace Expr

/-- Refuses what is not a single value. -/
def checkScalar (e : Expr) : Except Error Unit :=
  match e.kind with
  | .defaultMarker => .error (.unexpected .valueNotDefault e.fragment)
  | .row _ | .values _ => .error (.degree 1 e.degree e.fragment)
  | .pending (.row _) _ | .query (.row _) _ => .error (.degree 1 e.degree e.fragment)
  | _ => .ok ()

/-- The typed form of an expression that has to be a single value. -/
def asScalar (e : Expr) (typed : Except Error Expr) : Except Error Expr :=
  match checkScalar e with
  | .ok _ => typed
  | .error err => .error err

/-! ## Operators -/

/-- A truth value or NULL. -/
def isLogical (t : SqlType) : Bool :=
  t = .boolean || t = .undefined

/-- A number or NULL. -/
def isNumeric (t : SqlType) : Bool :=
  t.isNumber || t = .undefined

/-- A text or NULL. -/
def isCharacter (t : SqlType) : Bool :=
  t = .varchar || t = .undefined

/-- The operand of an operator with its type settled, and the type of the operation. -/
def typeUnary (op : UnaryOp) (operand : Expr) (fragment : Fragment) :
    Except Error (Expr × SqlType) :=
  match op, operand.type? with
  | .not, none => .ok (operand.withType .boolean, .boolean)
  | .not, some t =>
    if isLogical t then .ok (operand, .boolean) else .error (.clash (.notOperand t) fragment)
  | _, none => .error (.clash .untypedSign fragment)
  | _, some t => if isNumeric t then .ok (operand, t) else .error (.clash (.signOperand t) fragment)

/-- The type that a parameter takes from the other operand. -/
def parameterType (op : BinaryOp) (other : SqlType) : SqlType :=
  if op.isLogical then .boolean else if op = .concat then .varchar else other

/-- The types of the operands, each untyped one settled by the other. -/
def operandTypes (op : BinaryOp) (left right : Option SqlType) (fragment : Fragment) :
    Except Error (SqlType × SqlType) :=
  match left, right with
  | some l, some r => .ok (l, r)
  | none, some r => .ok (parameterType op r, r)
  | some l, none => .ok (l, parameterType op l)
  | none, none =>
    if op.isLogical then .ok (.boolean, .boolean)
    else .error (.clash (.untypedOperands op) fragment)

/-- The type of an operation between two operands. -/
def resultType (op : BinaryOp) (l r : SqlType) (fragment : Fragment) : Except Error SqlType :=
  if op.isLogical then
    if isLogical l && isLogical r then .ok .boolean
    else .error (.clash (.logicalOperands op l r) fragment)
  else if op.isComparison then
    if l.comparable r then .ok .boolean else .error (.clash (.comparison l r) fragment)
  else if op = .concat then
    if (isCharacter l || l.isNumber) && (isCharacter r || r.isNumber) then .ok .varchar
    else .error (.clash (.concatenation l r) fragment)
  else
    match SqlType.promote l r with
    | some t => if isNumeric t then .ok t else .error (.clash (.arithmetic op l r) fragment)
    | none => .error (.clash (.arithmetic op l r) fragment)

/-- An operation between two typed operands. -/
def typeBinary (op : BinaryOp) (left right : Expr) (fragment : Fragment) : Except Error Expr :=
  match operandTypes op left.type? right.type? fragment with
  | .error e => .error e
  | .ok (l, r) =>
    match resultType op l r fragment with
    | .error e => .error e
    | .ok t => .ok ⟨.binary op (left.withType l) (right.withType r), fragment, some t⟩

/-! ## Functions -/

/-- A type joined to the common type of the arguments before it. -/
def joinType (common : Option SqlType) (argument : Expr) : Except Error (Option SqlType) :=
  match common, argument.type? with
  | common, none => .ok common
  | none, some t => .ok (some t)
  | some c, some t =>
    match SqlType.promote c t with
    | some joined => .ok (some joined)
    | none => .error (.clash (.coalesce c t) argument.fragment)

/-- A parameter without a type takes the given one. -/
def settle (type : SqlType) (e : Expr) : Expr :=
  if e.isUntypedParameter then e.withType type else e

/-- The argument of a function over texts. -/
def typeCharacter (argument : Expr) : Except Error Expr :=
  match argument.type? with
  | none => .ok (argument.withType .varchar)
  | some t =>
    if isCharacter t then .ok argument
    else .error (.clash (.characterArgument t) argument.fragment)

/-- A function of one typed argument: the argument and the type of the result. -/
def typeSingle (builtin : Builtin) (argument : Expr) : Except Error (Expr × SqlType) :=
  match builtin with
  | .abs =>
    match argument.type? with
    | none => .error (.clash .untypedAbs argument.fragment)
    | some t =>
      if isNumeric t then .ok (argument, t)
      else .error (.clash (.numberArgument t) argument.fragment)
  | .length => (typeCharacter argument).map fun a => (a, .integer)
  | _ => (typeCharacter argument).map fun a => (a, .varchar)

/-! ## Inference -/

mutual

/-- Gives every node its type. -/
def infer : Expr → Except Error Expr
  | ⟨.constant value, fragment, _⟩ => .ok ⟨.constant value, fragment, some value.type⟩
  | ⟨.parameter marker, fragment, type⟩ => .ok ⟨.parameter marker, fragment, type⟩
  | ⟨.defaultMarker, fragment, _⟩ => .ok ⟨.defaultMarker, fragment, none⟩
  | ⟨.column ref, fragment, _⟩ =>
    match ref.binding with
    | some binding => .ok ⟨.column ref, fragment, some binding.type⟩
    | none => .error ⟨.unresolvedReference [ref.name], fragment⟩
  | ⟨.row items, fragment, _⟩ =>
    match inferList items with
    | .ok items => .ok ⟨.row items, fragment, none⟩
    | .error e => .error e
  | ⟨.values rows, fragment, _⟩ =>
    match inferList rows with
    | .ok rows => .ok ⟨.values rows, fragment, none⟩
    | .error e => .error e
  | ⟨.pending _ _, fragment, _⟩ => .error (.unexpected .resolvedQuery fragment)
  | ⟨.query .scalar plan, fragment, _⟩ =>
    .ok ⟨.query .scalar plan, fragment, plan.columns.head?.map (·.type)⟩
  | ⟨.query (.row degree) plan, fragment, _⟩ => .ok ⟨.query (.row degree) plan, fragment, none⟩
  | ⟨.diagnostics .rowCount, fragment, _⟩ => .ok ⟨.diagnostics .rowCount, fragment, some .bigint⟩
  | ⟨.diagnostics .more, fragment, _⟩ => .ok ⟨.diagnostics .more, fragment, some .varchar⟩
  | ⟨.unary op operand, fragment, _⟩ =>
    match asScalar operand (infer operand) with
    | .error e => .error e
    | .ok operand =>
      match typeUnary op operand fragment with
      | .ok (operand, t) => .ok ⟨.unary op operand, fragment, some t⟩
      | .error e => .error e
  | ⟨.binary op left right, fragment, _⟩ =>
    match asScalar left (infer left) with
    | .error e => .error e
    | .ok left =>
      match asScalar right (infer right) with
      | .error e => .error e
      | .ok right => typeBinary op left right fragment
  | ⟨.isNull operand negated, fragment, _⟩ =>
    match asScalar operand (infer operand) with
    | .error e => .error e
    | .ok operand =>
      match operand.type? with
      | some _ => .ok ⟨.isNull operand negated, fragment, some .boolean⟩
      | none => .error (.clash .untypedNullTest operand.fragment)
  | ⟨.call _ none _, fragment, _⟩ => .error (.unexpected .resolvedFunction fragment)
  | ⟨.call name (some .coalesce) arguments, fragment, _⟩ =>
    if arguments.isEmpty then .error (.degree 1 0 fragment)
    else
      match inferCommon none arguments with
      | .error e => .error e
      | .ok (_, none) => .error (.clash .untypedCoalesce fragment)
      | .ok (arguments, some t) =>
        .ok ⟨.call name (some .coalesce) (arguments.map (settle t)), fragment, some t⟩
  | ⟨.call name (some builtin) arguments, fragment, _⟩ =>
    match arguments with
    | [argument] =>
      match asScalar argument (infer argument) with
      | .error e => .error e
      | .ok argument =>
        match typeSingle builtin argument with
        | .ok (argument, t) => .ok ⟨.call name (some builtin) [argument], fragment, some t⟩
        | .error e => .error e
    | arguments => .error (.degree 1 arguments.length fragment)

def inferList : List Expr → Except Error (List Expr)
  | [] => .ok []
  | e :: es =>
    match infer e with
    | .error err => .error err
    | .ok e =>
      match inferList es with
      | .ok es => .ok (e :: es)
      | .error err => .error err

/-- Gives single values their types and joins them to a common one. -/
def inferCommon (common : Option SqlType) : List Expr → Except Error (List Expr × Option SqlType)
  | [] => .ok ([], common)
  | e :: es =>
    match asScalar e (infer e) with
    | .error err => .error err
    | .ok e =>
      match joinType common e with
      | .error err => .error err
      | .ok common =>
        match inferCommon common es with
        | .ok (es, common) => .ok (e :: es, common)
        | .error err => .error err

end

/-- Gives a single value its type. -/
def inferScalar (e : Expr) : Except Error Expr :=
  asScalar e (infer e)

/-- Gives a condition its type, which must be that of a truth value; a parameter becomes one. -/
def inferCondition (e : Expr) : Except Error Expr :=
  match inferScalar e with
  | .error err => .error err
  | .ok e =>
    match e.type? with
    | none => .ok (e.withType .boolean)
    | some .boolean => .ok e
    | some t => .error (.clash (.condition t) e.fragment)

/-- Refuses a value whose type does not fit the column. -/
def checkAssignable (target : SqlType) (source : Expr) (column : String) : Except Error Unit :=
  match source.type? with
  | some t =>
    if target.assignableFrom t then .ok ()
    else .error (.clash (.assignment t column target) source.fragment)
  | none => .ok ()

end Expr

end DataChange
