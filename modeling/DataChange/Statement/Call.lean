import DataChange.Query
import DataChange.Statement.Basic

/-!
# CALL

A CALL names a routine and gives it arguments, or it evaluates an expression over the enclosing
scopes. Of the routines with the name the first with as many parameters is called.
-/

namespace DataChange

namespace Call

def unknownRoutine (name : String) (fragment : Fragment) : Error :=
  ⟨.unknownTarget .routine name, fragment⟩

/-- The routines with a name. If a name without a namespace has none, a synonym is followed. -/
def findRoutines (env : Environment) (name : QualifiedName) : List Routine :=
  let default := env.config.defaultSchema
  let routines := env.catalog.routines? (name.schemaOr default) name.name
  if routines.isEmpty && name.schema.isNone then
    match env.catalog.synonym? default name.name with
    | some synonym => env.catalog.routines? (synonym.schemaOr default) synonym.name
    | none => []
  else routines

/-- Reads the arguments; in the dialect that allows it the brackets may be left out. -/
def readArguments (oracle : Bool) : Parser (List Expr) := do
  if ← Reader.skipSymbol .openParen then
    if ← Reader.skipSymbol .closeParen then return []
    else
      let arguments ← Expr.parseList
      let _ ← Reader.symbol .closeParen
      return arguments
  else if oracle then return []
  else reject (.unexpected (.symbol .openParen) (← get).cursor.fragment)

/-! ## Arguments -/

/-- Whether the types of an argument and a parameter fit in the direction of its mode. -/
def accepts (mode : ParameterMode) (parameter argument : SqlType) : Bool :=
  match mode with
  | .input => parameter.assignableFrom argument
  | .output => argument.assignableFrom parameter
  | .both => parameter.assignableFrom argument && argument.assignableFrom parameter

/-- A resolved argument for a parameter, at a position counted from one. -/
def checkArgument (routine : Routine) (parameter : RoutineParameter) (position : Nat)
    (argument : Expr) : Except Error Expr :=
  let name := routine.qualifiedName.text
  if parameter.mode.isWriteable && !argument.isVariable && !argument.isParameter then
    .error ⟨.invalidOutArgument name position, argument.fragment⟩
  else if argument.isUntypedParameter then
    .ok (argument.asColumn parameter.type parameter.mode.isWriteable)
  else
    match argument.type? with
    | none => .ok argument
    | some actual =>
      if accepts parameter.mode parameter.type actual then .ok argument
      else .error ⟨.argumentTypeMismatch name position parameter.type actual, argument.fragment⟩

/-- Resolves the arguments one after the other, each for its parameter. -/
def bindArguments (env : Environment) (routine : Routine) (scope : Scope) :
    Nat → List Expr → List RoutineParameter → Compiler (List Expr)
  | position, argument :: arguments, parameter :: parameters => do
    let argument ← argument.resolve env scope
    let argument ← checkArgument routine parameter position argument
    return argument :: (← bindArguments env routine scope (position + 1) arguments parameters)
  | _, arguments, _ => return arguments

/-- Notes that a routine is called. -/
def noteCall (routine : Routine) : Compiler Unit :=
  modify fun s => { s with calls := s.calls ++ [routine] }

/-- Compiles the call of one of some routines. -/
def compileRoutine (env : Environment) (name : QualifiedName) (fragment : Fragment)
    (routines : List Routine) : Compiler CallStatement := do
  let arguments ← readArguments env.config.dialect.oracle
  match routines.find? fun r => r.arity = arguments.length with
  | none =>
    reject (unknownRoutine (name.text ++ "/" ++ toString arguments.length) fragment)
  | some routine =>
    let scope := Scope.outerOnly (← Compiler.outerGroups)
    let arguments ← bindArguments env routine scope 1 arguments routine.parameters
    noteCall routine
    return ⟨.routine routine arguments, []⟩

/-! ## Expressions -/

/-- A name that is neither a variable nor a function is taken for a routine. -/
def asRoutineError (e : Error) : Error :=
  match e.cause with
  | .unresolvedReference names => unknownRoutine (", ".intercalate names) e.fragment
  | .unknownTarget .function name => unknownRoutine name e.fragment
  | _ => e

/-- Runs a computation and rewords its refusal. -/
def reword {α : Type} (f : Error → Error) (x : Compiler α) : Compiler α := fun s =>
  match x s with
  | .error (.rejected e) t => .error (.rejected (f e)) t
  | result => result

/-- Compiles the call of an expression. -/
def compileExpression (env : Environment) : Compiler CallStatement := do
  let e ← Expr.parse
  let scope := Scope.outerOnly (← Compiler.outerGroups)
  return ⟨.expression (← reword asRoutineError (e.resolve env scope)), []⟩

/-- Reads the name of a routine, if there is a name. -/
def readName? : Reader (Option (QualifiedName × Fragment)) := do
  if (← get).isIdentifier then return some (← Reader.qualifiedName) else return none

def compile (env : Environment) : Compiler CallStatement := do
  let _ ← Reader.keyword .CALL
  let start := (← get).cursor
  let name ← readName?
  let routines := (name.map fun (name, _) => findRoutines env name).getD []
  match name, routines with
  | some (name, fragment), routine :: others => compileRoutine env name fragment (routine :: others)
  | _, _ =>
    if env.config.strictCalls then
      match name with
      | some (name, fragment) => reject (unknownRoutine name.text fragment)
      | none => reject (unknownRoutine "" (← get).cursor.fragment)
    else
      modify fun s => { s with cursor := start }
      compileExpression env

end Call

end DataChange
