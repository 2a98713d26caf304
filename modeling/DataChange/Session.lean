import DataChange.Statement.Compile
import DataChange.Target.Diagnostics

/-!
# Sessions

Parts of statements compiled by themselves within one state: scopes, range ids, parameters and
calls go on from one part to the next.
-/

namespace DataChange

namespace Session

/-- What a range is made over. -/
inductive RangeSpec where
  | relation (name : QualifiedName) (asName : Option String)
  | routineVariables (columns : List Attribute) (name : String)

/-- A new range. -/
def RangeSpec.make (env : Environment) : RangeSpec → Compiler Range
  | relation name asName => do
    let found ← env.relation name (.ofName (asName.getD name.name))
    Range.ofNew found asName (.ofName (asName.getD found.name))
  | routineVariables columns name => do
    return .ofVariables (← Compiler.newRange) name columns (.ofName name)

/-- Makes a group of new ranges the innermost scope. -/
def pushGroup (env : Environment) (specs : List RangeSpec) : Compiler (List Range) := do
  let ranges ← specs.mapM (RangeSpec.make env)
  let group ← RangeGroup.ofRanges ranges
  modify fun s => { s with outer := s.outer ++ [group] }
  return ranges

/-- Runs a computation on the tokens of a text, and gives the cursor where it ends. -/
def onText {α : Type} (text : String) (x : Compiler α) : Compiler (α × Cursor) := do
  let tokens ← tokenize text
  Compiler.onTokens tokens do
    let a ← x
    return (a, (← get).cursor)

/-- Compiles a query within the scopes of the session. -/
def query (env : Environment) (text : String) (expected : Query.Expectation) :
    Compiler (Plan × Cursor) :=
  onText text do Query.compile env (← Compiler.outerGroups) expected

/-- Reads a column list of a new range. -/
def columnList (env : Environment) (text : String) (spec : RangeSpec) (qualified : Bool) :
    Compiler (ColumnMap × Cursor) :=
  onText text do ColumnMap.read (← spec.make env) qualified

/-- Reads a target column of a new range. -/
def targetColumn (env : Environment) (text : String) (spec : RangeSpec) (qualified : Bool) :
    Compiler (TargetColumn × Cursor) :=
  onText text do TargetColumn.read (← spec.make env) qualified

/-- Reads the assignments of a SET clause to a new range. -/
def setClause (env : Environment) (text : String) (spec : RangeSpec) :
    Compiler (SetClause × Cursor) :=
  onText text do SetClause.read env.config.dialect.mysql (← spec.make env)

/-- Reads diagnostics assignments. -/
def diagnostics (text : String) : Compiler (List DiagnosticsAssignment × Cursor) :=
  onText text DiagnosticsAssignment.readList

end Session

end DataChange
