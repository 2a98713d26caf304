import DataChange.Name
import DataChange.SqlType

/-!
# Routines

Procedures and functions with their parameters. Routines of one name differ in their arity.
-/

namespace DataChange

/-- The direction in which an argument passes values. -/
inductive ParameterMode where
  | input
  | output
  | both
  deriving DecidableEq, Repr

/-- Whether the routine writes to the argument. -/
def ParameterMode.isWriteable : ParameterMode → Bool
  | input => false
  | output | both => true

/-- A parameter of a routine. -/
structure RoutineParameter where
  name : String
  type : SqlType
  mode : ParameterMode
  deriving DecidableEq, Repr

inductive RoutineKind where
  | procedure
  | function
  deriving DecidableEq, Repr

/-- A routine that can be called. -/
structure Routine where
  id : Nat
  schemaId : Nat
  schemaName : String
  name : String
  kind : RoutineKind
  parameters : List RoutineParameter
  returns : Option SqlType
  deriving DecidableEq, Repr

namespace Routine

def qualifiedName (r : Routine) : QualifiedName :=
  ⟨some r.schemaName, r.name⟩

def arity (r : Routine) : Nat :=
  r.parameters.length

end Routine

end DataChange
