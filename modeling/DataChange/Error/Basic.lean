import DataChange.Error.Expected
import DataChange.Error.TypeClash
import DataChange.Operation

/-!
# Errors

An error is a cause and the fragment at fault. `Error.message` holds the wording of every cause.
A compilation can also fail for a flaw of the catalog or of a row, which has no fragment:
`Failure` tells the two apart.
-/

namespace DataChange

/-- The kinds of object that a name can fail to find. -/
inductive ObjectKind where
  | relation
  | schema
  | routine
  | function
  deriving DecidableEq, Repr

def ObjectKind.text : ObjectKind → String
  | relation => "table or view"
  | schema => "schema"
  | routine => "routine"
  | function => "function"

/-- Why a statement is refused. -/
inductive Cause where
  /-- Another token stands where something was expected. -/
  | unexpectedToken (expected : Expected) (found : String)
  /-- The statement ends where something was expected. -/
  | unexpectedEnd (expected : Expected)
  /-- Columns that no range in scope has, in the order of the statement. -/
  | unresolvedReference (names : List String)
  | typeMismatch (clash : TypeClash)
  /-- A row has more or fewer values than wanted. -/
  | degreeMismatch (expected actual : Nat)
  /-- An explicit value for an identity column that is always generated. -/
  | identityOverrideRequired (column : String)
  | generatedColumnWrite (column : String)
  | overridingWithoutIdentity
  /-- A column is assigned twice. -/
  | duplicateTarget (column : String)
  | duplicateMergeBranch (branch : MergeBranch)
  /-- The argument of an output parameter is no variable. -/
  | invalidOutArgument (routine : String) (position : Nat)
  | argumentTypeMismatch (routine : String) (position : Nat) (expected actual : SqlType)
  | unknownTarget (kind : ObjectKind) (name : String)
  | notUpdatable (view : String) (operation : Operation)
  | ambiguousReference (name : String)
  | duplicateRangeName (name : String)
  deriving DecidableEq, Repr

/-- The refusal of a statement. -/
structure Error where
  cause : Cause
  fragment : Fragment
  deriving DecidableEq, Repr

/-- Why nothing was compiled. -/
inductive Failure where
  /-- The statement is refused. -/
  | rejected (e : Error)
  /-- An ordinal lies beyond the columns it counts. -/
  | outOfRange
  /-- The bases of the views lead in a circle. -/
  | viewCycle
  deriving DecidableEq, Repr

/-- A coarse class of errors. -/
inductive ErrorClass where
  | grammar
  | reference
  | type
  | columnPolicy
  | duplicateTarget
  | duplicateMergeBranch
  | degree
  | outArgument
  | argumentType
  | unknownTarget
  | notUpdatable
  deriving DecidableEq, Repr

namespace Cause

def message : Cause → String
  | unexpectedToken expected found => "unexpected '" ++ found ++ "', expected " ++ expected.text
  | unexpectedEnd expected => "unexpected end of statement, expected " ++ expected.text
  | unresolvedReference names => "unresolved column reference: " ++ ", ".intercalate names
  | typeMismatch clash => "type mismatch: " ++ clash.text
  | degreeMismatch expected actual =>
    "expected " ++ toString expected ++ " values, got " ++ toString actual
  | identityOverrideRequired column => "identity column '" ++ column ++ "' is generated always"
  | generatedColumnWrite column => "generated column '" ++ column ++ "' cannot be written"
  | overridingWithoutIdentity => "OVERRIDING clause without an identity column among the targets"
  | duplicateTarget column => "column '" ++ column ++ "' is assigned more than once"
  | duplicateMergeBranch branch => "MERGE declares WHEN " ++ branch.text ++ " more than once"
  | invalidOutArgument routine position =>
    "argument " ++ toString position ++ " of '" ++ routine ++ "' must be a variable"
  | argumentTypeMismatch routine position expected actual =>
    "argument " ++ toString position ++ " of '" ++ routine ++ "' has type " ++ actual.name ++
      ", parameter expects " ++ expected.name
  | unknownTarget kind name => kind.text ++ " '" ++ name ++ "' not found"
  | notUpdatable view operation => "view '" ++ view ++ "' does not support " ++ operation.name
  | ambiguousReference name => "column reference '" ++ name ++ "' is ambiguous"
  | duplicateRangeName name => "range name '" ++ name ++ "' is declared more than once"

/-- The class of a cause. -/
def errorClass : Cause → ErrorClass
  | unexpectedToken .. | unexpectedEnd .. | duplicateRangeName .. => .grammar
  | unresolvedReference .. | ambiguousReference .. => .reference
  | typeMismatch .. => .type
  | degreeMismatch .. => .degree
  | identityOverrideRequired .. | generatedColumnWrite .. | overridingWithoutIdentity =>
    .columnPolicy
  | duplicateTarget .. => .duplicateTarget
  | duplicateMergeBranch .. => .duplicateMergeBranch
  | invalidOutArgument .. => .outArgument
  | argumentTypeMismatch .. => .argumentType
  | unknownTarget .. => .unknownTarget
  | notUpdatable .. => .notUpdatable

/-- The stable code of a cause. -/
def code : Cause → String
  | unexpectedToken .. => "DML_001"
  | unexpectedEnd .. => "DML_002"
  | unresolvedReference .. => "DML_003"
  | typeMismatch .. => "DML_004"
  | degreeMismatch .. => "DML_005"
  | identityOverrideRequired .. => "DML_006"
  | generatedColumnWrite .. => "DML_007"
  | overridingWithoutIdentity => "DML_008"
  | duplicateTarget .. => "DML_009"
  | duplicateMergeBranch .. => "DML_010"
  | invalidOutArgument .. => "DML_011"
  | argumentTypeMismatch .. => "DML_012"
  | unknownTarget .. => "DML_013"
  | notUpdatable .. => "DML_014"
  | ambiguousReference .. => "DML_015"
  | duplicateRangeName .. => "DML_016"

end Cause

namespace Error

def message (e : Error) : String :=
  e.cause.message

/-- A token other than the expected one. -/
def unexpected (expected : Expected) (fragment : Fragment) : Error :=
  ⟨.unexpectedToken expected fragment.text, fragment⟩

/-- Types that do not fit. -/
def clash (clash : TypeClash) (fragment : Fragment) : Error :=
  ⟨.typeMismatch clash, fragment⟩

/-- A row of the wrong degree. -/
def degree (expected actual : Nat) (fragment : Fragment) : Error :=
  ⟨.degreeMismatch expected actual, fragment⟩

end Error

end DataChange
