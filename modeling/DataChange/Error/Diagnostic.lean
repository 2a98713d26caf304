import DataChange.Diagnostic
import DataChange.Error.Basic

/-!
# Errors as diagnostics

What is said to the user about each cause: a label at the fragment, advice and notes.
-/

namespace DataChange

namespace Cause

/-- What is wrong at the fragment. -/
def label : Cause → String
  | unexpectedToken expected _ => "expected " ++ expected.text
  | unexpectedEnd expected => "expected " ++ expected.text
  | unresolvedReference _ => "no table in scope has this column"
  | typeMismatch _ => "incompatible type"
  | degreeMismatch _ actual => toString actual ++ " values here"
  | identityOverrideRequired column => "explicit value for '" ++ column ++ "'"
  | generatedColumnWrite column => "'" ++ column ++ "' is computed from other columns"
  | overridingWithoutIdentity => "no identity column is written"
  | duplicateTarget column => "'" ++ column ++ "' already assigned"
  | duplicateMergeBranch _ => "second occurrence"
  | invalidOutArgument .. => "not assignable"
  | argumentTypeMismatch .. => "incompatible argument"
  | unknownTarget kind _ => "unknown " ++ kind.text
  | notUpdatable .. => "view is read only"
  | ambiguousReference _ => "matches more than one table"
  | duplicateRangeName _ => "name already in use"

/-- What the user can do about it. -/
def help? : Cause → Option String
  | unexpectedToken .. => none
  | unexpectedEnd _ => some "the statement ends too early"
  | unresolvedReference _ =>
    some "check the column name or qualify it with a table name or alias"
  | typeMismatch _ => none
  | degreeMismatch expected _ =>
    some ("supply exactly " ++ toString expected ++ " values, one per target column")
  | identityOverrideRequired _ =>
    some "use DEFAULT, or add OVERRIDING SYSTEM VALUE or OVERRIDING USER VALUE"
  | generatedColumnWrite _ =>
    some "remove the column from the target list or assign DEFAULT on insert"
  | overridingWithoutIdentity => some "remove the OVERRIDING clause"
  | duplicateTarget _ => none
  | duplicateMergeBranch branch =>
    some ("a MERGE statement accepts at most one WHEN " ++ branch.text ++ " clause")
  | invalidOutArgument .. => some "OUT and INOUT parameters need a variable or a parameter marker"
  | argumentTypeMismatch .. => none
  | unknownTarget .. => none
  | notUpdatable .. => some "write to the base table instead"
  | ambiguousReference _ => some "qualify the column with a table name or alias"
  | duplicateRangeName _ => some "give one of the tables an alias"

def notes : Cause → List String
  | unresolvedReference names => names.map ("unresolved: " ++ ·)
  | _ => []

end Cause

/-- The description of an error to the user. -/
def Error.diagnostic (e : Error) : Diagnostic where
  code := e.cause.code
  statement := none
  message := e.message
  fragment := e.fragment
  label := some e.cause.label
  help := e.cause.help?
  notes := e.cause.notes
  cause := none

end DataChange
