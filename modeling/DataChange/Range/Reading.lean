import DataChange.Expr.Parser

/-!
# Reading names and ranges

A relation is named with or without its namespace, and may be given an alias.
-/

namespace DataChange

namespace Reader

/-- A name, or a namespace and a name with a dot between them. -/
def qualifiedName : Reader (QualifiedName × Fragment) := do
  let first ← identifier
  match (← get).rest with
  | dot :: second :: _ =>
    if dot.isSymbol .dot && second.isIdentifier then
      modify (·.advance 2)
      return (⟨some first.text, second.text⟩,
        first.fragment.withText (first.text ++ "." ++ second.text))
    else return (.unqualified first.text, first.fragment)
  | _ => return (.unqualified first.text, first.fragment)

/-- An alias after AS, or a name that is no keyword. -/
def asName? : Reader (Option String) := do
  if ← skipKeyword .AS then return some (← identifier).text
  else
    match (← get).rest with
    | t :: _ =>
      if t.kind = .identifier || t.kind = .quotedIdentifier then return some (← next).text
      else return none
    | [] => return none

end Reader

namespace Environment

/-- The relation with a name. -/
def relation (env : Environment) (name : QualifiedName) (fragment : Fragment) :
    Except Error Relation :=
  match env.catalog.relation? (name.schemaOr env.config.defaultSchema) name.name with
  | some relation => .ok relation
  | none => .error ⟨.unknownTarget .relation name.text, fragment⟩

end Environment

namespace Range

/-- A new range over a relation. -/
def ofNew (relation : Relation) (asName : Option String) (fragment : Fragment) :
    Compiler Range := do
  return ofRelation (← Compiler.newRange) relation asName fragment

/-- A new range over the relation with a name. -/
def named (env : Environment) (name : QualifiedName) (asName : Option String)
    (fragment : Fragment) : Compiler Range := do
  ofNew (← env.relation name fragment) asName fragment

/-- Reads a relation with its alias. -/
def readRelation (env : Environment) : Compiler Range := do
  let (name, fragment) ← Reader.qualifiedName
  let asName ← Reader.asName?
  named env name asName fragment

/-- Refuses a view that does not take an operation. -/
def checkAccepts (r : Range) (operation : Operation) : Except Error Unit :=
  match r.source with
  | .relation (.view v) =>
    if operation.acceptedBy v then .ok ()
    else .error ⟨.notUpdatable v.qualifiedName.text operation, r.fragment⟩
  | _ => .ok ()

/-- Reads the relation that a statement writes. -/
def readTarget (env : Environment) (operation : Operation) : Compiler Range := do
  let (name, fragment) ← Reader.qualifiedName
  let asName ← match operation with
    | .insert | .truncate => pure none
    | _ => Reader.asName?
  let range ← named env name asName fragment
  range.checkAccepts operation
  return range

end Range

end DataChange
