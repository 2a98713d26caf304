import DataChange.Range.Reading
import DataChange.Statement.Basic

/-!
# TRUNCATE

A table, or all tables of a schema. A schema is truncated only by a command that commits.
-/

namespace DataChange

namespace Truncate

/-- The tables whose names are in a schema, sorted. -/
def tablesOf (catalog : Catalog) (schema : Namespace) : List QualifiedName :=
  ((catalog.baseTables.filter fun name => name.schema == some schema.name).mergeSort
    fun a b => a.name ≤ b.name).eraseDups

def readTable (env : Environment) : Compiler (TruncateTarget × WriteSet) := do
  let range ← Range.readTarget env .truncate
  match range.relation? with
  | some (.table t) => return (.table t, [t.qualifiedName])
  | _ => reject ⟨.notUpdatable range.name .truncate, range.fragment⟩

def readSchema (env : Environment) : Compiler (TruncateTarget × WriteSet) := do
  let t ← Reader.identifier
  match env.catalog.namespace? t.text with
  | some schema => return (.schema schema, tablesOf env.catalog schema)
  | none => reject ⟨.unknownTarget .schema t.text, t.fragment⟩

/-- Reads what is emptied, with the names of the tables. -/
def readTarget (env : Environment) : Compiler (TruncateTarget × WriteSet) := do
  if ← Reader.skipKeyword .TABLE then readTable env
  else if ← Reader.skipKeyword .SCHEMA then readSchema env
  else reject (.unexpected .truncateObject (← get).cursor.fragment)

/-- Reads whether identity columns start again. -/
def readRestart : Reader Bool := do
  if ← Reader.skipKeyword .RESTART then
    let _ ← Reader.keyword .IDENTITY
    return true
  else if ← Reader.skipKeyword .CONTINUE then
    let _ ← Reader.keyword .IDENTITY
    return false
  else return false

def readForm (target : TruncateTarget) : Reader TruncateForm := do
  if ← Reader.skipKeyword .AND then
    let _ ← Reader.keyword .COMMIT
    if ← Reader.skipKeyword .NO then
      let _ ← Reader.keyword .CHECK
      return .command true
    else return .command false
  else
    match target with
    | .table _ => return .rows
    | .schema _ => throw (.unexpected .commitClause (← get).fragment)

def compile (env : Environment) : Compiler TruncateStatement := do
  let _ ← Reader.keyword .TRUNCATE
  let (target, tables) ← readTarget env
  let restart ← readRestart
  return ⟨target, restart, ← readForm target, tables⟩

end Truncate

end DataChange
