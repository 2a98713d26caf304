/-!
# Qualified names

A relation or a routine is named by itself or within a namespace.
-/

namespace DataChange

/-- A name, with the namespace it was written with. -/
structure QualifiedName where
  schema : Option String
  name : String
  deriving DecidableEq, Repr, Inhabited

namespace QualifiedName

/-- A name without a namespace. -/
def unqualified (name : String) : QualifiedName :=
  ⟨none, name⟩

/-- The namespace of the name, or else the given one. -/
def schemaOr (n : QualifiedName) (default : String) : String :=
  n.schema.getD default

/-- The name with its namespace spelled out. -/
def qualify (n : QualifiedName) (default : String) : QualifiedName :=
  ⟨some (n.schemaOr default), n.name⟩

def text (n : QualifiedName) : String :=
  match n.schema with
  | some schema => schema ++ "." ++ n.name
  | none => n.name

end QualifiedName

end DataChange
