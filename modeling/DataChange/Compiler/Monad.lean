import DataChange.Catalog.Basic
import DataChange.Config
import DataChange.Range.Basic
import DataChange.Token.Cursor

/-!
# Computations of the compiler

A `Parser` reads tokens and numbers the parameter markers; a `Compiler` also hands out range ids
and keeps the enclosing scopes, the routines called and the queries met. What was counted before a
failure stays counted.
-/

namespace DataChange

/-- What statements are compiled against. -/
structure Environment where
  catalog : Catalog
  config : Config

/-- A place among the tokens and the number of markers so far. -/
structure Reading where
  cursor : Cursor
  /-- The number of question marks read. -/
  parameters : Nat
  deriving Inhabited

/-- A query that was compiled as part of a statement. -/
structure QueryCall where
  /-- The first token of the query. -/
  fragment : Fragment
  /-- The names and ids of the enclosing ranges, group by group. -/
  outer : List (List (String × Nat))
  /-- The types of the columns that the query fills, if it does. -/
  expected : Option (List SqlType)
  deriving DecidableEq, Repr

/-- The state of a compilation. -/
structure CompilerState extends Reading where
  /-- The enclosing scopes, the innermost last. -/
  outer : List RangeGroup
  /-- The routines called. -/
  calls : List Routine
  /-- The id of the next range. -/
  nextRange : Nat
  /-- The queries met. -/
  queries : List QueryCall
  deriving Inhabited

/-- The state before anything is compiled. -/
def CompilerState.initial : CompilerState where
  cursor := .ofTokens []
  parameters := 0
  outer := []
  calls := []
  nextRange := 0
  queries := []

/-- A computation that reads expressions. -/
abbrev Parser := EStateM Failure Reading

/-- A computation that compiles. -/
abbrev Compiler := EStateM Failure CompilerState

instance : MonadLift Reader Parser where
  monadLift x := fun s =>
    match x s.cursor with
    | .ok a cursor => .ok a { s with cursor := cursor }
    | .error e cursor => .error (.rejected e) { s with cursor := cursor }

instance : MonadLift Parser Compiler where
  monadLift x := fun s =>
    match x s.toReading with
    | .ok a reading => .ok a { s with toReading := reading }
    | .error e reading => .error e { s with toReading := reading }

instance : MonadLift (Except Error) Compiler where
  monadLift x := fun s =>
    match x with
    | .ok a => .ok a s
    | .error e => .error (.rejected e) s

/-- Refuses the statement. -/
def reject {σ α : Type} (e : Error) : EStateM Failure σ α :=
  throw (.rejected e)

/-- A value that is there unless an ordinal is out of range. -/
def inRange {σ α : Type} (x : Option α) : EStateM Failure σ α :=
  match x with
  | some a => pure a
  | none => throw .outOfRange

/-! ## Lists -/

section

variable {m : Type → Type} [Monad m] [MonadLiftT Reader m] {σ α : Type}

/-- The number of tokens to come. -/
def remaining : Reader Nat :=
  return (← get).rest.length

/-- While a comma follows, and at most `bound` times, reads it and takes a step. -/
def commaStepsWithin (step : σ → m σ) : Nat → σ → m σ
  | 0, s => pure s
  | bound + 1, s => do
    if ← Reader.skipSymbol .comma then commaStepsWithin step bound (← step s) else pure s

/-- Takes a step, and another one after every comma. -/
def commaSteps (step : σ → m σ) (s : σ) : m σ := do
  let s ← step s
  commaStepsWithin step (← remaining) s

/-- Items between commas. -/
def commaSeparated (item : m α) : m (List α) :=
  commaSteps (fun items => return items ++ [← item]) []

end

namespace Compiler

/-- The id of a new range. -/
def newRange : Compiler Nat := do
  let s ← get
  set { s with nextRange := s.nextRange + 1 }
  return s.nextRange

/-- The enclosing scopes. -/
def outerGroups : Compiler (List RangeGroup) :=
  return (← get).outer

/-- Runs a computation on other tokens and comes back. -/
def onTokens {α : Type} (tokens : List Token) (x : Compiler α) : Compiler α := fun s =>
  match x { s with cursor := .ofTokens tokens } with
  | .ok a t => .ok a { t with cursor := s.cursor }
  | .error e t => .error e { t with cursor := s.cursor }

/-- Notes that a query is compiled here. -/
def noteQuery (outer : List RangeGroup) (expected : Option (List SqlType)) : Compiler Unit :=
  modify fun s =>
    { s with queries := s.queries ++
      [⟨s.cursor.fragment, outer.map fun group => group.map fun r => (r.name, r.id), expected⟩] }

end Compiler

end DataChange
