import DataChange.Statement.Call
import DataChange.Statement.Delete
import DataChange.Statement.Insert
import DataChange.Statement.Merge
import DataChange.Statement.Truncate
import DataChange.Statement.Update
import DataChange.Token.Lexer

/-!
# Compiling statements

The first keyword tells the statement; after it the text must end, but for a semicolon.
`Statement.compile` compiles a text within the scopes and counters of a state,
`Compilation.ofText` compiles it on its own.
-/

namespace DataChange

namespace Statement

/-- Compiles the statement at the cursor. -/
def compileHead (env : Environment) : Compiler Statement := do
  let cursor := (← get).cursor
  match cursor.rest with
  | [] => reject (cursor.endedBefore .statement)
  | t :: _ =>
    match t.kind with
    | .keyword .INSERT => return .insert (← Insert.compile env)
    | .keyword .UPDATE => return .update (← Update.compile env)
    | .keyword .DELETE => return .delete (← Delete.compile env)
    | .keyword .MERGE => return .merge (← Merge.compile env)
    | .keyword .TRUNCATE => return .truncate (← Truncate.compile env)
    | .keyword .CALL => return .call (← Call.compile env)
    | .keyword .REPLACE =>
      if env.config.dialect.mysql then return .insert (← Insert.compile env)
      else reject (.unexpected .statementKeyword t.fragment)
    | _ => reject (.unexpected .statementKeyword t.fragment)

/-- Compiles tokens that make up one statement. -/
def compileTokens (env : Environment) (tokens : List Token) : Compiler Statement :=
  Compiler.onTokens tokens do
    let statement ← compileHead env
    Reader.finish
    return statement

/-- Compiles a text that holds one statement. -/
def compile (env : Environment) (text : String) : Compiler Statement := do
  compileTokens env (← tokenize text)

end Statement

/-- A statement compiled on its own. -/
structure Compilation where
  statement : Statement
  /-- The number of question marks. -/
  parameters : Nat
  /-- The routines called. -/
  calls : List Routine

/-- Compiles a text that holds one statement, without enclosing scopes. -/
def Compilation.ofText (env : Environment) (text : String) : Except Failure Compilation :=
  match Statement.compile env text .initial with
  | .ok statement s => .ok ⟨statement, s.parameters, s.calls⟩
  | .error e _ => .error e

/-- Makes the variables of a routine an enclosing scope, and gives the id of their range. -/
def Compiler.declareVariables (columns : List Attribute) : Compiler Nat := do
  let id ← newRange
  let range := Range.ofVariables id "" columns (.synthetic "variables")
  modify fun s => { s with outer := s.outer ++ [[range]] }
  return id

end DataChange
