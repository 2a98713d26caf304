import DataChange.Expr.Basic

/-!
# All nodes of an expression

`nodes` lists the nodes of an expression, operands before the operation, and descends into
compiled subqueries: into their projection, their join conditions and their condition or rows.
What is said of every node of an expression is said of this list.
-/

namespace DataChange

mutual

/-- The nodes of an expression, operands first. -/
def Expr.nodes : Expr → List Expr
  | ⟨kind, fragment, type⟩ => ExprKind.nodes kind ++ [⟨kind, fragment, type⟩]

/-- The nodes below a node. -/
def ExprKind.nodes : ExprKind → List Expr
  | .row items => Expr.nodesOfList items
  | .values rows => Expr.nodesOfList rows
  | .query _ plan => Plan.nodes plan
  | .unary _ operand => Expr.nodes operand
  | .binary _ left right => Expr.nodes left ++ Expr.nodes right
  | .isNull operand _ => Expr.nodes operand
  | .call _ _ arguments => Expr.nodesOfList arguments
  | .constant _ => []
  | .parameter _ => []
  | .column _ => []
  | .defaultMarker => []
  | .pending _ _ => []
  | .diagnostics _ => []

def Expr.nodesOfList : List Expr → List Expr
  | [] => []
  | e :: es => Expr.nodes e ++ Expr.nodesOfList es

def Expr.nodesOfOption : Option Expr → List Expr
  | none => []
  | some e => Expr.nodes e

/-- The nodes of the expressions of a plan. -/
def Plan.nodes : Plan → List Expr
  | .select _ projection ranges condition =>
    Expr.nodesOfList projection ++ Range.nodesOfList ranges ++ Expr.nodesOfOption condition
  | .values _ rows => Expr.nodes rows

/-- The nodes of the join condition of a range. -/
def Range.nodes : Range → List Expr
  | ⟨_, _, _, _, _, join, _⟩ => Expr.nodesOfOption join

def Range.nodesOfList : List Range → List Expr
  | [] => []
  | r :: rs => Range.nodes r ++ Range.nodesOfList rs

end

namespace Expr

/-- Whether a node is bound and typed; rows and DEFAULT have no type. -/
def nodeIsResolved (e : Expr) : Bool :=
  match e.kind with
  | .row _ | .values _ | .defaultMarker | .query .. => true
  | .pending .. => false
  | .column ref => ref.binding.isSome && e.type?.isSome
  | _ => e.type?.isSome

/-- Whether nothing in the expression is left to be bound or typed. -/
def isResolved (e : Expr) : Bool :=
  e.nodes.all nodeIsResolved

/-- The ids of the ranges that the expression refers to, in the order of their first mention. -/
def referencedRanges (e : Expr) : List Nat :=
  (e.nodes.filterMap fun node => node.binding?.map (·.range)).foldl
    (fun ids id => if id ∈ ids then ids else ids ++ [id]) []

/-- Whether the expression refers to a range. -/
def refersTo (e : Expr) (range : Nat) : Bool :=
  e.nodes.any fun node => node.binding?.any (·.range == range)

end Expr

end DataChange
