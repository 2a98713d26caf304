import DataChange.Proofs.Copy.References
import DataChange.Proofs.Expr.Lookup

/-!
# What binding comes to

Binding an expression without subqueries goes over its nodes, every operation before its operands.
The first node that is a call of an unknown function or an ambiguous reference stops it; else the
references that no range has are reported together; else each free reference is bound to what the
innermost group has for it, each call finds its function, and nothing else changes
(`bindWith_outcome`).
-/

namespace DataChange

/-! ## The nodes in order -/

mutual

/-- The nodes of an expression outside subqueries, every operation before its operands. -/
def Expr.preorder : Expr → List Expr
  | ⟨kind, fragment, type⟩ => ⟨kind, fragment, type⟩ :: ExprKind.preorder kind

/-- The nodes below a node, outside subqueries. -/
def ExprKind.preorder : ExprKind → List Expr
  | .row items => Expr.preorderOfList items
  | .values rows => Expr.preorderOfList rows
  | .unary _ operand => Expr.preorder operand
  | .binary _ left right => Expr.preorder left ++ Expr.preorder right
  | .isNull operand _ => Expr.preorder operand
  | .call _ _ arguments => Expr.preorderOfList arguments
  | .constant _ => []
  | .parameter _ => []
  | .column _ => []
  | .defaultMarker => []
  | .pending _ _ => []
  | .query _ _ => []
  | .diagnostics _ => []

def Expr.preorderOfList : List Expr → List Expr
  | [] => []
  | e :: es => Expr.preorder e ++ Expr.preorderOfList es

end

namespace Expr

theorem preorderOfList_eq (es : List Expr) : preorderOfList es = es.flatMap preorder := by
  induction es with
  | nil => rfl
  | cons e es ih => simp [preorderOfList, ih]

theorem preorder_eq (e : Expr) : e.preorder = e :: e.children.flatMap preorder := by
  obtain ⟨kind, fragment, type⟩ := e
  cases kind <;> simp [preorder, ExprKind.preorder, children, preorderOfList_eq]

/-! ## What stops the binding -/

/-- A node that cannot be bound, whatever is around it, and the error that says so. -/
inductive Obstacle (scope : Scope) : Expr → Error → Prop
  | unknown {name : String} {arguments : List Expr} {fragment : Fragment} {type : Option SqlType}
      (h : Builtin.ofName? name = none) :
      Obstacle scope ⟨.call name none arguments, fragment, type⟩
        ⟨.unknownTarget .function name, fragment⟩
  | ambiguous {ref : ColumnRef} {fragment : Fragment} {type : Option SqlType}
      (hfree : ref.binding = none) (h : 2 ≤ (scope.candidates ref).length) :
      Obstacle scope ⟨.column ref, fragment, type⟩ ⟨.ambiguousReference ref.name, fragment⟩

/-- A node is no obstacle. -/
def Passes (scope : Scope) (node : Expr) : Prop :=
  ∀ error, ¬ Obstacle scope node error

/-- The first of some nodes that is an obstacle. -/
inductive FirstObstacle (scope : Scope) : List Expr → Error → Prop
  | here {node : Expr} {error : Error} (h : Obstacle scope node error) (nodes : List Expr) :
      FirstObstacle scope (node :: nodes) error
  | later {node : Expr} {nodes : List Expr} {error : Error} (hpasses : Passes scope node)
      (h : FirstObstacle scope nodes error) : FirstObstacle scope (node :: nodes) error

/-- The free reference that a node is, if no range has it. -/
def unanswered? (scope : Scope) (node : Expr) : Option FreeColumn :=
  match node.kind with
  | .column ref =>
    if ref.binding.isNone && (scope.candidates ref).isEmpty then some ⟨ref.text, node.fragment⟩
    else none
  | _ => none

/-- The free references among some nodes that no range has. -/
def unanswered (scope : Scope) (nodes : List Expr) : List FreeColumn :=
  nodes.filterMap (unanswered? scope)

/-! ## What binding changes -/

/-- An expression with its free references bound and its functions found. -/
inductive BoundAs (scope : Scope) : Expr → Expr → Prop
  | free {ref : ColumnRef} {fragment : Fragment} {type : Option SqlType} {r : Range} {b : Binding}
      (hfree : ref.binding = none) (hone : scope.candidates ref = [r]) (hgives : r.Gives ref b) :
      BoundAs scope ⟨.column ref, fragment, type⟩
        ⟨.column { ref with binding := some b }, fragment, type⟩
  | bound {ref : ColumnRef} {fragment : Fragment} {type : Option SqlType}
      (h : ref.binding.isSome = true) :
      BoundAs scope ⟨.column ref, fragment, type⟩ ⟨.column ref, fragment, type⟩
  | call {name : String} {builtin : Option Builtin} {found : Builtin}
      {arguments arguments' : List Expr} {fragment : Fragment} {type : Option SqlType}
      (h : builtin.or (Builtin.ofName? name) = some found)
      (harguments : List.Forall₂ (BoundAs scope) arguments arguments') :
      BoundAs scope ⟨.call name builtin arguments, fragment, type⟩
        ⟨.call name (some found) arguments', fragment, type⟩
  | node {e : Expr} {cs : List Expr} (h : e.isBound = true)
      (hcs : List.Forall₂ (BoundAs scope) e.children cs) : BoundAs scope e (e.withChildren cs)

/-- What binding some nodes comes to: it stops at the first obstacle, or gathers the references that
no range has. Without such references what is bound is as it should be. -/
inductive Gathers {α : Type} (scope : Scope) (nodes : List Expr) (R : α → Prop)
    (s : CompilerState) : EStateM.Result Failure CompilerState (α × List FreeColumn) → Prop
  | stopped {error : Error} (h : FirstObstacle scope nodes error) :
      Gathers scope nodes R s (.error (.rejected error) s)
  | gathered {a : α} (hpasses : ∀ node ∈ nodes, Passes scope node)
      (hbound : unanswered scope nodes = [] → R a) :
      Gathers scope nodes R s (.ok (a, unanswered scope nodes) s)

variable {compile : QueryCompiler} {scope : Scope} {s : CompilerState} {e : Expr} {es : List Expr}

/-! ## Steps -/

theorem FirstObstacle.append {nodes : List Expr} {error : Error}
    (h : FirstObstacle scope nodes error) (more : List Expr) :
    FirstObstacle scope (nodes ++ more) error := by
  induction h with
  | here h nodes => exact .here h (nodes ++ more)
  | later hpasses _ ih => exact .later hpasses ih

theorem FirstObstacle.after {before nodes : List Expr} {error : Error}
    (hpasses : ∀ node ∈ before, Passes scope node) (h : FirstObstacle scope nodes error) :
    FirstObstacle scope (before ++ nodes) error := by
  induction before with
  | nil => exact h
  | cons node before ih =>
    obtain ⟨hnode, hpasses⟩ := List.forall_mem_cons.1 hpasses
    exact .later hnode (ih hpasses)

theorem unanswered_append (nodes more : List Expr) :
    unanswered scope (nodes ++ more) = unanswered scope nodes ++ unanswered scope more :=
  List.filterMap_append ..

namespace Gathers

variable {α β γ : Type} {R : α → Prop} {R' : β → Prop} {R'' : γ → Prop} {nodes more : List Expr}

theorem pure {a : α} (h : R a) : Gathers scope [] R s (.ok (a, []) s) :=
  .gathered (by simp) fun _ => h

/-- A node in which there is nothing to bind. -/
theorem cons {node : Expr} {r : EStateM.Result Failure CompilerState (α × List FreeColumn)}
    (hpasses : Passes scope node) (hanswered : unanswered? scope node = none)
    (h : Gathers scope nodes R s r) : Gathers scope (node :: nodes) R s r := by
  have hsame : unanswered scope (node :: nodes) = unanswered scope nodes :=
    List.filterMap_cons_none hanswered
  cases h with
  | stopped h => exact .stopped (.later hpasses h)
  | gathered hclear hbound =>
    rw [← hsame] at hbound ⊢
    exact .gathered (List.forall_mem_cons.2 ⟨hpasses, hclear⟩) hbound

theorem map {x : Compiler (α × List FreeColumn)} {f : α → β} (hx : Gathers scope nodes R s (x s))
    (hf : ∀ a, R a → R' (f a)) :
    Gathers scope nodes R' s
      ((do let (a, free) ← x; return (f a, free) : Compiler (β × List FreeColumn)) s) := by
  show Gathers scope nodes R' s (EStateM.bind x _ s)
  unfold EStateM.bind
  generalize x s = r at hx
  cases hx with
  | stopped h => exact .stopped h
  | gathered hclear hbound => exact .gathered hclear fun hnone => hf _ (hbound hnone)

/-- What is gathered from some nodes and then from others. -/
theorem bind {x : Compiler (α × List FreeColumn)} {y : Compiler (β × List FreeColumn)}
    {f : α → β → γ} (hx : Gathers scope nodes R s (x s)) (hy : Gathers scope more R' s (y s))
    (hf : ∀ a b, R a → R' b → R'' (f a b)) :
    Gathers scope (nodes ++ more) R'' s
      ((do
        let (a, free) ← x
        let (b, rest) ← y
        return (f a b, free ++ rest) : Compiler (γ × List FreeColumn)) s) := by
  show Gathers scope (nodes ++ more) R'' s (EStateM.bind x _ s)
  unfold EStateM.bind
  generalize x s = r at hx
  cases hx with
  | stopped h => exact .stopped (h.append more)
  | @gathered a hclear hbound =>
    show Gathers scope (nodes ++ more) R'' s (EStateM.bind y _ s)
    unfold EStateM.bind
    generalize y s = r' at hy
    cases hy with
    | stopped h => exact .stopped (h.after hclear)
    | @gathered b hclear' hbound' =>
      have hall : ∀ node ∈ nodes ++ more, Passes scope node :=
        List.forall_mem_append.2 ⟨hclear, hclear'⟩
      show Gathers scope (nodes ++ more) R'' s
        (.ok (f a b, unanswered scope nodes ++ unanswered scope more) s)
      rw [← unanswered_append]
      refine .gathered hall fun hnone => ?_
      rw [unanswered_append, List.append_eq_nil_iff] at hnone
      exact hf a b (hbound hnone.1) (hbound' hnone.2)

end Gathers

/-! ## One node -/

/-- Where there is nothing to bind in a node itself, its operands are bound. -/
theorem bindIn_node (h : e.isBound = true) :
    bindIn compile scope e = do
      let (cs, free) ← bindListIn compile scope e.children
      return (e.withChildren cs, free) := by
  obtain ⟨kind, fragment, type⟩ := e
  cases kind with
  | column | pending | call => cases h
  | _ => simp [bindIn, bindListIn, children, withChildren, ExprKind.withChildren]

theorem isBound_passes (h : e.isBound = true) :
    Passes scope e ∧ unanswered? scope e = none := by
  obtain ⟨kind, fragment, type⟩ := e
  cases kind with
  | column | pending | call => cases h
  | _ => exact ⟨fun _ h => (by cases h), rfl⟩

theorem bindColumn_gathers (ref : ColumnRef) (fragment : Fragment) (type : Option SqlType) :
    Gathers scope [⟨.column ref, fragment, type⟩] (BoundAs scope ⟨.column ref, fragment, type⟩) s
      (bindIn compile scope ⟨.column ref, fragment, type⟩ s) := by
  have hrun : bindIn compile scope ⟨.column ref, fragment, type⟩ s =
      (do
        let bound ← bindColumn scope ref fragment
        return (⟨.column bound.1, fragment, type⟩, bound.2) :
          Compiler (Expr × List FreeColumn)) s := by
    rw [bindIn]
  rw [hrun, bindColumn]
  cases hbinding : ref.binding with
  | some b =>
    have hbound : ref.binding.isSome = true := by simp [hbinding]
    refine .cons (fun _ h => ?_) (by simp [unanswered?, hbinding]) (.pure (.bound hbound))
    cases h with
    | ambiguous hfree _ => cases hbinding.symm.trans hfree
  | none =>
    have hfound := scope.lookup_found ref fragment
    generalize hcandidates : scope.candidates ref = candidates at hfound
    generalize scope.lookup ref fragment = result at hfound
    -- only a second candidate stops the lookup of a column that is not bound
    have hpasses (h : candidates.length < 2) :
        Passes scope ⟨.column ref, fragment, type⟩ := fun _ hstops => by
      cases hstops with
      | ambiguous _ htwo => exact absurd (hcandidates ▸ htwo) (by omega)
    cases hfound with
    | nowhere =>
      have hfree : unanswered scope [⟨.column ref, fragment, type⟩] = [⟨ref.text, fragment⟩] := by
        simp [unanswered, unanswered?, hbinding, hcandidates]
      show Gathers scope _ _ s (.ok (_, [⟨ref.text, fragment⟩]) s)
      rw [← hfree]
      refine .gathered (by simpa using hpasses (by simp)) fun hnone => ?_
      cases hfree.symm.trans hnone
    | once hgives =>
      refine .cons (hpasses (by simp)) (by simp [unanswered?, hcandidates]) (.pure ?_)
      exact .free hbinding hcandidates hgives
    | again r r' rs =>
      exact .stopped (.here (.ambiguous hbinding (by simp [hcandidates])) [])

theorem bindCall_gathers {name : String} {builtin : Option Builtin} {arguments : List Expr}
    (fragment : Fragment) (type : Option SqlType)
    (h : Gathers scope (arguments.flatMap preorder) (List.Forall₂ (BoundAs scope) arguments) s
      (bindListIn compile scope arguments s)) :
    Gathers scope (⟨.call name builtin arguments, fragment, type⟩ :: arguments.flatMap preorder)
      (BoundAs scope ⟨.call name builtin arguments, fragment, type⟩) s
      (bindIn compile scope ⟨.call name builtin arguments, fragment, type⟩ s) := by
  rw [bindIn]
  have hfound {found : Builtin} (hf : builtin.or (Builtin.ofName? name) = some found) :
      Gathers scope (arguments.flatMap preorder)
        (BoundAs scope ⟨.call name builtin arguments, fragment, type⟩) s
        ((do
          let (cs, free) ← bindListIn compile scope arguments
          return (⟨.call name (some found) cs, fragment, type⟩, free) :
            Compiler (Expr × List FreeColumn)) s) := by
    refine h.map (f := fun cs => (⟨.call name (some found) cs, fragment, type⟩ : Expr)) ?_
    exact fun cs hcs => .call hf hcs
  cases builtin with
  | some found =>
    refine .cons (fun _ hstops => ?_) rfl (hfound rfl)
    cases hstops
  | none =>
    cases hname : Builtin.ofName? name with
    | none =>
      simp only [findBuiltin, hname]
      exact .stopped (.here (.unknown hname) _)
    | some found =>
      simp only [findBuiltin, hname]
      refine .cons (fun _ hstops => ?_) rfl (hfound hname)
      cases hstops with
      | unknown hunknown => cases hname.symm.trans hunknown

theorem bindListIn_gathers
    (h : ∀ e ∈ es, Gathers scope e.preorder (BoundAs scope e) s (bindIn compile scope e s)) :
    Gathers scope (es.flatMap preorder) (List.Forall₂ (BoundAs scope) es) s
      (bindListIn compile scope es s) := by
  induction es with
  | nil => exact .pure .nil
  | cons e es ih =>
    obtain ⟨he, hes⟩ := List.forall_mem_cons.1 h
    rw [bindListIn, List.flatMap_cons]
    exact he.bind (ih hes) fun a b => .cons

theorem bindIn_gathers (hflat : Flat e) :
    Gathers scope e.preorder (BoundAs scope e) s (bindIn compile scope e s) := by
  induction hflat with
  | @intro e hnode _ ih =>
    have hlist := bindListIn_gathers ih
    rw [preorder_eq]
    by_cases hbound : e.isBound = true
    · rw [bindIn_node hbound]
      obtain ⟨hpasses, hanswered⟩ : Passes scope e ∧ unanswered? scope e = none :=
        isBound_passes hbound
      exact .cons hpasses hanswered (hlist.map fun cs => .node hbound)
    · obtain ⟨kind, fragment, type⟩ := e
      cases kind with
      | column ref => exact bindColumn_gathers ref fragment type
      | call name builtin arguments => exact bindCall_gathers fragment type hlist
      | pending => cases hnode
      | _ => exact absurd rfl hbound

/-- What binding an expression comes to. -/
inductive Outcome (scope : Scope) (e : Expr) (s : CompilerState) :
    EStateM.Result Failure CompilerState Expr → Prop
  /-- A call of an unknown function or an ambiguous reference, the first in order. -/
  | stopped {error : Error} (h : FirstObstacle scope e.preorder error) :
      Outcome scope e s (.error (.rejected error) s)
  /-- References that no range has, reported where the first is written. -/
  | incomplete {first : FreeColumn} {rest : List FreeColumn}
      (hpasses : ∀ node ∈ e.preorder, Passes scope node)
      (h : unanswered scope e.preorder = first :: rest) :
      Outcome scope e s (.error (.rejected
        ⟨.unresolvedReference (first.text :: rest.map (·.text)), first.fragment⟩) s)
  | bound {e' : Expr} (hpasses : ∀ node ∈ e.preorder, Passes scope node)
      (hall : unanswered scope e.preorder = []) (h : BoundAs scope e e') :
      Outcome scope e s (.ok e' s)

/-- Binding is matching in the innermost group, for expressions without subqueries. -/
theorem bindWith_outcome (compile : QueryCompiler) (scope : Scope) (e : Expr) (s : CompilerState)
    (hflat : Flat e) : Outcome scope e s (bindWith compile scope e s) := by
  have h : Gathers scope e.preorder (BoundAs scope e) s (bindIn compile scope e s) :=
    bindIn_gathers hflat
  show Outcome scope e s (EStateM.bind (bindIn compile scope e) _ s)
  unfold EStateM.bind
  generalize bindIn compile scope e s = r at h
  cases h with
  | stopped h => exact .stopped h
  | @gathered e' hpasses hbound =>
    dsimp only
    cases hfree : unanswered scope e.preorder with
    | nil => exact .bound hpasses hfree (hbound hfree)
    | cons first rest => exact .incomplete hpasses hfree

/-- The variables of a routine and of a block within it, which hides one of them. -/
def blockScope : Scope :=
  ⟨[.ofVariables 1 "block" [⟨"label", .varchar⟩] .absent],
    [[.ofVariables 0 "routine" [⟨"label", .bigint⟩, ⟨"least", .varchar⟩] .absent]]⟩

/-- The comparison `UPPER(label) > LEAST`. -/
def labelTest : Expr :=
  .untyped (.binary .greater
    (.untyped (.call "UPPER" none [.untyped (.column ⟨none, "label", none⟩) (.written "label" 1 7)])
      (.written "UPPER" 1 1))
    (.untyped (.column ⟨none, "LEAST", none⟩) (.written "LEAST" 1 16))) (.written "UPPER" 1 1)

theorem bindWith_outcome_block :
    Flat labelTest ∧ Outcome blockScope labelTest .initial
      (bindWith (fun _ _ => throw .outOfRange) blockScope labelTest .initial) := by
  have hflat : Flat labelTest :=
    .pair (.wrap (.leaf rfl rfl) rfl rfl) (.leaf rfl rfl) rfl rfl
  exact ⟨hflat, bindWith_outcome _ blockScope labelTest .initial hflat⟩

end Expr

end DataChange
