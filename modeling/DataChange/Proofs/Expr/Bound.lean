import DataChange.Expr.Binding
import DataChange.Proofs.Expr.Typed
import DataChange.Proofs.Runs

/-!
# What binding does to a node

`bindIn_ok` says what binding does to one node: a column is looked up, a subquery is compiled, a
call finds its function, and the operands of any other node are bound from left to right.
-/

namespace DataChange

namespace Expr

/-! ## One node -/

/-- Whether there is nothing to bind in the node itself. -/
def isBound (e : Expr) : Bool :=
  match e.kind with
  | .column _ | .pending .. | .call .. => false
  | _ => true

/-- What binding does to one node. -/
inductive BindsNode (compile : QueryCompiler) (scope : Scope) (s : CompilerState) :
    Expr → List FreeColumn → Expr → CompilerState → Prop
  | column {ref ref' : ColumnRef} {fragment : Fragment} {type : Option SqlType}
      {free : List FreeColumn} (h : bindColumn scope ref fragment = .ok (ref', free)) :
      BindsNode compile scope s ⟨.column ref, fragment, type⟩ free ⟨.column ref', fragment, type⟩ s
  | pending {shape : QueryShape} {body : List Token} {fragment : Fragment} {type : Option SqlType}
      {plan : Plan} {t : CompilerState}
      (h : compilePending compile scope shape body fragment s = .ok plan t) :
      BindsNode compile scope s ⟨.pending shape body, fragment, type⟩ []
        ⟨.query shape plan, fragment, type⟩ t
  | call {name : String} {builtin : Option Builtin} {found : Builtin} {fragment : Fragment}
      {type : Option SqlType} {arguments arguments' : List Expr} {free : List FreeColumn}
      {t : CompilerState} (hf : findBuiltin name builtin fragment = .ok found)
      (h : bindListIn compile scope arguments s = .ok (arguments', free) t) :
      BindsNode compile scope s ⟨.call name builtin arguments, fragment, type⟩ free
        ⟨.call name (some found) arguments', fragment, type⟩ t
  | node (e : Expr) (cs : List Expr) {free : List FreeColumn} {t : CompilerState}
      (hk : e.isBound = true) (hlen : cs.length = e.children.length)
      (h : bindListIn compile scope e.children s = .ok (cs, free) t) :
      BindsNode compile scope s e free (e.withChildren cs) t

variable {compile : QueryCompiler} {scope : Scope} {s t : CompilerState} {e e' : Expr}
  {es es' : List Expr} {free : List FreeColumn}

theorem bindListIn_cons :
    bindListIn compile scope (e :: es) s = .ok (es', free) t ↔
      ∃ e' f u fs g, bindIn compile scope e s = .ok (e', f) u ∧
        bindListIn compile scope es u = .ok (fs, g) t ∧ es' = e' :: fs ∧ free = f ++ g := by
  simp only [bindListIn, bind_ok, pure_ok, Prod.mk.injEq, Prod.exists]
  grind

theorem length_bindListIn (h : bindListIn compile scope es s = .ok (es', free) t) :
    es'.length = es.length := by
  induction es generalizing s es' free with
  | nil =>
    obtain ⟨h, -⟩ := pure_ok.1 h
    cases h
    rfl
  | cons e es ih =>
    obtain ⟨e', f, u, fs, g, -, hes, rfl, -⟩ := bindListIn_cons.1 h
    simp [ih hes]

/-- Binding a single operand is binding a list of one. -/
theorem bindListIn_single (h : bindIn compile scope e s = .ok (e', free) t) :
    bindListIn compile scope [e] s = .ok ([e'], free) t :=
  bindListIn_cons.2 ⟨e', free, t, [], [], h, rfl, rfl, by simp⟩

theorem bindIn_ok (h : bindIn compile scope e s = .ok (e', free) t) :
    BindsNode compile scope s e free e' t := by
  obtain ⟨kind, fragment, type⟩ := e
  cases kind with
  | column ref =>
    simp only [bindIn, bind_ok, lift_except_ok, pure_ok, Prod.mk.injEq, Prod.exists] at h
    obtain ⟨ref', f, _, ⟨hb, rfl⟩, ⟨rfl, rfl⟩, rfl⟩ := h
    exact .column hb
  | pending shape body =>
    simp only [bindIn, bind_ok, pure_ok, Prod.mk.injEq] at h
    obtain ⟨plan, _, hp, ⟨rfl, rfl⟩, rfl⟩ := h
    exact .pending hp
  | call name builtin arguments =>
    simp only [bindIn, bind_ok, lift_except_ok, pure_ok, Prod.mk.injEq, Prod.exists] at h
    obtain ⟨found, _, ⟨hf, rfl⟩, arguments', f, _, ha, ⟨rfl, rfl⟩, rfl⟩ := h
    exact .call hf ha
  | row items | values items =>
    simp only [bindIn, bind_ok, pure_ok, Prod.mk.injEq, Prod.exists] at h
    obtain ⟨items', f, _, hi, ⟨rfl, rfl⟩, rfl⟩ := h
    exact .node _ items' rfl (length_bindListIn hi) hi
  | unary op operand =>
    simp only [bindIn, bind_ok, pure_ok, Prod.mk.injEq, Prod.exists] at h
    obtain ⟨operand', f, _, ho, ⟨rfl, rfl⟩, rfl⟩ := h
    exact .node ⟨.unary op operand, fragment, type⟩ [operand'] rfl rfl (bindListIn_single ho)
  | isNull operand negated =>
    simp only [bindIn, bind_ok, pure_ok, Prod.mk.injEq, Prod.exists] at h
    obtain ⟨operand', f, _, ho, ⟨rfl, rfl⟩, rfl⟩ := h
    exact .node ⟨.isNull operand negated, fragment, type⟩ [operand'] rfl rfl
      (bindListIn_single ho)
  | binary op left right =>
    simp only [bindIn, bind_ok, pure_ok, Prod.mk.injEq, Prod.exists] at h
    obtain ⟨left', f, u, hl, right', g, _, hr, ⟨rfl, rfl⟩, rfl⟩ := h
    exact .node ⟨.binary op left right, fragment, type⟩ [left', right'] rfl rfl
      (bindListIn_cons.2 ⟨left', f, u, [right'], g, hl, bindListIn_single hr, rfl, rfl⟩)
  | constant | parameter | defaultMarker | query | diagnostics =>
    simp only [bindIn, pure_ok, Prod.mk.injEq] at h
    obtain ⟨⟨rfl, rfl⟩, rfl⟩ := h
    exact .node _ [] rfl rfl rfl

/-! ## States -/

theorem compilePending_ok {shape : QueryShape} {body : List Token} {fragment : Fragment}
    {plan : Plan} (h : compilePending compile scope shape body fragment s = .ok plan t) :
    ∃ outer, scope.within = .ok outer ∧ compile body outer s = .ok plan t ∧
      plan.columns.length = shape.degree := by
  simp only [compilePending, bind_ok, lift_except_ok] at h
  obtain ⟨outer, _, ⟨ho, rfl⟩, plan', u, hp, h⟩ := h
  split at h
  · rename_i hd
    obtain ⟨rfl, rfl⟩ := pure_ok.1 h
    exact ⟨outer, ho, hp, hd⟩
  · exact (reject_ok.1 h).elim

section

variable {R : CompilerState → CompilerState → Prop}

theorem bindListIn_rel (hrefl : ∀ s, R s s) (htrans : ∀ {s t u}, R s t → R t u → R s u)
    (ih : ∀ e ∈ es, ∀ s e' free t, bindIn compile scope e s = .ok (e', free) t → R s t)
    (h : bindListIn compile scope es s = .ok (es', free) t) : R s t := by
  induction es generalizing s es' free with
  | nil =>
    obtain ⟨-, rfl⟩ := pure_ok.1 h
    exact hrefl _
  | cons e es ihs =>
    obtain ⟨e', f, u, fs, g, he, hes, -, -⟩ := bindListIn_cons.1 h
    exact htrans (ih e (by simp) _ _ _ _ he) (ihs (fun c hc => ih c (by simp [hc])) hes)

/-- Binding changes the state only by compiling subqueries. -/
theorem bindIn_rel (hrefl : ∀ s, R s s) (htrans : ∀ {s t u}, R s t → R t u → R s u)
    (hcompile : ∀ body outer s plan t, compile body outer s = .ok plan t → R s t)
    (h : bindIn compile scope e s = .ok (e', free) t) : R s t := by
  induction e using induct generalizing e' s t free with
  | h e ih =>
    have hcs : ∀ {es' free t}, bindListIn compile scope e.children s = .ok (es', free) t → R s t :=
      fun hl => bindListIn_rel hrefl htrans (fun c hc _ _ _ _ hb => ih c hc hb) hl
    cases bindIn_ok h with
    | column hb => exact hrefl _
    | pending hp =>
      obtain ⟨outer, -, hp, -⟩ := compilePending_ok hp
      exact hcompile _ _ _ _ _ hp
    | call hf ha => exact hcs ha
    | node _ cs hk hlen hl => exact hcs hl

end

/-! ## Shapes -/

theorem bindListIn_forall₂ {R : Expr → Expr → Prop}
    (ih : ∀ e ∈ es, ∀ s e' free t, bindIn compile scope e s = .ok (e', free) t → R e e')
    (h : bindListIn compile scope es s = .ok (es', free) t) : List.Forall₂ R es es' := by
  induction es generalizing s es' free with
  | nil =>
    obtain ⟨h, -⟩ := pure_ok.1 h
    cases h
    exact .nil
  | cons e es ihs =>
    obtain ⟨e', f, u, fs, g, he, hes, rfl, -⟩ := bindListIn_cons.1 h
    exact .cons (ih e (by simp) _ _ _ _ he) (ihs (fun c hc => ih c (by simp [hc])) hes)

/-- Binding keeps the shape of an expression. -/
theorem bindIn_alike (h : bindIn compile scope e s = .ok (e', free) t) : Alike e e' := by
  induction e using induct generalizing e' s t free with
  | h e ih =>
    have hcs : ∀ {es' free t}, bindListIn compile scope e.children s = .ok (es', free) t →
        List.Forall₂ Alike e.children es' :=
      fun hl => bindListIn_forall₂ (fun c hc _ _ _ _ hb => ih c hc hb) hl
    cases bindIn_ok h with
    | column hb => exact .intro rfl .nil
    | @pending shape => exact .intro (by cases shape <;> rfl) .nil
    | call hf ha => exact .intro rfl (hcs ha)
    | node _ cs hk hlen hl => exact .withChildren (hcs hl)

/-! ## Whole expressions -/

theorem bindWith_ok (h : bindWith compile scope e s = .ok e' t) :
    bindIn compile scope e s = .ok (e', []) t := by
  simp only [bindWith, bind_ok, lift_except_ok, pure_ok, Prod.exists] at h
  obtain ⟨e', free, u, hb, _, _, ⟨hfree, rfl⟩, rfl, rfl⟩ := h
  cases free with
  | nil => exact hb
  | cons f free => cases hfree

theorem resolveWith_ok (h : resolveWith compile scope e s = .ok e' t) :
    ∃ b, bindIn compile scope e s = .ok (b, []) t ∧ infer b = .ok e' := by
  simp only [resolveWith, bind_ok, lift_except_ok] at h
  obtain ⟨b, _, hb, hi, rfl⟩ := h
  exact ⟨b, bindWith_ok hb, hi⟩

/-- Resolving keeps the shape of an expression. -/
theorem resolveWith_alike (h : resolveWith compile scope e s = .ok e' t) : Alike e e' := by
  obtain ⟨b, hb, hi⟩ := resolveWith_ok h
  exact (bindIn_alike hb).trans (infer_alike hi)

theorem resolveConditionWith_ok (h : resolveConditionWith compile scope e s = .ok e' t) :
    ∃ b, bindIn compile scope e s = .ok (b, []) t ∧ inferCondition b = .ok e' := by
  simp only [resolveConditionWith, bind_ok, lift_except_ok] at h
  obtain ⟨b, _, hb, hi, rfl⟩ := h
  exact ⟨b, bindWith_ok hb, hi⟩

end Expr

end DataChange
