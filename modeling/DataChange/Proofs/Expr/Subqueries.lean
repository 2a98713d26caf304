import DataChange.Proofs.Expr.Bound
import DataChange.Proofs.Expr.Grammar
import DataChange.Proofs.Expr.Tree

/-!
# Compiled subqueries

Binding puts a compiled query in the place of each subquery, and nothing that happens to an
expression afterwards changes these queries. So what the query compiler brings about is true of
every subquery of a bound expression (`bindIn_compiled`), and still after its types are inferred
(`infer_compiled`).
-/

namespace DataChange

namespace Expr

/-- The node is no compiled subquery. -/
def Uncompiled (n : Expr) : Prop :=
  ∀ shape plan, n.kind ≠ .query shape plan

theorem Raw.uncompiled {e : Expr} (h : Raw e) : e.Each Uncompiled := by
  refine h.imp fun n hn shape plan hk => ?_
  simp [isRaw, hk] at hn

/-- The node is no subquery, or one that is compiled to a query of some kind. -/
def CompiledTo (N : Plan → Prop) (n : Expr) : Prop :=
  ∀ shape plan, n.kind = .query shape plan → plan.columns.length = shape.degree ∧ N plan

variable {compile : QueryCompiler} {scope : Scope} {s t : CompilerState} {e e' : Expr}
  {free : List FreeColumn} {N : Plan → Prop}

/-- Binding compiles the subqueries, each to a query of the kind that the compiler makes. -/
theorem bindIn_compiled (hplans : ∀ body outer s plan t, compile body outer s = .ok plan t → N plan)
    (he : e.Each Uncompiled) (h : bindIn compile scope e s = .ok (e', free) t) :
    e'.Each (CompiledTo N) := by
  induction he generalizing e' s t free with
  | @intro e hnode _ ih =>
    have hcs : ∀ {es' free t}, bindListIn compile scope e.children s = .ok (es', free) t →
        ∀ c' ∈ es', c'.Each (CompiledTo N) := by
      intro es' free t hl c' hc'
      have hall := bindListIn_forall₂ (R := fun _ c' => c'.Each (CompiledTo N))
        (fun c hc _ _ _ _ hb => ih c hc hb) hl
      obtain ⟨c, -, hc⟩ := forall₂_exists_left hall hc'
      exact hc
    cases bindIn_ok h with
    | column => exact .leaf (fun _ _ hk => by cases hk) rfl
    | pending hp =>
      obtain ⟨outer, -, hp, hdegree⟩ := compilePending_ok hp
      refine .leaf (fun shape plan hk => ?_) rfl
      cases hk
      exact ⟨hdegree, hplans _ _ _ _ _ hp⟩
    | call _ ha => exact .intro (fun _ _ hk => by cases hk) (hcs ha)
    | node _ cs _ hlen hl =>
      refine .intro (fun shape plan hk => ?_) ?_
      · exact absurd ((withChildren_eq_query ..).1 hk) (hnode shape plan)
      · rw [children_withChildren hlen]
        exact hcs hl

/-- A type that is settled from outside changes no subquery. -/
theorem Settles.each_compiled (h : Settles e e') (he : e.Each (CompiledTo N)) :
    e'.Each (CompiledTo N) := by
  rcases h with rfl | ⟨-, t, rfl⟩
  · exact he
  · exact .intro he.node he.children

theorem infer_compiled (he : e.Each (CompiledTo N)) (h : infer e = .ok e') :
    e'.Each (CompiledTo N) := by
  induction he generalizing e' with
  | @intro e hnode _ ih =>
    have hi := infer_ok h
    refine .intro (fun shape plan hk => ?_) fun c' hc' => ?_
    · rw [hi.kind, withChildren_eq_query] at hk
      exact hnode shape plan hk
    · obtain ⟨c, hc, d, hd, hs, -⟩ := forall₂_exists_left hi.children hc'
      exact hs.each_compiled (ih c hc hd)

theorem inferCondition_compiled (he : e.Each (CompiledTo N)) (h : inferCondition e = .ok e') :
    e'.Each (CompiledTo N) := by
  unfold inferCondition at h
  split at h
  · cases h
  · next d hd =>
    have hd := infer_compiled he (asScalar_ok hd).2
    split at h
    · cases h
      exact .intro hd.node hd.children
    · cases h
      exact hd
    · cases h

theorem each_compiled_asColumn (he : e.Each (CompiledTo N)) (t : SqlType) (writeable : Bool) :
    (e.asColumn t writeable).Each (CompiledTo N) := by
  obtain ⟨kind, fragment, type⟩ := e
  cases kind with
  | parameter marker => exact .leaf (fun _ _ hk => by cases hk) rfl
  | _ => exact he

end Expr

/-! ## At any depth -/

/-- Every query that is compiled within a query, at any depth, is of some kind. -/
def Plan.EachInner (N : Plan → Prop) (plan : Plan) : Prop :=
  ∀ n ∈ plan.nodes, ∀ shape inner, n.kind = .query shape inner → N inner

/-- A query whose subqueries are of some kind, and those within them too. -/
theorem Plan.EachInner.of_exprs {N : Plan → Prop} {plan : Plan}
    (h : ∀ e ∈ plan.exprs, e.Each (Expr.CompiledTo fun inner => N inner ∧ inner.EachInner N)) :
    plan.EachInner N := by
  have hexpr : ∀ {e : Expr}, e.Each (Expr.CompiledTo fun inner => N inner ∧ inner.EachInner N) →
      ∀ n ∈ e.nodes, ∀ shape inner, n.kind = .query shape inner → N inner := by
    intro e he
    induction he with
    | intro hnode _ ih =>
      intro n hn
      rcases Expr.mem_nodes.1 hn with ⟨c, hc, hn⟩ | ⟨shape, inner, hk, hn⟩ | rfl
      · exact ih c hc n hn
      · exact (hnode shape inner hk).2.2 n hn
      · exact fun shape inner hk => (hnode shape inner hk).2.1
  intro n hn
  rw [Plan.nodes_eq] at hn
  obtain ⟨e, he, hn⟩ := List.mem_flatMap.1 hn
  exact hexpr (h e he) n hn

end DataChange
