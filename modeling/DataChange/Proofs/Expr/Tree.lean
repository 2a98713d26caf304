import DataChange.Expr.Nodes

/-!
# Expressions as trees

An expression is a node with operands, `children`; a compiled subquery is a leaf with a plan. A
pass over expressions keeps the nodes and changes their operands: `withChildren` puts other
operands under a node, `Expr.induct` is induction through the operands, and `Each` speaks of all
nodes outside subqueries.

What a column refers to depends on the ranges that are visible where it stands: those of the
expression itself, and inside a subquery the ranges of the subquery too. `Throughout P visible e`
says that `P` holds of every node of an expression, in its subqueries too, together with what is
visible there. `Expr.deepInduct` is induction through operands and subqueries.
-/

namespace DataChange

namespace Expr

/-! ## Induction -/

theorem sizeOf_lt_of_mem_children {c e : Expr} (h : c ∈ e.children) : sizeOf c < sizeOf e := by
  obtain ⟨kind, fragment, type⟩ := e
  cases kind <;> simp only [children, List.mem_cons, List.not_mem_nil, or_false] at h
  case row items | values items | call _ _ items =>
    have := List.sizeOf_lt_of_mem h
    simp
    omega
  case unary | isNull =>
    subst h
    simp
    omega
  case binary =>
    rcases h with rfl | rfl <;>
    · simp
      omega

/-- Induction through the operands. -/
@[elab_as_elim]
theorem induct {motive : Expr → Prop} (h : ∀ e, (∀ c ∈ e.children, motive c) → motive e)
    (e : Expr) : motive e :=
  h e fun c _ => induct h c
termination_by sizeOf e
decreasing_by exact sizeOf_lt_of_mem_children ‹_›

/-! ## Outside subqueries -/

/-- A predicate holds of a node and of all nodes below it, outside subqueries. -/
inductive Each (P : Expr → Prop) : Expr → Prop
  | intro {e : Expr} (node : P e) (children : ∀ c ∈ e.children, Each P c) : Each P e

namespace Each

variable {P Q : Expr → Prop} {e : Expr}

theorem node (h : Each P e) : P e := by
  cases h with
  | intro node _ => exact node

theorem children (h : Each P e) : ∀ c ∈ e.children, Each P c := by
  cases h with
  | intro _ children => exact children

theorem imp (h : Each P e) (hpq : ∀ e, P e → Q e) : Each Q e := by
  induction h with
  | intro node _ ih => exact .intro (hpq _ node) ih

theorem leaf (hk : P e) (hc : e.children = []) : Each P e :=
  .intro hk (by simp [hc])

theorem wrap {c : Expr} (h : Each P c) (hk : P e) (hc : e.children = [c]) : Each P e := by
  refine .intro hk fun d hd => ?_
  rw [hc, List.mem_singleton] at hd
  exact hd ▸ h

theorem pair {c d : Expr} (hc : Each P c) (hd : Each P d) (hk : P e)
    (h : e.children = [c, d]) : Each P e := by
  refine .intro hk fun x hx => ?_
  simp only [h, List.mem_cons, List.not_mem_nil, or_false] at hx
  rcases hx with rfl | rfl
  · exact hc
  · exact hd

end Each

/-! ## Nodes -/

/-- The nodes of the subquery that a node is. -/
def planNodes (e : Expr) : List Expr :=
  match e.kind with
  | .query _ plan => plan.nodes
  | _ => []

theorem nodesOfList_eq (es : List Expr) : nodesOfList es = es.flatMap nodes := by
  induction es with
  | nil => rfl
  | cons e es ih => simp [nodesOfList, ih]

theorem nodesOfOption_eq (e : Option Expr) : nodesOfOption e = e.toList.flatMap nodes := by
  cases e <;> simp [nodesOfOption]

/-- The nodes of an expression: those of its operands, those of its plan, and itself. -/
theorem nodes_eq (e : Expr) : e.nodes = e.children.flatMap nodes ++ e.planNodes ++ [e] := by
  obtain ⟨kind, fragment, type⟩ := e
  cases kind <;> simp [nodes, ExprKind.nodes, children, planNodes, nodesOfList_eq]

theorem mem_nodes {n e : Expr} :
    n ∈ e.nodes ↔ (∃ c ∈ e.children, n ∈ c.nodes) ∨
      (∃ shape plan, e.kind = .query shape plan ∧ n ∈ plan.nodes) ∨ n = e := by
  have hplan : n ∈ e.planNodes ↔ ∃ shape plan, e.kind = .query shape plan ∧ n ∈ plan.nodes := by
    unfold planNodes
    split
    · next shape plan hk =>
      refine ⟨fun hn => ⟨shape, plan, hk, hn⟩, ?_⟩
      rintro ⟨shape', plan', hk', hn⟩
      obtain ⟨-, rfl⟩ := ExprKind.query.inj (hk.symm.trans hk')
      exact hn
    · simp_all
  rw [nodes_eq, ← hplan]
  simp

theorem self_mem_nodes (e : Expr) : e ∈ e.nodes :=
  mem_nodes.2 (.inr (.inr rfl))

end Expr

/-! ## Other operands -/

/-- The node with other operands. -/
def ExprKind.withChildren : ExprKind → List Expr → ExprKind
  | .row _, items => .row items
  | .values _, rows => .values rows
  | .call name builtin _, arguments => .call name builtin arguments
  | .unary op _, [operand] => .unary op operand
  | .isNull _ negated, [operand] => .isNull operand negated
  | .binary op _ _, [left, right] => .binary op left right
  | kind, _ => kind

namespace Expr

/-- The node with other operands. -/
def withChildren (e : Expr) (cs : List Expr) : Expr :=
  { e with kind := e.kind.withChildren cs }

/-- As many operands as a node has are the operands that it gets. -/
theorem children_withChildren {e : Expr} {cs : List Expr} (h : cs.length = e.children.length) :
    (e.withChildren cs).children = cs := by
  obtain ⟨kind, fragment, type⟩ := e
  cases kind <;> simp only [children, List.length_cons, List.length_nil] at h
  case unary | isNull =>
    obtain ⟨c, rfl⟩ := List.length_eq_one_iff.1 h
    rfl
  case binary =>
    match cs, h with
    | [c, d], _ => rfl
  case row | values | call => rfl
  all_goals
    obtain rfl := List.length_eq_zero_iff.1 h
    rfl

@[simp] theorem withChildren_eq_column (kind : ExprKind) (cs : List Expr) (ref : ColumnRef) :
    kind.withChildren cs = .column ref ↔ kind = .column ref := by
  cases kind <;> rcases cs with _ | ⟨c, _ | ⟨d, _ | ⟨x, xs⟩⟩⟩ <;> simp [ExprKind.withChildren]

@[simp] theorem withChildren_eq_query (kind : ExprKind) (cs : List Expr) (shape : QueryShape)
    (plan : Plan) : kind.withChildren cs = .query shape plan ↔ kind = .query shape plan := by
  cases kind <;> rcases cs with _ | ⟨c, _ | ⟨d, _ | ⟨x, xs⟩⟩⟩ <;> simp [ExprKind.withChildren]

@[simp] theorem planNodes_withChildren (e : Expr) (cs : List Expr) :
    (e.withChildren cs).planNodes = e.planNodes := by
  obtain ⟨kind, fragment, type⟩ := e
  cases kind <;> simp only [withChildren, planNodes] <;>
    rcases cs with _ | ⟨c, _ | ⟨d, _ | ⟨x, xs⟩⟩⟩ <;> rfl

@[simp] theorem nodeIsResolved_withChildren (e : Expr) (cs : List Expr) :
    (e.withChildren cs).nodeIsResolved = e.nodeIsResolved := by
  obtain ⟨kind, fragment, type⟩ := e
  cases kind <;> rcases cs with _ | ⟨c, _ | ⟨d, _ | ⟨x, xs⟩⟩⟩ <;> rfl

@[simp] theorem isUntypedParameter_withChildren (e : Expr) (cs : List Expr) :
    (e.withChildren cs).isUntypedParameter = e.isUntypedParameter := by
  obtain ⟨kind, fragment, type⟩ := e
  cases kind <;> rcases cs with _ | ⟨c, _ | ⟨d, _ | ⟨x, xs⟩⟩⟩ <;> rfl

@[simp] theorem fragment_withChildren (e : Expr) (cs : List Expr) :
    (e.withChildren cs).fragment = e.fragment := rfl

@[simp] theorem type_withChildren (e : Expr) (cs : List Expr) :
    (e.withChildren cs).type? = e.type? := rfl

end Expr

/-! ## Queries -/

/-- What a reference can tell of a range: its id and its columns. -/
abbrev Heading := Nat × List Attribute

def Range.heading (r : Range) : Heading :=
  (r.id, r.columns)

/-- The ranges that a query adds to those around it. -/
def Plan.headings : Plan → List Heading
  | .select _ _ ranges _ => ranges.map Range.heading
  | .values .. => []

/-- The expressions of a query. -/
def Plan.exprs : Plan → List Expr
  | .select _ projection ranges condition =>
    projection ++ ranges.flatMap (·.join.toList) ++ condition.toList
  | .values _ rows => [rows]

theorem Range.nodesOfList_eq (rs : List Range) :
    Range.nodesOfList rs = rs.flatMap fun r => r.join.toList.flatMap Expr.nodes := by
  induction rs with
  | nil => rfl
  | cons r rs ih =>
    obtain ⟨id, name, source, columns, used, join, fragment⟩ := r
    simp [Range.nodesOfList, Range.nodes, Expr.nodesOfOption_eq, ih]

/-- The nodes of a query are those of its expressions. -/
theorem Plan.nodes_eq (plan : Plan) : plan.nodes = plan.exprs.flatMap Expr.nodes := by
  cases plan <;>
    simp [Plan.nodes, Plan.exprs, Expr.nodesOfList_eq, Expr.nodesOfOption_eq, Range.nodesOfList_eq,
      List.flatMap_assoc]

/-! ## Induction through subqueries -/

theorem Expr.sizeOf_plan_lt {e : Expr} {shape : QueryShape} {plan : Plan}
    (h : e.kind = .query shape plan) : sizeOf plan < sizeOf e := by
  obtain ⟨kind, fragment, type⟩ := e
  subst h
  simp
  omega

theorem Range.sizeOf_join_lt {r : Range} {e : Expr} (h : r.join = some e) :
    sizeOf e < sizeOf r := by
  obtain ⟨id, name, source, columns, used, join, fragment⟩ := r
  subst h
  simp
  omega

theorem Plan.sizeOf_lt_of_mem_exprs {plan : Plan} {e : Expr} (h : e ∈ plan.exprs) :
    sizeOf e < sizeOf plan := by
  cases plan with
  | select columns projection ranges condition =>
    simp only [Plan.exprs, List.mem_append, List.mem_flatMap, Option.mem_toList] at h
    simp only [Plan.select.sizeOf_spec]
    rcases h with (h | ⟨r, hr, he⟩) | rfl
    · have := List.sizeOf_lt_of_mem h
      omega
    · have := List.sizeOf_lt_of_mem hr
      have := Range.sizeOf_join_lt he
      omega
    · simp only [Option.some.sizeOf_spec]
      omega
  | values columns rows =>
    obtain rfl := List.mem_singleton.1 h
    simp only [Plan.values.sizeOf_spec]
    omega

/-- The steps of an induction through operands and subqueries. -/
structure DeepInduction (M : Expr → Prop) (N : Plan → Prop) : Prop where
  expr : ∀ e : Expr, (∀ c ∈ e.children, M c) →
    (∀ shape plan, e.kind = .query shape plan → N plan) → M e
  plan : ∀ plan : Plan, (∀ e ∈ plan.exprs, M e) → N plan

theorem deepInduct {M : Expr → Prop} {N : Plan → Prop} (h : DeepInduction M N) :
    (∀ e, M e) ∧ ∀ plan, N plan := by
  have hsize : ∀ n, (∀ e : Expr, sizeOf e < n → M e) ∧ ∀ plan : Plan, sizeOf plan < n → N plan := by
    intro n
    induction n with
    | zero => exact ⟨by simp, by simp⟩
    | succ n ih =>
      refine ⟨fun e hn => h.expr e (fun c hc => ih.1 c ?_) fun shape plan hk => ih.2 plan ?_,
        fun plan hn => h.plan plan fun e he => ih.1 e ?_⟩
      · have := Expr.sizeOf_lt_of_mem_children hc
        omega
      · have := Expr.sizeOf_plan_lt hk
        omega
      · have := Plan.sizeOf_lt_of_mem_exprs he
        omega
  exact ⟨fun e => (hsize _).1 e (Nat.lt_succ_self _), fun plan => (hsize _).2 plan (Nat.lt_succ_self _)⟩

theorem Expr.mem_nodes_of_mem_children {e c : Expr} (h : c ∈ e.children) : c ∈ e.nodes :=
  mem_nodes.2 (.inl ⟨c, h, self_mem_nodes c⟩)

/-- The nodes of a node are nodes of the whole. -/
theorem nodes_trans : (∀ e : Expr, ∀ m ∈ e.nodes, m.nodes ⊆ e.nodes) ∧
    ∀ plan : Plan, ∀ m ∈ plan.nodes, m.nodes ⊆ plan.nodes := by
  refine deepInduct ⟨?_, ?_⟩
  · intro e hcs hp m hm n hn
    rcases Expr.mem_nodes.1 hm with ⟨c, hc, hm⟩ | ⟨shape, plan, hk, hm⟩ | rfl
    · exact Expr.mem_nodes.2 (.inl ⟨c, hc, hcs c hc m hm hn⟩)
    · exact Expr.mem_nodes.2 (.inr (.inl ⟨shape, plan, hk, hp shape plan hk m hm hn⟩))
    · exact hn
  · intro plan hes m hm n hn
    rw [Plan.nodes_eq] at hm ⊢
    obtain ⟨e, he, hm⟩ := List.mem_flatMap.1 hm
    exact List.mem_flatMap.2 ⟨e, he, hes e he m hm hn⟩

/-! ## Every node with what it sees -/

mutual

/-- A predicate holds of every node of an expression and of what is visible there. -/
inductive Expr.Throughout (P : List Heading → Expr → Prop) : List Heading → Expr → Prop
  | intro {visible : List Heading} {e : Expr} (node : P visible e)
      (children : ∀ c ∈ e.children, Expr.Throughout P visible c)
      (plan : ∀ shape plan, e.kind = .query shape plan → Plan.Throughout P visible plan) :
      Expr.Throughout P visible e

/-- The same for a query, whose expressions see its ranges too. -/
inductive Plan.Throughout (P : List Heading → Expr → Prop) : List Heading → Plan → Prop
  | intro {visible : List Heading} {plan : Plan}
      (exprs : ∀ e ∈ plan.exprs, Expr.Throughout P (plan.headings ++ visible) e) :
      Plan.Throughout P visible plan

end

variable {P Q : List Heading → Expr → Prop} {visible visible' : List Heading} {e : Expr}

namespace Expr.Throughout

theorem node (h : e.Throughout P visible) : P visible e := by
  cases h with
  | intro node _ _ => exact node

theorem children (h : e.Throughout P visible) : ∀ c ∈ e.children, c.Throughout P visible := by
  cases h with
  | intro _ children _ => exact children

theorem plan (h : e.Throughout P visible) :
    ∀ shape plan, e.kind = .query shape plan → plan.Throughout P visible := by
  cases h with
  | intro _ _ plan => exact plan

end Expr.Throughout

theorem Plan.Throughout.exprs {plan : Plan} (h : plan.Throughout P visible) :
    ∀ e ∈ plan.exprs, e.Throughout P (plan.headings ++ visible) := by
  cases h with
  | intro exprs => exact exprs

/-- What holds of a node still holds where more is visible. -/
def Weakens (P Q : List Heading → Expr → Prop) : Prop :=
  ∀ visible visible' n, visible ⊆ visible' → P visible n → Q visible' n

theorem throughout_weaken (hpq : Weakens P Q) :
    (∀ e : Expr, ∀ visible visible', visible ⊆ visible' → e.Throughout P visible →
      e.Throughout Q visible') ∧
    ∀ plan : Plan, ∀ visible visible', visible ⊆ visible' → plan.Throughout P visible →
      plan.Throughout Q visible' := by
  refine deepInduct ⟨?_, ?_⟩
  · intro e hcs hp visible visible' hsub h
    exact .intro (hpq _ _ _ hsub h.node) (fun c hc => hcs c hc _ _ hsub (h.children c hc))
      fun shape plan hk => hp shape plan hk _ _ hsub (h.plan shape plan hk)
  · intro plan hes visible visible' hsub h
    have hsub : plan.headings ++ visible ⊆ plan.headings ++ visible' :=
      List.append_subset.2 ⟨List.subset_append_left ..,
        List.Subset.trans hsub (List.subset_append_right ..)⟩
    exact .intro fun e he => hes e he _ _ hsub (h.exprs e he)

/-- A predicate that looks at nodes only holds of all nodes. -/
theorem throughout_nodes {P : Expr → Prop} :
    (∀ e : Expr, ∀ visible, e.Throughout (fun _ n => P n) visible → ∀ n ∈ e.nodes, P n) ∧
    ∀ plan : Plan, ∀ visible, plan.Throughout (fun _ n => P n) visible →
      ∀ n ∈ plan.nodes, P n := by
  refine deepInduct ⟨?_, ?_⟩
  · intro e hcs hp visible h n hn
    rcases Expr.mem_nodes.1 hn with ⟨c, hc, hn⟩ | ⟨shape, plan, hk, hn⟩ | rfl
    · exact hcs c hc visible (h.children c hc) n hn
    · exact hp shape plan hk visible (h.plan shape plan hk) n hn
    · exact h.node
  · intro plan hes visible h n hn
    rw [Plan.nodes_eq] at hn
    obtain ⟨e, he, hn⟩ := List.mem_flatMap.1 hn
    exact hes e he _ (h.exprs e he) n hn

end DataChange
