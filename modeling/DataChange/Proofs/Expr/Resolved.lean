import DataChange.Proofs.Expr.Grammar
import DataChange.Proofs.Expr.Settled
import DataChange.Proofs.Frame
import DataChange.Proofs.Statement.Held

/-!
# Resolved expressions

In a resolved expression every column is bound to a column of a range that is visible where it
stands, and has its type; the ranges of subqueries have ids that were handed out meanwhile; every
node is settled (`ResolvedNode`). Binding and
inference establish this from expressions in which nothing is bound yet, if the query compiler
does (`resolveWith_resolved`).
-/

namespace DataChange

/-- The binding is to a column of a visible range, and has its type. -/
def Binding.In (b : Binding) (visible : List Heading) : Prop :=
  ∃ columns column, (b.range, columns) ∈ visible ∧ columns[b.column]? = some column ∧
    column.type = b.type

theorem Binding.In.mono {b : Binding} {visible visible' : List Heading} (h : b.In visible)
    (hsub : visible ⊆ visible') : b.In visible' := by
  obtain ⟨columns, column, hmem, hc⟩ := h
  exact ⟨columns, column, hsub hmem, hc⟩

/-- An id that was handed out between two states of the counter. -/
def Issued (lo hi id : Nat) : Prop :=
  lo ≤ id ∧ id < hi

theorem Issued.mono {lo hi lo' hi' : Nat} (hlo : lo' ≤ lo) (hhi : hi ≤ hi') (id : Nat)
    (h : Issued lo hi id) : Issued lo' hi' id :=
  ⟨Nat.le_trans hlo h.1, Nat.lt_of_lt_of_le h.2 hhi⟩

/-- A node that is bound to what it sees, and settled. -/
structure ResolvedNode (I : Nat → Prop) (visible : List Heading) (n : Expr) : Prop where
  column : ∀ ref, n.kind = .column ref →
    ∃ b, ref.binding = some b ∧ b.In visible ∧ n.type? = some b.type
  own : ∀ shape plan, n.kind = .query shape plan → ∀ h ∈ plan.headings, I h.1
  settled : n.SettledNode

/-- A resolved expression. -/
abbrev Expr.Resolved (I : Nat → Prop) (visible : List Heading) (e : Expr) : Prop :=
  e.Throughout (ResolvedNode I) visible

/-- A resolved expression with a type. -/
structure Expr.Typed (I : Nat → Prop) (visible : List Heading) (e : Expr) : Prop where
  resolved : e.Resolved I visible
  typed : e.type?.isSome = true

/-- A resolved query, whose ranges have ids of some kind. -/
structure Plan.Resolved (I : Nat → Prop) (visible : List Heading) (plan : Plan) : Prop where
  own : ∀ h ∈ plan.headings, I h.1
  settled : plan.Settled
  throughout : plan.Throughout (ResolvedNode I) visible

variable {I I' : Nat → Prop} {visible visible' : List Heading}

theorem ResolvedNode.weakens (hI : ∀ id, I id → I' id) :
    Weakens (ResolvedNode I) (ResolvedNode I') := by
  intro visible visible' n hsub h
  refine ⟨fun ref hk => ?_, fun shape plan hk x hx => hI _ (h.own shape plan hk x hx), h.settled⟩
  obtain ⟨b, hb, hin, ht⟩ := h.column ref hk
  exact ⟨b, hb, hin.mono hsub, ht⟩

theorem ResolvedNode.weakens_settled : Weakens (ResolvedNode I) fun _ n => n.SettledNode :=
  fun _ _ _ _ h => h.settled

theorem Expr.Resolved.mono {e : Expr} (h : e.Resolved I visible) (hI : ∀ id, I id → I' id)
    (hsub : visible ⊆ visible') : e.Resolved I' visible' :=
  (throughout_weaken (ResolvedNode.weakens hI)).1 e _ _ hsub h

theorem Expr.Resolved.isSettled {e : Expr} (h : e.Resolved I visible) : e.Settled :=
  throughout_nodes.1 e visible
    ((throughout_weaken ResolvedNode.weakens_settled).1 e _ _ (List.Subset.refl _) h)

theorem Expr.Resolved.subquery {e : Expr} {shape : QueryShape} {plan : Plan}
    (h : e.Resolved I visible) (hk : e.kind = .query shape plan) : plan.Resolved I visible :=
  ⟨h.node.own shape plan hk, (h.node.settled.plan shape plan hk).2, h.plan shape plan hk⟩

theorem Expr.Typed.isProduced {e : Expr} (h : e.Typed I visible) : e.IsProduced :=
  .inl h.typed

theorem Plan.Resolved.of_exprs {plan : Plan} (hown : ∀ h ∈ plan.headings, I h.1)
    (hsources : plan.sources = [])
    (h : ∀ e ∈ plan.exprs, e.Resolved I (plan.headings ++ visible) ∧ e.IsProduced) :
    plan.Resolved I visible :=
  ⟨hown, ⟨fun e he => (h e he).2, hsources⟩, .intro fun e he => (h e he).1⟩

theorem Plan.Resolved.mono {plan : Plan} (h : plan.Resolved I visible) (hI : ∀ id, I id → I' id)
    (hsub : visible ⊆ visible') : plan.Resolved I' visible' :=
  ⟨fun x hx => hI _ (h.own x hx), h.settled,
    (throughout_weaken (ResolvedNode.weakens hI)).2 plan _ _ hsub h.throughout⟩

theorem Plan.Resolved.settledNodes {plan : Plan} (h : plan.Resolved I visible) :
    ∀ n ∈ plan.nodes, n.SettledNode :=
  throughout_nodes.2 plan visible
    ((throughout_weaken ResolvedNode.weakens_settled).2 plan _ _ (List.Subset.refl _) h.throughout)

theorem ResolvedNode.binding_in {n : Expr} {b : Binding} (h : ResolvedNode I visible n)
    (hb : n.binding? = some b) : b.In visible := by
  unfold Expr.binding? at hb
  split at hb
  · next ref hk =>
    obtain ⟨b', hb', hin, -⟩ := h.column ref hk
    obtain rfl : b' = b := by simpa [hb'] using hb
    exact hin
  · cases hb

/-- Every node of a resolved expression is resolved with the ranges that are visible there, which
are those of the subqueries around it and those of the expression. -/
theorem resolved_nodes :
    (∀ e : Expr, ∀ visible, e.Resolved I visible → ∀ n ∈ e.nodes, ∃ own : List Heading,
      (∀ h ∈ own, I h.1) ∧ ResolvedNode I (own ++ visible) n) ∧
    ∀ plan : Plan, ∀ visible, plan.Resolved I visible → ∀ n ∈ plan.nodes, ∃ own : List Heading,
      (∀ h ∈ own, I h.1) ∧ ResolvedNode I (own ++ visible) n := by
  refine deepInduct ⟨?_, ?_⟩
  · intro e hcs hp visible h n hn
    rcases Expr.mem_nodes.1 hn with ⟨c, hc, hn⟩ | ⟨shape, plan, hk, hn⟩ | rfl
    · exact hcs c hc visible (h.children c hc) n hn
    · exact hp shape plan hk visible (h.subquery hk) n hn
    · exact ⟨[], by simp, h.node⟩
  · intro plan hes visible h n hn
    rw [Plan.nodes_eq] at hn
    obtain ⟨e, he, hn⟩ := List.mem_flatMap.1 hn
    obtain ⟨own, hown, hnode⟩ := hes e he _ (h.throughout.exprs e he) n hn
    refine ⟨own ++ plan.headings, fun x hx => ?_, by simpa using hnode⟩
    rcases List.mem_append.1 hx with hx | hx
    · exact hown x hx
    · exact h.own x hx

theorem Expr.Typed.mono {e : Expr} (h : e.Typed I visible) (hI : ∀ id, I id → I' id)
    (hsub : visible ⊆ visible') : e.Typed I' visible' :=
  ⟨h.resolved.mono hI hsub, h.typed⟩

/-! ## Changed types -/

namespace Expr

variable {e e' : Expr}

/-- A node without operands that is neither a column nor a subquery. -/
theorem Resolved.leaf (hn : e.SettledNode) (hcs : e.children = [])
    (hcolumn : ∀ ref, e.kind ≠ .column ref) (hquery : ∀ shape plan, e.kind ≠ .query shape plan) :
    Resolved I visible e :=
  .intro ⟨fun ref hk => absurd hk (hcolumn ref), fun shape plan hk => absurd hk (hquery shape plan),
    hn⟩ (by simp [hcs]) fun shape plan hk => absurd hk (hquery shape plan)

/-- A row with other items. -/
theorem Resolved.withItems {items items' : List Expr} (he : e.Resolved I visible)
    (hk : e.kind = .row items) (h : ∀ c ∈ items', c.Resolved I visible) :
    Resolved I visible { e with kind := .row items' } := by
  have hnone := he.node.settled.type_row hk
  obtain ⟨kind, fragment, type⟩ := e
  obtain rfl : type = none := hnone
  exact .intro ⟨by simp, by simp, .row items' fragment⟩ h (by simp)

theorem Resolved.values {rows : List Expr} {fragment : Fragment}
    (h : ∀ row ∈ rows, row.Resolved I visible)
    (hcells : ∀ row ∈ rows, row.isRow = true ∧ ∀ c ∈ row.children, c.isUntypedParameter = false) :
    Resolved I visible ⟨.values rows, fragment, none⟩ :=
  .intro ⟨by simp, by simp, .inl rfl, fun _ => by simp [shape], by simp [isOperation],
    fun _ => hcells, by simp⟩ h (by simp)

/-- Another node with the same operands and subquery. -/
theorem Throughout.replace {P : List Heading → Expr → Prop} (h : e.Throughout P visible)
    (hnode : P visible e') (hcs : e'.children = e.children)
    (hplan : ∀ shape plan, e'.kind = .query shape plan → e.kind = .query shape plan) :
    e'.Throughout P visible :=
  .intro hnode (hcs ▸ h.children) fun shape plan hk => h.plan shape plan (hplan shape plan hk)

/-- A single value without a type is a parameter. -/
theorem SettledNode.isUntypedParameter (h : e.SettledNode) (hs : e.shape = .scalar)
    (hnone : e.type? = none) : e.isUntypedParameter = true := by
  by_contra hu
  have ht := (h.typed (by simpa using hu)).2 hs
  simp [hnone] at ht

theorem Resolved.withType (h : e.isUntypedParameter = true) (t : SqlType) :
    (e.withType t).Resolved I visible := by
  obtain ⟨kind, fragment, type⟩ := e
  cases kind <;> try cases h
  exact .leaf (.leaf rfl (by simp [Expr.withType, shape]) rfl (by simp [Expr.withType])) rfl
    (by simp [Expr.withType]) (by simp [Expr.withType])

/-- A single value that is settled by the operation above it. -/
theorem Settles.resolved (h : Settles e e') (hr : e.Resolved I visible)
    (hs : e' = e ∨ e.shape = .scalar) : e'.Resolved I visible := by
  rcases h with rfl | ⟨hnone, t, rfl⟩
  · exact hr
  · rcases hs with hs | hs
    · rw [hs]
      exact hr
    · exact .withType (hr.node.settled.isUntypedParameter hs hnone) t

theorem Resolved.asColumn (h : e.Resolved I visible) (t : SqlType) (writeable : Bool) :
    (e.asColumn t writeable).Resolved I visible := by
  have hnode := h.node.settled.asColumn t writeable
  obtain ⟨kind, fragment, type⟩ := e
  cases kind with
  | parameter marker =>
    exact .leaf hnode rfl (by simp [Expr.asColumn]) (by simp [Expr.asColumn])
  | _ => exact h

theorem Typed.definite (h : e.Typed I visible) : e.Definite :=
  ⟨h.resolved.isSettled, h.typed⟩

/-- A conjunction is typed if its sides are. -/
theorem conjunctive_typed (I : Nat → Prop) (visible : List Heading) :
    Conjunctive fun e => e.Typed I visible where
  split {left right fragment type} h := by
    obtain ⟨hl, hr⟩ := conjunctive_definite.split h.definite
    exact ⟨⟨h.resolved.children left (by simp [children]), hl.typed⟩,
      ⟨h.resolved.children right (by simp [children]), hr.typed⟩⟩
  join {left right} hl hr := by
    have hnode := SettledNode.and hl.definite.isSingle hr.definite.isSingle
    refine ⟨.intro ⟨by simp [and], by simp [and], hnode⟩ ?_ (by simp [and]), rfl⟩
    simpa [and, children] using ⟨hl.resolved, hr.resolved⟩

/-! ## Binding -/

end Expr

/-- The ranges that an expression in a scope can see. -/
def Scope.headings (scope : Scope) : List Heading :=
  (scope.ranges ++ scope.outer.flatten).map Range.heading

namespace Scope

variable {scope : Scope} {ref : ColumnRef} {fragment : Fragment} {b : Binding}

theorem matchRange_in {qualifier : Option String} {name : String} {r : Range}
    (h : matchRange qualifier name r = some b) {visible : List Heading}
    (hr : r.heading ∈ visible) : b.In visible := by
  unfold matchRange at h
  split at h
  · split at h
    · next column _ =>
      obtain rfl := Option.some.inj h
      exact ⟨r.columns, r.columns[column], hr, List.getElem?_eq_getElem column.isLt, rfl⟩
    · cases h
  · cases h

theorem lookupIn_in {group : List Range} (h : lookupIn group ref fragment = .ok (some b)) :
    b.In (group.map Range.heading) := by
  unfold lookupIn at h
  split at h
  · cases h
  · next binding hone =>
    cases h
    have hmem : b ∈ group.filterMap (matchRange ref.qualifier ref.name) := by simp [hone]
    obtain ⟨r, hr, hmatch⟩ := List.mem_filterMap.1 hmem
    exact matchRange_in hmatch (List.mem_map_of_mem hr)
  · cases h

theorem lookupFirst_in : ∀ {groups : List RangeGroup},
    lookupFirst ref fragment groups = .ok (some b) → b.In (groups.flatten.map Range.heading)
  | [], h => by cases h
  | group :: groups, h => by
    unfold lookupFirst at h
    rw [List.flatten_cons, List.map_append]
    split at h
    · exact (lookupFirst_in h).mono (List.subset_append_right ..)
    · exact (lookupIn_in h).mono (List.subset_append_left ..)

theorem lookup_in (h : scope.lookup ref fragment = .ok (some b)) : b.In scope.headings := by
  refine (lookupFirst_in h).mono ?_
  intro x hx
  simpa [groups, headings, List.mem_flatten] using hx

/-- A subquery sees what the expression around it sees. -/
theorem within_visible {outer : List RangeGroup} (h : scope.within = .ok outer) :
    outer.flatten.map Range.heading ⊆ scope.headings := by
  unfold within at h
  intro x hx
  split at h
  · cases h
    simp only [headings, List.map_append, List.mem_append]
    exact .inr hx
  · cases hg : RangeGroup.ofRanges scope.ranges with
    | error e => simp [hg, Except.map] at h
    | ok group =>
      obtain rfl := RangeGroup.ofRanges_ok hg
      simp only [hg, Except.map, Except.ok.injEq] at h
      subst h
      simp only [headings, List.flatten_append, List.flatten_singleton, List.map_append,
        List.mem_append] at hx ⊢
      exact hx.symm

end Scope

/-- A node outside subqueries that is bound. -/
structure BoundNode (I : Nat → Prop) (visible : List Heading) (n : Expr) : Prop where
  column : ∀ ref, n.kind = .column ref → ∃ b, ref.binding = some b ∧ b.In visible
  plan : ∀ shape plan, n.kind = .query shape plan →
    plan.columns.length = shape.degree ∧ plan.Resolved I visible
  single : n.shape ≠ .rows

theorem BoundNode.mono {n : Expr} (h : BoundNode I visible n) (hI : ∀ id, I id → I' id) :
    BoundNode I' visible n :=
  ⟨h.column, fun shape plan hk => (h.plan shape plan hk).imp_right
    fun hp => hp.mono hI (List.Subset.refl _), h.single⟩

/-- A query compiler that resolves queries. -/
def ResolvesPlans (compile : QueryCompiler) : Prop :=
  ∀ body outer s plan t, compile body outer s = .ok plan t →
    plan.Resolved (Issued s.nextRange t.nextRange) (outer.flatten.map Range.heading)

namespace Expr

variable {compile : QueryCompiler} {scope : Scope} {s t : CompilerState} {e e' : Expr}
  {es es' : List Expr}

/-- An expression of which every column is bound. -/
abbrev Bound (I : Nat → Prop) (visible : List Heading) (e : Expr) : Prop :=
  e.Each (BoundNode I visible)

theorem bindListIn_bound (hresolves : ResolvesQueries compile)
    (ih : ∀ e ∈ es, ∀ s e' t, bindIn compile scope e s = .ok (e', []) t →
      e'.Bound (Issued s.nextRange t.nextRange) scope.headings)
    (h : bindListIn compile scope es s = .ok (es', []) t) :
    ∀ e' ∈ es', e'.Bound (Issued s.nextRange t.nextRange) scope.headings := by
  induction es generalizing s es' with
  | nil =>
    obtain ⟨h, -⟩ := pure_ok.1 h
    cases h
    simp
  | cons e es ihs =>
    obtain ⟨c, f, u, cs, g, hc, hcs, rfl, hfree⟩ := bindListIn_cons.1 h
    obtain ⟨rfl, rfl⟩ := List.append_eq_nil_iff.1 hfree.symm
    have hsu := (bindIn_resolves hresolves hc).ranges
    have hut := bindListIn_rel (R := fun s t => s.nextRange ≤ t.nextRange) (fun _ => Nat.le_refl _)
      Nat.le_trans (fun _ _ _ _ _ _ hb => (bindIn_resolves hresolves hb).ranges) hcs
    intro e' he'
    rcases List.mem_cons.1 he' with rfl | he'
    · exact (ih e (by simp) _ _ _ hc).imp fun n hn => hn.mono (Issued.mono (Nat.le_refl _) hut)
    · exact (ihs (fun c hc => ih c (by simp [hc])) hcs e' he').imp
        fun n hn => hn.mono (Issued.mono hsu (Nat.le_refl _))

theorem bindIn_bound (hresolves : ResolvesQueries compile) (hplans : ResolvesPlans compile)
    (hraw : Raw e) (h : bindIn compile scope e s = .ok (e', []) t) :
    e'.Bound (Issued s.nextRange t.nextRange) scope.headings := by
  induction hraw generalizing e' s t with
  | @intro e hnode _ ih =>
    have hcs : ∀ {es' : List Expr} {t : CompilerState},
        bindListIn compile scope e.children s = .ok (es', []) t →
        ∀ e' ∈ es', e'.Bound (Issued s.nextRange t.nextRange) scope.headings :=
      fun hl => bindListIn_bound hresolves (fun c hc _ _ _ hb => ih c hc hb) hl
    have hsingle : e.shape ≠ .rows := by
      rw [Ne, shape_eq_rows]
      rintro ⟨rows, hk⟩
      simp [isRaw, hk] at hnode
    cases bindIn_ok h with
    | column hb =>
      refine .intro ⟨?_, fun _ _ hk => (by cases hk), hsingle⟩ fun c hc => by cases hc
      intro ref' hk
      cases hk
      unfold bindColumn at hb
      split at hb
      · next b hbinding => simp [isRaw, hbinding] at hnode
      · split at hb
        · cases hb
        · next b hlookup =>
          cases hb
          exact ⟨b, rfl, Scope.lookup_in hlookup⟩
        · cases hb
    | pending hp =>
      obtain ⟨outer, hwithin, hp, hdegree⟩ := compilePending_ok hp
      refine .intro ⟨fun _ hk => (by cases hk), ?_, by simp [shape_eq_rows]⟩ fun c hc => by cases hc
      intro shape plan hk
      cases hk
      exact ⟨hdegree, (hplans _ _ _ _ _ hp).mono (fun _ => id) (Scope.within_visible hwithin)⟩
    | call hf ha =>
      exact .intro ⟨fun _ hk => (by cases hk), fun _ _ hk => (by cases hk), hsingle⟩ (hcs ha)
    | node _ cs hk hlen hl =>
      -- a node that is kept as it is neither names a column nor holds a subquery
      refine .intro ⟨fun ref hkind => ?_, fun shape plan hkind => ?_,
        (shape_withChildren hlen).trans_ne hsingle⟩ ?_
      · have hkind : e.kind = .column ref := by simpa [withChildren] using hkind
        simp [isBound, hkind] at hk
      · have hkind : e.kind = .query shape plan := by simpa [withChildren] using hkind
        simp [isRaw, hkind] at hnode
      · rw [children_withChildren hlen]
        exact hcs hl

/-! ## Inference -/

/-- The type that inference gives to a node. -/
theorem Inferred.typed (h : Inferred e e') (hb : BoundNode I visible e)
    (hu : e'.isUntypedParameter = false) : e'.type?.isSome = true ↔ e'.shape = .scalar := by
  have halike : e'.shape = e.shape := by
    have hlen := h.children.length_eq.symm
    rw [← shape_withChildren hlen]
    unfold shape withChildren
    rw [← h.kind]
  have ht := h.node
  rw [halike]
  unfold NodeTyped at ht
  obtain ⟨kind, fragment, type⟩ := e
  cases kind with
  | parameter marker =>
    have hk : e'.kind = .parameter marker := h.kind
    cases htype : e'.type? with
    | none => simp [isUntypedParameter, isParameter, hk, htype] at hu
    | some t => simp [shape]
  | column ref =>
    obtain ⟨b, -, ht⟩ := ht
    simp [shape, ht]
  | query queryShape plan =>
    cases queryShape with
    | row degree => simp_all [shape]
    | scalar =>
      obtain ⟨hdegree, -⟩ := hb.plan .scalar plan rfl
      obtain ⟨c, hc⟩ := List.length_eq_one_iff.1 hdegree
      simp_all [shape]
  | pending => exact ht.elim
  | _ => simp_all [shape]

/-- The node that inference makes of a bound node is resolved. -/
theorem Inferred.resolvedNode (h : Inferred e e') (hb : BoundNode I visible e) :
    ResolvedNode I visible e' := by
  have heq : e' = withChildren { e with type? := e'.type? } e'.children := by
    obtain ⟨kind, fragment, type⟩ := e'
    simp only [withChildren, mk.injEq, and_true]
    exact ⟨h.kind, h.fragment⟩
  have hquery : ∀ shape plan, e'.kind = .query shape plan → e.kind = .query shape plan := by
    intro shape plan hk
    rwa [h.kind, withChildren_eq_query] at hk
  -- one goal for each field: references, the ids of subqueries, the type, operands, rows, plans
  refine ⟨fun ref hk => ?_, fun shape plan hk => ?_, ?_, h.typed hb, fun hop c' hc' => ?_,
    fun hrows => ?_, fun shape plan hk => ?_⟩
  · rw [h.kind, withChildren_eq_column] at hk
    obtain ⟨b, hbinding, hin⟩ := hb.column ref hk
    have ht := h.node
    simp only [NodeTyped, hk] at ht
    obtain ⟨b', hb', ht⟩ := ht
    obtain rfl : b = b' := by simpa [hbinding] using hb'
    exact ⟨b, hbinding, hin, ht⟩
  · exact (hb.plan shape plan (hquery shape plan hk)).2.own
  · have ht := h.node
    rw [heq, nodeIsResolved_withChildren, isUntypedParameter_withChildren]
    unfold NodeTyped at ht
    obtain ⟨kind, fragment, type⟩ := e
    cases kind <;> simp only [nodeIsResolved, isUntypedParameter, isParameter] at ht ⊢
    case parameter => cases e'.type? <;> simp
    case column =>
      obtain ⟨b, hbinding, ht⟩ := ht
      simp [hbinding, ht]
    all_goals simp [ht]
  · have hop : e.isOperation = true := by rwa [heq, isOperation_withChildren] at hop
    obtain ⟨hscalars, huntyped⟩ := h.operands hop
    obtain ⟨c, hc, d, hd, hs, -⟩ := forall₂_exists_left h.children hc'
    refine ⟨?_, huntyped c' hc'⟩
    rw [hs.alike.shape, (infer_alike hd).shape]
    exact hscalars c hc
  · have hshape : e'.shape = e.shape := by
      rw [heq]
      exact shape_withChildren h.children.length_eq.symm
    exact absurd (hshape.symm.trans hrows) hb.single
  · exact (hb.plan shape plan (hquery shape plan hk)).imp_right (·.settled)

theorem infer_resolved (hb : e.Bound I visible) (h : infer e = .ok e') :
    e'.Resolved I visible := by
  induction hb generalizing e' with
  | @intro e hnode _ ih =>
    have hi := infer_ok h
    refine .intro (hi.resolvedNode hnode) (fun c' hc' => ?_) fun shape plan hk => ?_
    · obtain ⟨c, hc, d, hd, hs, hor⟩ := forall₂_exists_left hi.children hc'
      exact hs.resolved (ih c hc hd) (hor.imp_right ((infer_alike hd).shape.trans ·))
    · rw [hi.kind, withChildren_eq_query] at hk
      exact (hnode.plan shape plan hk).2.throughout

theorem inferCondition_typed (hb : e.Bound I visible) (h : inferCondition e = .ok e') :
    e'.Typed I visible := by
  unfold inferCondition at h
  split at h
  · cases h
  · next d hd =>
    have hr := infer_resolved hb (scalar_inferred hd)
    have hshape : d.shape = .scalar := (infer_alike (scalar_inferred hd)).shape.trans (scalar_shape hd)
    split at h
    · next hnone =>
      cases h
      exact ⟨.withType (hr.node.settled.isUntypedParameter hshape hnone) .boolean, rfl⟩
    · next htype =>
      cases h
      exact ⟨hr, by simp [htype]⟩
    · cases h

/-! ## Resolving -/

theorem resolveWith_resolved (hresolves : ResolvesQueries compile) (hplans : ResolvesPlans compile)
    (hraw : Raw e) (h : resolveWith compile scope e s = .ok e' t) :
    e'.Resolved (Issued s.nextRange t.nextRange) scope.headings := by
  obtain ⟨b, hb, hi⟩ := resolveWith_ok h
  exact infer_resolved (bindIn_bound hresolves hplans hraw hb) hi

/-- A list of rows, each of which is read by itself. -/
theorem resolveRows_resolved {rows : List Expr} {fragment : Fragment}
    (hresolves : ResolvesQueries compile) (hplans : ResolvesPlans compile)
    (hraw : ∀ row ∈ rows, row.Raw)
    (h : resolveWith compile scope (untyped (.values rows) fragment) s = .ok e' t) :
    e'.type? = none ∧
      ∀ row ∈ e'.children, row.Resolved (Issued s.nextRange t.nextRange) scope.headings := by
  obtain ⟨b, hb, hi⟩ := resolveWith_ok h
  cases bindIn_ok hb with
  | node _ cs _ hlen hl =>
    have hbound := bindListIn_bound hresolves
      (fun row hrow _ _ _ hb => bindIn_bound hresolves hplans (hraw row hrow) hb) hl
    have hinferred := infer_ok hi
    refine ⟨hinferred.node, fun row hrow => ?_⟩
    obtain ⟨c, hc, d, hd, hs, hor⟩ := forall₂_exists_left hinferred.children hrow
    exact hs.resolved (infer_resolved (hbound c hc) hd) (hor.imp_right ((infer_alike hd).shape.trans ·))

theorem resolveConditionWith_typed (hresolves : ResolvesQueries compile)
    (hplans : ResolvesPlans compile) (hraw : Raw e)
    (h : resolveConditionWith compile scope e s = .ok e' t) :
    e'.Typed (Issued s.nextRange t.nextRange) scope.headings := by
  obtain ⟨b, hb, hi⟩ := resolveConditionWith_ok h
  exact inferCondition_typed (bindIn_bound hresolves hplans hraw hb) hi

end Expr

end DataChange
