import DataChange.Proofs.Expr.Conforms
import DataChange.Proofs.Marker.Query
import DataChange.Proofs.Query.Resolved

/-!
# The expressions of a query

The expressions that a query holds are resolved, or refer to all columns of a range; some of them
are given a type afterwards, and those of VALUES are put together to rows. A property that resolving
brings about and that the rest keeps (`Yielded`) is one of every expression of a query that compiles
(`compilesBody_exprs`).

Conforming to the rules of types is such a property, and so every expression that is resolved
conforms to them (`resolve_conforming`): an expression is bound first, with its subqueries compiled,
and then inferred. As for `compileWithin_resolved`, the induction is on the bound of the nesting.
-/

namespace DataChange

/-- A property that expressions have once they are resolved with a query compiler, and that the
compilation of a query keeps. -/
structure Yielded (compile : QueryCompiler) (P : Expr → Prop) : Prop where
  resolve : ∀ {scope : Scope} {e e' : Expr} {s t : CompilerState}, e.Raw →
    e.resolveWith compile scope s = .ok e' t → P e'
  condition : ∀ {scope : Scope} {e e' : Expr} {s t : CompilerState}, e.Raw →
    e.resolveConditionWith compile scope s = .ok e' t → P e'
  columns : ∀ (r : Range) (qualifier : Option String) (fragment : Fragment),
    ∀ e ∈ r.allColumns qualifier fragment, P e
  asColumn : ∀ {e : Expr}, P e → ∀ (type : SqlType) (writeable : Bool),
    P (e.asColumn type writeable)
  items : ∀ {row : Expr} {items : List Expr}, P row → row.kind = .row items → ∀ e ∈ items, P e
  withItems : ∀ {row : Expr} {items items' : List Expr}, P row → row.kind = .row items →
    (∀ e ∈ items', P e) → P { row with kind := .row items' }
  values : ∀ {rows : List Expr}, (∀ row ∈ rows, P row) → ∀ fragment : Fragment,
    P (.untyped (.values rows) fragment)

namespace Query

variable {env : Environment} {compile : QueryCompiler} {scope : Scope} {outer : List RangeGroup}
  {expected : Expectation} {s t : CompilerState} {plan : Plan} {P : Expr → Prop}

/-! ## SELECT -/

theorem typeSelected_yielded (hp : Yielded compile P) {e e' : Expr} {type : Option SqlType}
    {u : SqlType} (h : typeSelected e type = .ok (e', u)) (he : P e) : P e' := by
  unfold typeSelected at h
  split at h
  · cases h
    exact he
  · split at h
    · split at h
      · cases h
        exact hp.asColumn he _ _
      · cases h
    · cases h

theorem selectItem_yielded (hp : Yielded compile P) {selection selection' : Selection}
    {item : Item} (hraw : item.Raw)
    (h : selectItem compile scope expected selection item s = .ok selection' t)
    (hsel : ∀ e ∈ selection.projection, P e) : ∀ e ∈ selection'.projection, P e := by
  cases item with
  | all fragment =>
    simp only [selectItem] at h
    split at h
    · exact (reject_ok.1 h).elim
    · obtain ⟨rfl, -⟩ := pure_ok.1 h
      intro e he
      rcases List.mem_append.1 he with he | he
      · exact hsel e he
      · obtain ⟨r, -, he⟩ := List.mem_flatMap.1 he
        exact hp.columns r _ _ e he
  | expression e asName =>
    simp only [selectItem, bind_ok, lift_except_ok, pure_ok, Prod.exists] at h
    obtain ⟨e', _, he, e'', _, _, ⟨htype, rfl⟩, rfl, -⟩ := h
    intro x hx
    rcases List.mem_append.1 hx with hx | hx
    · exact hsel x hx
    · obtain rfl := List.mem_singleton.1 hx
      exact typeSelected_yielded hp htype (hp.resolve hraw he)

theorem resolveCondition?_yielded (hp : Yielded compile P) {condition condition' : Option Expr}
    (hraw : ∀ e ∈ condition, e.Raw)
    (h : resolveCondition? compile scope condition s = .ok condition' t) :
    ∀ e ∈ condition', P e := by
  rcases resolveCondition?_ok h with ⟨-, rfl, -⟩ | ⟨e, e', rfl, rfl, he⟩
  · simp
  · rintro _ ⟨⟩
    exact hp.condition (hraw e rfl) he

theorem compileSelect_exprs (hp : Yielded compile P)
    (h : compileSelect env compile outer expected s = .ok plan t) : ∀ e ∈ plan.exprs, P e := by
  obtain ⟨_, _, items, _, _, _, ranges, _, condition, _, selection, _, _, -, hitems, -, hranges, -,
    hc, hs, hr, rfl⟩ := compileSelect_ok h
  have hitems := forall_commaSeparated (fun _ _ _ hi => (readItem_scan hi).1) hitems
  have hproj : ∀ e ∈ selection.projection, P e :=
    foldlM_induct (fun selection => ∀ e ∈ selection.projection, P e)
      (fun item hitem _ _ _ _ hsel h => selectItem_yielded hp (hitems item hitem) h hsel) hs
      (by simp)
  have hcond := resolveCondition?_yielded hp (readCondition_scan hc).1 hr
  have hjoins : ranges.flatMap (·.join.toList) = [] := by
    refine List.flatMap_eq_nil_iff.2 fun r hr => ?_
    simp [(fromRanges_scan hranges).1 r hr]
  intro e he
  simp only [Plan.exprs, hjoins, List.append_nil, List.mem_append, Option.mem_toList] at he
  exact he.elim (hproj e) (hcond e)

theorem compileTable_exprs (hp : Yielded compile P) (h : compileTable env s = .ok plan t) :
    ∀ e ∈ plan.exprs, P e := by
  obtain ⟨_, _, name, fragment, _, range, -, -, hrange, rfl⟩ := compileTable_ok h
  obtain ⟨relation, -, rfl, -⟩ := Range.named_ok hrange
  intro e he
  exact hp.columns _ none fragment e (by simpa [Plan.exprs, Range.ofRelation, Range.fresh] using he)

/-! ## VALUES -/

theorem settleCell_yielded (hp : Yielded compile P) {cell : Expr} (h : P cell) (type : SqlType) :
    P (settleCell cell type) := by
  unfold settleCell
  split
  · exact hp.asColumn h _ _
  · exact h

theorem settleRow_yielded (hp : Yielded compile P) {row : Expr} (h : P row)
    (types : List SqlType) : P (settleRow types row) := by
  unfold settleRow
  split
  · next cells hk =>
    refine hp.withItems h hk fun c hc => ?_
    rw [← List.map_uncurry_zip_eq_zipWith] at hc
    obtain ⟨⟨cell, type⟩, hmem, rfl⟩ := List.mem_map.1 hc
    exact settleCell_yielded hp (hp.items h hk cell (List.of_mem_zip hmem).1) type
  · exact h

theorem addRow_yielded (hp : Yielded compile P) {degree : Nat}
    {joined joined' : List (Option SqlType)} {rows rows' : List Expr} {row : Expr} (hraw : row.Raw)
    (h : addRow compile outer degree (joined, rows) row s = .ok (joined', rows') t)
    (hrows : ∀ e ∈ rows, P e) : ∀ e ∈ rows', P e := by
  obtain ⟨-, row', hrow, -, rfl⟩ := addRow_ok h
  have hrow := hp.resolve (raw_asRow hraw) hrow
  intro e he
  rcases List.mem_append.1 he with he | he
  · exact hrows e he
  · exact List.mem_singleton.1 he ▸ hrow

theorem compileValues_exprs (hp : Yielded compile P)
    (h : compileValues compile outer expected s = .ok plan t) : ∀ e ∈ plan.exprs, P e := by
  obtain ⟨values, _, rows, _, joined, rows', types, degree, -, hrows, -, hadd, -, rfl⟩ :=
    compileValues_ok h
  obtain ⟨r, hr, -⟩ := lift_parser_ok.1 hrows
  have hraw := (Expr.parseList_reads _ _ _ hr).raw
  have hrows : ∀ e ∈ rows', P e :=
    foldlM_induct (fun sofar => ∀ e ∈ sofar.2, P e)
      (fun row hrow _ _ _ _ hsofar h => addRow_yielded hp (hraw row hrow) h hsofar) hadd (by simp)
  intro e he
  obtain rfl := List.mem_singleton.1 he
  refine hp.values (fun row' hrow' => ?_) _
  obtain ⟨row, hrow, rfl⟩ := List.mem_map.1 hrow'
  exact settleRow_yielded hp (hrows row hrow) types

/-! ## All queries -/

theorem compilesBody_exprs (hp : Yielded compile P)
    (h : CompilesBody env compile outer expected s plan t) : ∀ e ∈ plan.exprs, P e := by
  cases h with
  | select h => exact compileSelect_exprs hp h
  | table h => exact compileTable_exprs hp h
  | values h => exact compileValues_exprs hp h

end Query

/-! ## Conforming to the rules of types -/

/-- A query compiler whose queries conform. -/
def ConformsPlans (compile : QueryCompiler) : Prop :=
  ∀ body outer s plan t, compile body outer s = .ok plan t → plan.Conforming

namespace Expr

variable {compile : QueryCompiler} {scope : Scope} {s t : CompilerState} {e e' : Expr}

theorem resolveWith_conforming (hplans : ConformsPlans compile) (he : e.Each Uncompiled)
    (h : resolveWith compile scope e s = .ok e' t) : e'.Conforming := by
  obtain ⟨b, hb, hi⟩ := resolveWith_ok h
  exact infer_conforming (bindIn_compiled hplans he hb) hi

theorem resolveConditionWith_condition (hplans : ConformsPlans compile) (he : e.Each Uncompiled)
    (h : resolveConditionWith compile scope e s = .ok e' t) : e'.IsCondition := by
  obtain ⟨b, hb, hi⟩ := resolveConditionWith_ok h
  exact inferCondition_condition (bindIn_compiled hplans he hb) hi

end Expr

/-- The references to all columns of a range conform. -/
theorem Range.allColumns_conforming (r : Range) (qualifier : Option String) (fragment : Fragment) :
    ∀ e ∈ r.allColumns qualifier fragment, e.Conforming := by
  intro e he
  obtain ⟨i, hi, rfl⟩ := List.mem_mapIdx.1 he
  have hnode : (Expr.boundColumn qualifier r.columns[i] r.id i r.isVariables fragment).Conforms :=
    .column (b := ⟨r.id, i, r.columns[i].type, r.isVariables⟩) rfl fragment
  exact .intro hnode (fun _ hc => by cases hc) (by simp [Expr.boundColumn])

namespace Query

variable {env : Environment} {compile : QueryCompiler} {scope : Scope} {outer : List RangeGroup}
  {expected : Expectation} {s t : CompilerState} {plan : Plan}

theorem resolveCondition?_condition (hplans : ConformsPlans compile)
    {condition condition' : Option Expr} (hraw : ∀ e ∈ condition, e.Raw)
    (h : resolveCondition? compile scope condition s = .ok condition' t) :
    ∀ e ∈ condition', e.IsCondition := by
  rcases resolveCondition?_ok h with ⟨-, rfl, -⟩ | ⟨e, e', rfl, rfl, he⟩
  · simp
  · rintro _ ⟨⟩
    exact Expr.resolveConditionWith_condition hplans (hraw e rfl).uncompiled he

/-- The expressions of queries conform, if those of their subqueries do. -/
theorem conforming_yielded (hplans : ConformsPlans compile) : Yielded compile Expr.Conforming where
  resolve hraw h := Expr.resolveWith_conforming hplans hraw.uncompiled h
  condition hraw h := (Expr.resolveConditionWith_condition hplans hraw.uncompiled h).conforming
  columns := Range.allColumns_conforming
  asColumn h := h.asColumn
  items h hk e he := h.children e (by simpa [Expr.children, hk] using he)
  withItems h hk hitems := h.withItems hk hitems
  values h fragment := .values h fragment

/-! ### Queries -/

theorem embedded_conformsPlans {compile : List RangeGroup → Expectation → Compiler Plan}
    (hcompile : ∀ outer expected s plan t, compile outer expected s = .ok plan t →
      plan.Conforming) : ConformsPlans (embedded compile) := by
  intro body outer s plan t h
  obtain ⟨queries, s₁, c, hp, -, -⟩ := embedded_ok h
  exact hcompile _ _ _ _ _ hp

theorem compileWithin_conforming : ∀ (bound : Nat) (outer : List RangeGroup)
    (expected : Expectation) (s : CompilerState) (plan : Plan) (t : CompilerState),
    compileWithin env bound outer expected s = .ok plan t → plan.Conforming
  | 0, _, _, _, _, _, h => by
    obtain ⟨_, _, _, _, hb, -⟩ := compileWithin_ok h
    cases hb
  | bound + 1, _, _, _, _, _, h => by
    obtain ⟨_, _, _, _, hb, -, hbody, -⟩ := compileWithin_ok h
    cases hb
    have hplans := embedded_conformsPlans (compileWithin_conforming bound)
    exact .of_exprs (compilesBody_exprs (conforming_yielded hplans) hbody)

theorem compile_conforming (h : Query.compile env outer expected s = .ok plan t) :
    plan.Conforming := by
  simp only [Query.compile, bind_ok] at h
  obtain ⟨n, u, -, h⟩ := h
  exact compileWithin_conforming _ _ _ _ _ _ h

theorem compileTokens_conformsPlans (env : Environment) : ConformsPlans (compileTokens env) :=
  embedded_conformsPlans fun _ _ _ _ _ h => compile_conforming h

end Query

/-! ### Expressions of statements -/

namespace Expr

variable {env : Environment} {scope : Scope} {s t : CompilerState} {e e' : Expr}

theorem resolve_conforming (he : e.Each Uncompiled) (h : e.resolve env scope s = .ok e' t) :
    e'.Conforming :=
  resolveWith_conforming (Query.compileTokens_conformsPlans env) he h

theorem resolveCondition_condition (he : e.Each Uncompiled)
    (h : e.resolveCondition env scope s = .ok e' t) : e'.IsCondition :=
  resolveConditionWith_condition (Query.compileTokens_conformsPlans env) he h

end Expr

end DataChange
