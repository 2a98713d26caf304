import DataChange.Proofs.Expr.Resolved
import DataChange.Proofs.Marker.Query
import DataChange.Proofs.Query.Values

/-!
# Resolved queries

A query that compiles is resolved: its expressions see its own ranges and those around it, and its
ranges have ids of their own (`compileTokens_resolvesPlans`). The induction is on the bound of the
nesting, since a query is compiled with a compiler for the queries inside it.
-/

namespace DataChange

variable {lo hi : Nat} {I : Nat → Prop} {visible : List Heading}

/-- What is read between commas, with the ids that were handed out meanwhile. -/
theorem commaSeparated_issued {α : Type} {item : Compiler α} {P : Nat → Nat → α → Prop}
    (hmono : ∀ {lo hi lo' hi' a}, lo' ≤ lo → hi ≤ hi' → P lo hi a → P lo' hi' a)
    (hkeeps : ∀ s a t, item s = .ok a t → Keeps s t)
    (hitem : ∀ s a t, item s = .ok a t → P s.nextRange t.nextRange a) {as : List α}
    {s t : CompilerState} (h : commaSeparated item s = .ok as t) :
    ∀ a ∈ as, P s.nextRange t.nextRange a := by
  -- the ids that are given only grow, so what an earlier item was given remains in the interval
  refine (commaSteps_induct (fun as u => s.nextRange ≤ u.nextRange ∧
    ∀ a ∈ as, P s.nextRange u.nextRange a) h ?_ ?_ ?_ ?_).2
  · intro as u h
    simp only [bind_ok, pure_ok] at h
    obtain ⟨a, _, ha, rfl, rfl⟩ := h
    exact ⟨(hkeeps _ _ _ ha).ranges, by simpa using hitem _ _ _ ha⟩
  · intro as u n v hi hr
    have hle := (reader_keeps hr).ranges
    exact ⟨Nat.le_trans hi.1 hle, fun a ha => hmono (Nat.le_refl _) hle (hi.2 a ha)⟩
  · intro as u v bs w hi hskip h
    simp only [bind_ok, pure_ok] at h
    obtain ⟨a, _, ha, rfl, rfl⟩ := h
    have hskip := (reader_keeps hskip).ranges
    have hle := Nat.le_trans hskip (hkeeps _ _ _ ha).ranges
    refine ⟨Nat.le_trans hi.1 hle, fun x hx => ?_⟩
    rcases List.mem_append.1 hx with hx | hx
    · exact hmono (Nat.le_refl _) hle (hi.2 x hx)
    · obtain rfl := List.mem_singleton.1 hx
      exact hmono (Nat.le_trans hi.1 hskip) (Nat.le_refl _) (hitem _ _ _ ha)
  · intro as u v hi hr
    have hle := (reader_keeps hr).ranges
    exact ⟨Nat.le_trans hi.1 hle, fun a ha => hmono (Nat.le_refl _) hle (hi.2 a ha)⟩

/-! ## Ranges -/

/-- A range over a relation, with an id between two numbers. -/
structure Range.Opened (lo hi : Nat) (r : Range) : Prop where
  lower : lo ≤ r.id
  upper : r.id < hi
  join : r.join = none
  plans : r.plans = []

theorem Range.Opened.mono {r : Range} (h : r.Opened lo hi) {lo' hi' : Nat} (hlo : lo' ≤ lo)
    (hhi : hi ≤ hi') : r.Opened lo' hi' :=
  ⟨Nat.le_trans hlo h.lower, Nat.lt_of_lt_of_le h.upper hhi, h.join, h.plans⟩

/-- The references to all columns of a visible range are resolved. -/
theorem Range.allColumns_typed {r : Range} (hr : r.heading ∈ visible)
    (qualifier : Option String) (fragment : Fragment) :
    ∀ e ∈ r.allColumns qualifier fragment, e.Typed I visible := by
  intro e he
  obtain ⟨i, hi, rfl⟩ := List.mem_mapIdx.1 he
  refine ⟨.intro ⟨?_, ?_, .leaf rfl ?_ rfl ?_⟩ ?_ ?_, rfl⟩
  · intro ref hk
    cases hk
    exact ⟨_, rfl, ⟨r.columns, r.columns[i], hr, by simp, rfl⟩, rfl⟩
  · simp [Expr.boundColumn]
  · simp [Expr.boundColumn, Expr.shape]
  · simp [Expr.boundColumn]
  · simp [Expr.boundColumn, Expr.children]
  · simp [Expr.boundColumn]

namespace Query

variable {env : Environment} {compile : QueryCompiler} {scope : Scope} {outer : List RangeGroup}
  {expected : Expectation} {s t : CompilerState} {plan : Plan}

theorem readRelation_opened {r : Range} (h : Range.readRelation env s = .ok r t) :
    r.Opened s.nextRange t.nextRange := by
  simp only [Range.readRelation, bind_ok] at h
  obtain ⟨_, u, hname, _, v, has, h⟩ := h
  have hk := (reader_keeps hname).trans (reader_keeps has)
  obtain ⟨relation, -, rfl, rfl⟩ := Range.named_ok h
  exact ⟨hk.ranges, Nat.lt_succ_self _, rfl, rfl⟩

theorem fromRanges_opened {found : Bool} {ranges : List Range}
    (h : fromRanges env found s = .ok ranges t) : ∀ r ∈ ranges, r.Opened s.nextRange t.nextRange := by
  unfold fromRanges at h
  split at h
  · exact commaSeparated_issued (P := fun lo hi r => r.Opened lo hi)
      (fun hlo hhi hr => hr.mono hlo hhi) (fun _ _ _ hr => Range.readRelation_keeps hr)
      (fun _ _ _ hr => readRelation_opened hr) h
  · obtain ⟨rfl, -⟩ := pure_ok.1 h
    simp

/-! ## SELECT -/

theorem typeSelected_typed {e e' : Expr} {type : Option SqlType} {u : SqlType}
    (h : typeSelected e type = .ok (e', u)) (hr : e.Resolved I visible) :
    e'.Typed I visible := by
  unfold typeSelected at h
  split at h
  · next htype =>
    cases h
    exact ⟨hr, by simp [htype]⟩
  · split at h
    · split at h
      · next huntyped =>
        cases h
        exact ⟨hr.asColumn _ _, by simp [Expr.type_asColumn huntyped]⟩
      · cases h
    · cases h

theorem selectItem_resolved (hresolves : ResolvesQueries compile) (hplans : ResolvesPlans compile)
    {selection selection' : Selection} {item : Item} (hraw : item.Raw)
    (h : selectItem compile scope expected selection item s = .ok selection' t)
    (hlo : lo ≤ s.nextRange)
    (hsel : ∀ e ∈ selection.projection, e.Typed (Issued lo s.nextRange) scope.headings) :
    ∀ e ∈ selection'.projection, e.Typed (Issued lo t.nextRange) scope.headings := by
  cases item with
  | all fragment =>
    simp only [selectItem] at h
    split at h
    · exact (reject_ok.1 h).elim
    · obtain ⟨rfl, rfl⟩ := pure_ok.1 h
      intro e he
      rcases List.mem_append.1 he with he | he
      · exact hsel e he
      · obtain ⟨r, hr, he⟩ := List.mem_flatMap.1 he
        exact Range.allColumns_typed (List.mem_map_of_mem (List.mem_append_left _ hr)) _ _ e he
  | expression e asName =>
    simp only [selectItem, bind_ok, lift_except_ok, pure_ok, Prod.exists] at h
    obtain ⟨e', u, he, e'', type, _, ⟨htype, rfl⟩, rfl, rfl⟩ := h
    have hle := (Expr.resolveWith_resolves hresolves he).ranges
    have hr := Expr.resolveWith_resolved hresolves hplans hraw he
    intro x hx
    rcases List.mem_append.1 hx with hx | hx
    · exact (hsel x hx).mono (Issued.mono (Nat.le_refl _) hle) (List.Subset.refl _)
    · obtain rfl := List.mem_singleton.1 hx
      exact (typeSelected_typed htype hr).mono (Issued.mono hlo (Nat.le_refl _)) (List.Subset.refl _)

theorem selectItems_resolved (hresolves : ResolvesQueries compile) (hplans : ResolvesPlans compile) :
    ∀ {items : List Item} {selection selection' : Selection} {s : CompilerState},
      (∀ item ∈ items, item.Raw) →
      items.foldlM (selectItem compile scope expected) selection s = .ok selection' t →
      lo ≤ s.nextRange →
      (∀ e ∈ selection.projection, e.Typed (Issued lo s.nextRange) scope.headings) →
      ∀ e ∈ selection'.projection, e.Typed (Issued lo t.nextRange) scope.headings
  | [], _, _, _, _, h, _, hsel => by
    obtain ⟨rfl, rfl⟩ := pure_ok.1 h
    exact hsel
  | item :: items, selection, selection', s, hraw, h, hlo, hsel => by
    simp only [List.foldlM_cons, bind_ok] at h
    obtain ⟨mid, u, hitem, h⟩ := h
    have hle := (selectItem_resolves hresolves hitem).ranges
    exact selectItems_resolved hresolves hplans (fun i hi => hraw i (by simp [hi])) h
      (Nat.le_trans hlo hle)
      (selectItem_resolved hresolves hplans (hraw item (by simp)) hitem hlo hsel)

theorem resolveCondition?_typed (hresolves : ResolvesQueries compile)
    (hplans : ResolvesPlans compile) {condition condition' : Option Expr}
    (hraw : ∀ e ∈ condition, e.Raw)
    (h : resolveCondition? compile scope condition s = .ok condition' t) :
    ∀ e, condition' = some e → e.Typed (Issued s.nextRange t.nextRange) scope.headings := by
  rcases resolveCondition?_ok h with ⟨-, rfl, -⟩ | ⟨e, e', rfl, rfl, he⟩
  · simp
  · rintro _ ⟨⟩
    exact Expr.resolveConditionWith_typed hresolves hplans (hraw e rfl) he

theorem compileSelect_resolved (hresolves : ResolvesQueries compile)
    (hplans : ResolvesPlans compile)
    (h : compileSelect env compile outer expected s = .ok plan t) :
    plan.Resolved (Issued s.nextRange t.nextRange) (outer.flatten.map Range.heading) := by
  obtain ⟨_, s₁, items, s₂, _, s₃, ranges, s₄, condition, s₅, selection, s₆, _, hselect, hitems,
    hfound, hranges, -, hc, hs, hr, rfl⟩ := compileSelect_ok h
  have h₃ : Keeps s s₃ := (reader_keeps hselect).trans <|
    (commaSeparated_keeps (fun _ _ _ hi => readItem_keeps hi) hitems).trans (reader_keeps hfound)
  have h₄ := (fromRanges_keeps hranges).ranges
  have h₅ := (readCondition_keeps hc).ranges
  have h₆ := (foldlM_resolves (fun _ _ _ _ _ hi => selectItem_resolves hresolves hi) hs).ranges
  have h₇ := (resolveCondition?_resolves hresolves hr).ranges
  have h₃ := h₃.ranges
  have hopened := fromRanges_opened hranges
  have hitems := forall_commaSeparated (fun _ _ _ hi => (readItem_scan hi).1) hitems
  have hproj := selectItems_resolved hresolves hplans hitems hs (Nat.le_refl _) (by simp)
  have hcond := resolveCondition?_typed hresolves hplans (readCondition_scan hc).1 hr
  have hheadings : Scope.headings ⟨ranges, outer⟩ =
      ranges.map Range.heading ++ outer.flatten.map Range.heading := by
    simp [Scope.headings]
  rw [hheadings] at hproj hcond
  -- an opened range joins nothing and holds no plan, so the expressions are those of the clauses
  have hjoins : ranges.flatMap (·.join.toList) = [] := by
    refine List.flatMap_eq_nil_iff.2 fun r hr => ?_
    simp [(hopened r hr).join]
  have hsources : ranges.flatMap Range.plans = [] :=
    List.flatMap_eq_nil_iff.2 fun r hr => (hopened r hr).plans
  refine .of_exprs (fun x hx => ?_) hsources fun e he => ?_
  · obtain ⟨r, hr, rfl⟩ := List.mem_map.1 hx
    have := hopened r hr
    exact ⟨Nat.le_trans h₃ this.lower, Nat.lt_of_lt_of_le this.upper (by omega)⟩
  · simp only [Plan.exprs, hjoins, List.append_nil, List.mem_append, Option.mem_toList] at he
    have htyped : e.Typed (Issued s.nextRange t.nextRange)
        (ranges.map Range.heading ++ outer.flatten.map Range.heading) := by
      rcases he with he | he
      · exact (hproj e he).mono (Issued.mono (by omega) h₇) (List.Subset.refl _)
      · exact (hcond e he).mono (Issued.mono (by omega) (Nat.le_refl _)) (List.Subset.refl _)
    exact ⟨htyped.resolved, htyped.isProduced⟩

theorem compileTable_resolved (h : compileTable env s = .ok plan t) :
    plan.Resolved (Issued s.nextRange t.nextRange) (outer.flatten.map Range.heading) := by
  obtain ⟨_, s₁, name, fragment, s₂, range, htable, hname, hrange, rfl⟩ := compileTable_ok h
  have hle := ((reader_keeps htable).trans (reader_keeps hname)).ranges
  obtain ⟨relation, -, rfl, rfl⟩ := Range.named_ok hrange
  have hcolumns : ∀ e ∈ Range.allColumns (.ofRelation s₂.nextRange relation none fragment) none
      fragment, e.Typed (Issued s.nextRange (s₂.nextRange + 1))
        ([Range.heading (.ofRelation s₂.nextRange relation none fragment)] ++
          outer.flatten.map Range.heading) :=
    Range.allColumns_typed (by simp) _ _
  refine .of_exprs ?_ rfl fun e he => ?_
  · simpa [Plan.headings, Range.heading, Range.ofRelation, Range.fresh, Issued] using hle
  · have htyped := hcolumns e (by simpa [Plan.exprs, Range.ofRelation, Range.fresh] using he)
    exact ⟨htyped.resolved, htyped.isProduced⟩

/-! ## VALUES -/

theorem settleCell_resolved {cell : Expr} (h : cell.Resolved I visible) (type : SqlType) :
    (settleCell cell type).Resolved I visible := by
  unfold settleCell
  split
  · exact h.asColumn _ _
  · exact h

theorem settleRow_resolved {row : Expr} {cells : List Expr} (h : row.Resolved I visible)
    (hk : row.kind = .row cells) (types : List SqlType) :
    (settleRow types row).Resolved I visible := by
  rw [settleRow_eq hk]
  refine h.withItems hk fun c hc => ?_
  rw [← List.map_uncurry_zip_eq_zipWith] at hc
  obtain ⟨⟨cell, type⟩, hmem, rfl⟩ := List.mem_map.1 hc
  refine settleCell_resolved (h.children cell ?_) type
  simpa [Expr.children, hk] using (List.of_mem_zip hmem).1

theorem addRows_resolved (hresolves : ResolvesQueries compile) (hplans : ResolvesPlans compile)
    {degree : Nat} : ∀ {rows : List Expr} {joined joined' : List (Option SqlType)}
      {sofar rows' : List Expr} {s : CompilerState}, (∀ row ∈ rows, row.Raw) →
      rows.foldlM (addRow compile outer degree) (joined, sofar) s = .ok (joined', rows') t →
      lo ≤ s.nextRange →
      (∀ e ∈ sofar, e.Resolved (Issued lo s.nextRange) (outer.flatten.map Range.heading)) →
      ∀ e ∈ rows', e.Resolved (Issued lo t.nextRange) (outer.flatten.map Range.heading)
  | [], _, _, _, _, _, _, h, _, hsofar => by
    obtain ⟨h, rfl⟩ := pure_ok.1 h
    cases h
    exact hsofar
  | row :: rows, joined, joined', sofar, rows', s, hraw, h, hlo, hsofar => by
    simp only [List.foldlM_cons, bind_ok, Prod.exists] at h
    obtain ⟨mid, midRows, u, hadd, h⟩ := h
    obtain ⟨-, row', hrow, -, rfl⟩ := addRow_ok hadd
    have hle := (Expr.resolveWith_resolves hresolves hrow).ranges
    have hrow := Expr.resolveWith_resolved hresolves hplans (raw_asRow (hraw row (by simp))) hrow
    refine addRows_resolved hresolves hplans (fun r hr => hraw r (by simp [hr])) h
      (Nat.le_trans hlo hle) fun e he => ?_
    rcases List.mem_append.1 he with he | he
    · exact (hsofar e he).mono (Issued.mono (Nat.le_refl _) hle) (List.Subset.refl _)
    · obtain rfl := List.mem_singleton.1 he
      exact hrow.mono (Issued.mono hlo (Nat.le_refl _)) (by simp [Scope.headings, Scope.outerOnly])

theorem compileValues_resolved (hresolves : ResolvesQueries compile)
    (hplans : ResolvesPlans compile) (h : compileValues compile outer expected s = .ok plan t) :
    plan.Resolved (Issued s.nextRange t.nextRange) (outer.flatten.map Range.heading) := by
  obtain ⟨values, s₁, rows, s₂, joined, rows', types, degree, hvalues, hrows, -, hadd, -, rfl⟩ :=
    compileValues_ok h
  have hle := ((reader_keeps hvalues).trans (parser_keeps hrows)).ranges
  obtain ⟨r, hr, rfl⟩ := lift_parser_ok.1 hrows
  have hreads := Expr.parseList_reads _ _ _ hr
  have hrows := addRows_resolved hresolves hplans hreads.raw hadd hle (by simp)
  obtain ⟨hcells, -⟩ := addRows_joins hreads.plain (by simp) hadd (by simp [RowsJoin])
  refine .of_exprs (by simp [Plan.headings]) rfl fun e he => ?_
  obtain rfl := List.mem_singleton.1 he
  refine ⟨Expr.Resolved.values (fun row' hrow' => ?_) fun row' hrow' => ?_, .inr rfl⟩
  · obtain ⟨row, hrow, rfl⟩ := List.mem_map.1 hrow'
    obtain ⟨cells, hk, -⟩ := hcells row hrow
    exact settleRow_resolved (hrows row hrow) hk types
  · obtain ⟨row, hrow, rfl⟩ := List.mem_map.1 hrow'
    obtain ⟨cells, hk, -⟩ := hcells row hrow
    exact settleRow_settled hk types

/-! ## All queries -/

theorem compilesBody_resolved (hresolves : ResolvesQueries compile) (hplans : ResolvesPlans compile)
    (h : CompilesBody env compile outer expected s plan t) :
    plan.Resolved (Issued s.nextRange t.nextRange) (outer.flatten.map Range.heading) := by
  cases h with
  | select h => exact compileSelect_resolved hresolves hplans h
  | table h => exact compileTable_resolved h
  | values h => exact compileValues_resolved hresolves hplans h

theorem embedded_resolvesPlans {compile : List RangeGroup → Expectation → Compiler Plan}
    (hcompile : ∀ outer expected s plan t, compile outer expected s = .ok plan t →
      plan.Resolved (Issued s.nextRange t.nextRange) (outer.flatten.map Range.heading)) :
    ResolvesPlans (embedded compile) := by
  intro body outer s plan t h
  obtain ⟨queries, s₁, c, hp, -, rfl⟩ := embedded_ok h
  have hplan := hcompile _ _ _ _ _ hp
  exact hplan

theorem compileWithin_resolved : ∀ (bound : Nat) (outer : List RangeGroup) (expected : Expectation)
    (s : CompilerState) (plan : Plan) (t : CompilerState),
    compileWithin env bound outer expected s = .ok plan t →
    plan.Resolved (Issued s.nextRange t.nextRange) (outer.flatten.map Range.heading)
  | 0, _, _, _, _, _, h => by
    obtain ⟨_, _, _, _, hb, -⟩ := compileWithin_ok h
    cases hb
  | bound + 1, outer, expected, s, plan, t, h => by
    obtain ⟨_, parens, s₁, s₂, hb, hopen, hbody, hclose⟩ := compileWithin_ok h
    cases hb
    have hresolves : ResolvesQueries (embedded (compileWithin env bound)) :=
      embedded_resolves (compileWithin_keeps bound)
    have hplans := embedded_resolvesPlans (compileWithin_resolved bound)
    exact (compilesBody_resolved hresolves hplans hbody).mono
      (Issued.mono (reader_keeps hopen).ranges (reader_keeps hclose).ranges) (List.Subset.refl _)

theorem compile_resolved (h : Query.compile env outer expected s = .ok plan t) :
    plan.Resolved (Issued s.nextRange t.nextRange) (outer.flatten.map Range.heading) := by
  simp only [Query.compile, bind_ok] at h
  obtain ⟨n, u, hn, h⟩ := h
  exact (compileWithin_resolved _ _ _ _ _ _ h).mono
    (Issued.mono (reader_keeps hn).ranges (Nat.le_refl _)) (List.Subset.refl _)

theorem compileTokens_resolvesPlans (env : Environment) : ResolvesPlans (compileTokens env) :=
  embedded_resolvesPlans fun _ _ _ _ _ h => compile_resolved h

end Query

/-! ## Expressions of statements -/

namespace Expr

variable {env : Environment} {scope : Scope} {s t : CompilerState} {e e' : Expr}

theorem resolve_resolved (hraw : Raw e) (h : e.resolve env scope s = .ok e' t) :
    e'.Resolved (Issued s.nextRange t.nextRange) scope.headings :=
  resolveWith_resolved (Query.compileTokens_resolves env) (Query.compileTokens_resolvesPlans env)
    hraw h

theorem resolveCondition_typed (hraw : Raw e) (h : e.resolveCondition env scope s = .ok e' t) :
    e'.Typed (Issued s.nextRange t.nextRange) scope.headings :=
  resolveConditionWith_typed (Query.compileTokens_resolves env)
    (Query.compileTokens_resolvesPlans env) hraw h

end Expr

end DataChange
