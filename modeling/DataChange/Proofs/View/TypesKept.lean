import DataChange.Proofs.Expr.Redirected
import DataChange.Proofs.Query.Exprs
import DataChange.Proofs.View.Scoped

/-!
# Views that keep the types of columns

If every column of a view has the type of the column that it stands for, so do the columns that a
statement names and those behind them where it lands, and the filters on the way stay conditions
(`Descends.typesKept`). What a statement says of the range that it names then conforms to the rules
of types after it is moved if it did before (`Moved.keeps`).
-/

namespace DataChange

/-- Every column of a view stands for a column that its base has, and has the type of this column. -/
def Environment.ShowsTypes (env : Environment) : Prop :=
  ∀ v ∈ env.views, ∀ base ∈ v.base, ∀ relation ∈ env.base? v, ∀ i (h : i < v.columns.length),
    ∃ ordinal ∈ base.columnMap[i]?, ∃ c ∈ relation.columns[ordinal]?, c.type = v.columns[i].type

instance (env : Environment) : Decidable env.ShowsTypes :=
  inferInstanceAs (Decidable (∀ v ∈ env.views, ∀ base ∈ v.base, ∀ relation ∈ env.base? v, _))

theorem Environment.bank_showsTypes : bank.ShowsTypes := by
  decide +kernel

theorem Environment.ShowsTypes.covers {env : Environment} (h : env.ShowsTypes) :
    env.CoversColumns := by
  intro v hv base hbase relation hrelation
  by_contra hlt
  obtain ⟨ordinal, hordinal, -⟩ := h v hv base hbase relation hrelation base.columnMap.length
    (by omega)
  simp at hordinal

/-! ## Column maps -/

theorem ColumnMap.KeepsTypes.range (columns : List Attribute) :
    KeepsTypes (List.range columns.length) columns columns := by
  intro i column hi
  have hlt := (List.getElem?_eq_some_iff.1 hi).1
  exact ⟨i, column, by simp [hlt], hi, rfl⟩

/-- Maps that keep types are composed to one that does. -/
theorem ColumnMap.KeepsTypes.trans {first second composed : List Nat}
    {columns mid base : List Attribute} (h : KeepsTypes first columns mid)
    (k : KeepsTypes second mid base)
    (hmap : first.mapM (fun column => second[column]?) = some composed) :
    KeepsTypes composed columns base := by
  intro i column hi
  obtain ⟨next, between, hnext, hbetween, htype⟩ := h i column hi
  obtain ⟨ordinal, found, hordinal, hfound, hsame⟩ := k next between hbetween
  obtain ⟨ordinal', hordinal', hcomposed⟩ := getElem?_mapM hmap hnext
  obtain rfl : ordinal = ordinal' := by simpa [hordinal] using hordinal'
  exact ⟨ordinal, found, hcomposed, hfound, hsame.trans htype⟩

/-! ## Following views -/

namespace ViewTarget

variable {env : Environment} {operation : Operation} {s t u : CompilerState}
  {state state' : Descent} {past : List Nat} {columns : List Attribute}

theorem columnMap_keepsTypes {range : Range} {view : View} {base : ViewBase} {relation : Relation}
    {fragment : Fragment} (hviews : env.ShowsTypes) (hover : range.Over env)
    (hview : viewToPass? operation range = some view) (hbase : view.base = some base)
    (hrelation : env.relation (base.relation.qualify view.schemaName) fragment = .ok relation) :
    ColumnMap.KeepsTypes base.columnMap range.columns (relation.columns.map Column.toAttribute) := by
  obtain ⟨hsource, -⟩ := viewToPass?_some hview
  rw [hover.columns view hsource]
  intro i column hi
  rw [List.getElem?_map, Option.map_eq_some_iff] at hi
  obtain ⟨c, hc, rfl⟩ := hi
  obtain ⟨hlt, rfl⟩ := List.getElem?_eq_some_iff.1 hc
  obtain ⟨ordinal, hordinal, found, hfound, htype⟩ := hviews view (hover.found view hsource) base
    hbase relation (Environment.base?_of_relation hbase hrelation) i hlt
  exact ⟨ordinal, found.toAttribute, hordinal, by simp [Option.mem_def.1 hfound], htype⟩

theorem resolveFilter_condition {base : Range} {text : Option String} {filter : Option Expr}
    (h : resolveFilter env base text s = .ok filter t) : ∀ e ∈ filter, e.IsCondition := by
  rcases resolveFilter_ok h with ⟨-, rfl, -⟩ | ⟨source, tokens, condition, s₁, c, e, -, -, hparse, -,
    hresolve, rfl⟩
  · simp
  · obtain ⟨r, hr, -⟩ := lift_parser_ok.1 hparse
    rintro _ ⟨⟩
    exact Expr.resolveCondition_condition (Expr.parse_reads _ _ _ hr).raw.uncompiled hresolve

/-- The columns that a statement names have the types of those behind them, and the filters on the
way are conditions. -/
structure Descent.TypesKept (state : Descent) (columns : List Attribute) : Prop where
  columnMap : ColumnMap.KeepsTypes state.columnMap columns state.range.columns
  filter : ∀ e ∈ state.filter, e.IsCondition

/-- One view is passed. -/
theorem Descent.TypesKept.pass {view : View} {base : ViewBase} {relation : Relation} {range : Range}
    {filter outerFilter : Option Expr} {columnMap : List Nat} (hkept : state.TypesKept columns)
    (hinv : Descent.Inv env state s past) (hviews : env.ShowsTypes)
    (hview : viewToPass? operation state.range = some view) (hbase : view.base = some base)
    (hrelation : env.relation (base.relation.qualify view.schemaName) state.range.fragment =
      .ok relation)
    (hrange : range = .ofRelation s.nextRange relation none state.range.fragment)
    (houter : state.filter.mapM (Expr.redirect state.range.id range base.columnMap) =
      some outerFilter)
    (hfilter : resolveFilter env range base.filter { s with nextRange := s.nextRange + 1 } =
      .ok filter u)
    (hmap : state.columnMap.mapM (fun column => base.columnMap[column]?) = some columnMap) :
    Descent.TypesKept ⟨range.markAllUsed, columnMap, Expr.and? filter outerFilter⟩ columns := by
  have hbelow : ColumnMap.KeepsTypes base.columnMap state.range.columns range.columns :=
    hrange ▸ columnMap_keepsTypes hviews hinv.known hview hbase hrelation
  refine ⟨hkept.columnMap.trans hbelow hmap,
    Expr.conjunctive_condition.and? (resolveFilter_condition hfilter) fun m hm => ?_⟩
  obtain ⟨e, he, hmoved⟩ : ∃ e, state.filter = some e ∧
      e.redirect state.range.id range base.columnMap = some m := by
    cases hf : state.filter <;> simp_all
  refine (hkept.filter e he).moves hmoved
    ((hinv.filter e he).resolved.keptBy (fun haside => haside.2 hinv.passed) fun columns hmem => ?_)
  obtain ⟨-, rfl⟩ := Prod.mk.inj (List.mem_singleton.1 hmem)
  exact hbelow

theorem Descends.typesKept {layers : List Layer} (h : Descends env operation state s layers state' t)
    (hviews : env.ShowsTypes) (hinv : Descent.Inv env state s past)
    (hkept : state.TypesKept columns) : state'.TypesKept columns := by
  induction h generalizing past with
  | done => exact hkept
  | pass hview hbase hrelation hrange houter hfilter hmap hrest ih =>
    exact ih (hinv.pass hviews.covers hview hbase hrelation hrange houter hfilter _)
      (hkept.pass hinv hviews hview hbase hrelation hrange houter hfilter hmap)

theorem start_typesKept (written : Range) : (start written).TypesKept written.columns :=
  ⟨.range _, by simp [start]⟩

end ViewTarget

/-! ## Statements -/

theorem Expr.assignable_conforming : Assignable Conforming where
  asColumn h t w := h.asColumn t w
  default := Conforming.defaultMarker
  children h := h.children
  withItems h hk hitems := h.withItems hk hitems

namespace Moved

variable {env : Environment} {s : CompilerState} {w : Written} {beside : List Range} {next : Nat}
  {statement : Statement}

theorem typesKept (h : Moved env s w beside next statement) (hviews : env.ShowsTypes) :
    w.target.descent.TypesKept w.range.columns := by
  obtain ⟨operation, a, b, hdescends, hlt, -⟩ := h.descends
  exact hdescends.typesKept hviews (h.starts hlt) (ViewTarget.start_typesKept _)

/-- What a change of columns keeps that keeps their types, moving what a statement says keeps. -/
theorem keeps {P : Expr → Prop}
    (hP : ∀ {change : ColumnChange} {e m : Expr}, P e → e.Moves change m → e.KeptBy change → P m)
    (h : Moved env s w beside next statement) (houter : s.OuterIssued) (hviews : env.ShowsTypes)
    {e m : Expr} (he : e.Resolved (ViewTarget.Aside next w.past)
      (w.range.heading :: Scope.headings ⟨beside, s.outer⟩))
    (hm : w.target.moved e = some m) (hp : P e) : P m := by
  rcases h.lands with ⟨-, -, hstays⟩ | ⟨-, -, hmoves⟩
  · obtain rfl : e = m := by simpa [hstays] using hm
    exact hp
  · rw [hmoves] at hm
    have hpast : w.range.id ∈ w.past := by simp [Written.past, Layer.past]
    refine hP hp hm (he.keptBy (fun haside => haside.2 hpast) fun columns hmem => ?_)
    rcases List.mem_cons.1 hmem with heq | hmem
    · obtain ⟨-, rfl⟩ := Prod.mk.inj heq
      exact (h.typesKept hviews).columnMap
    · exact absurd hpast (h.apart houter _ hmem)

theorem condition_isCondition (h : Moved env s w beside next statement) (houter : s.OuterIssued)
    (hviews : env.ShowsTypes) (hw : ∀ e ∈ w.condition, e.IsCondition) :
    ∀ e ∈ statement.condition?, e.IsCondition := by
  obtain ⟨c, hc, hcondition⟩ := h.condition
  rw [hcondition]
  refine Expr.conjunctive_condition.and? (h.typesKept hviews).filter fun m hm => ?_
  obtain ⟨e, he, hmoved⟩ : ∃ e, w.condition = some e ∧ w.target.moved e = some m := by
    cases hw : w.condition <;> simp_all
  exact h.keeps Expr.IsCondition.moves houter hviews (h.typed e he).resolved hmoved (hw e he)

theorem joins_condition (h : Moved env s w beside next statement)
    (hcondition : ∀ e ∈ statement.condition?, e.IsCondition) :
    ∀ e ∈ Range.joins statement.ranges, e.IsCondition := by
  obtain ⟨values, hranges⟩ := h.ranges
  rw [hranges]
  exact Expr.conjunctive_condition.rangeFor_joins h.unjoined.2 values h.unjoined.1 hcondition

theorem changing_conforming (h : Moved env s w beside next statement) (houter : s.OuterIssued)
    (hviews : env.ShowsTypes) (hw : ∀ e ∈ w.exprs, e.Conforming) :
    ∀ e ∈ statement.changing, e.Conforming := by
  intro e' he'
  obtain ⟨e, he, m, hm, hassigned⟩ := forall₂_exists_left h.exprs he'
  have hmoved := h.keeps Expr.Conforming.moves houter hviews (h.resolved e he) hm (hw e he)
  rcases hassigned with rfl | hassigned
  · exact hmoved
  · exact hassigned.keeps Expr.assignable_conforming hmoved

end Moved

end DataChange
