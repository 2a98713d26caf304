import DataChange.Proofs.Catalog
import DataChange.Proofs.Expr.Redirected
import DataChange.Proofs.Query.Resolved
import DataChange.Proofs.Statement.Held
import DataChange.Proofs.Statement.Runs

/-!
# The views that a statement passes

`Descends` records the views between the range that a statement names and the one that it changes:
for each the range over its base and its filter, resolved over that range. The filters are
collected and moved down from range to range, and stay resolved all the way (`Descends.filter`).
-/

namespace DataChange

/-- The column map of every view has an entry for each of its columns. -/
def Environment.MapsColumns (env : Environment) : Prop :=
  ∀ v ∈ env.views, ∀ base ∈ v.base, base.columnMap.length = v.columns.length

instance (env : Environment) : Decidable env.MapsColumns :=
  inferInstanceAs (Decidable (∀ v ∈ env.views, ∀ base ∈ v.base, _))

/-- The column map of every view over a relation has at least an entry for each of its columns. -/
def Environment.CoversColumns (env : Environment) : Prop :=
  ∀ v ∈ env.views, ∀ base ∈ v.base, ∀ relation ∈ env.base? v,
    v.columns.length ≤ base.columnMap.length

theorem Environment.MapsColumns.covers {env : Environment} (h : env.MapsColumns) :
    env.CoversColumns :=
  fun v hv base hbase _ _ => Nat.le_of_eq (h v hv base hbase).symm

theorem Environment.bank_mapsColumns : bank.MapsColumns := by
  decide +kernel

/-- A range over a relation of the catalog. -/
structure Range.Over (env : Environment) (r : Range) : Prop where
  columns : ∀ v, r.source = .relation (.view v) → r.columns = v.columns.map Column.toAttribute
  found : ∀ v, r.source = .relation (.view v) → v ∈ env.views

theorem Range.over_ofRelation {env : Environment} {id : Nat} {name : QualifiedName}
    {relation : Relation} {asName : Option String} {fragment fragment' : Fragment}
    (h : env.relation name fragment = .ok relation) :
    (ofRelation id relation asName fragment').Over env := by
  refine ⟨fun v hv => ?_, fun v hv => ?_⟩ <;>
    obtain rfl : relation = .view v := by simpa [ofRelation, fresh] using hv
  · rfl
  · exact Environment.mem_views h

/-- A view that is passed. -/
structure Layer where
  base : ViewBase
  /-- The range over the base of the view. -/
  range : Range
  /-- The filter of the view, over this range. -/
  filter : Option Expr

/-- The ids of the ranges over the bases of some views, the last one first. -/
def Layer.past (layers : List Layer) (past : List Nat) : List Nat :=
  (layers.map (·.range.id)).reverse ++ past

namespace ViewTarget

/-- The views passed from one range to another, the first one first. -/
inductive Descends (env : Environment) (operation : Operation) :
    Descent → CompilerState → List Layer → Descent → CompilerState → Prop
  | done {state : Descent} {s : CompilerState} (h : viewToPass? operation state.range = none) :
      Descends env operation state s [] state s
  | pass {state state' : Descent} {s t u : CompilerState} {view : View} {base : ViewBase}
      {relation : Relation} {range : Range} {filter outerFilter : Option Expr}
      {columnMap : List Nat} {layers : List Layer}
      (hview : viewToPass? operation state.range = some view) (hbase : view.base = some base)
      (hrelation : env.relation (base.relation.qualify view.schemaName) state.range.fragment =
        .ok relation)
      (hrange : range = .ofRelation s.nextRange relation none state.range.fragment)
      (houter : state.filter.mapM (Expr.redirect state.range.id range base.columnMap) =
        some outerFilter)
      (hfilter : resolveFilter env range base.filter { s with nextRange := s.nextRange + 1 } =
        .ok filter u)
      (hmap : state.columnMap.mapM (fun column => base.columnMap[column]?) = some columnMap)
      (hrest : Descends env operation ⟨range.markAllUsed, columnMap, Expr.and? filter outerFilter⟩ u
        layers state' t) :
      Descends env operation state s (⟨base, range, filter⟩ :: layers) state' t

variable {env : Environment} {operation : Operation} {s t : CompilerState}

theorem followWithin_descends : ∀ (bound : Nat) {state state' : Descent} {s : CompilerState},
    followWithin env operation bound state s = .ok state' t →
    ∃ layers, Descends env operation state s layers state' t
  | 0, _, _, _, h => (throw_ok.1 h).elim
  | bound + 1, state, state', s, h => by
    simp only [followWithin] at h
    cases hview : viewToPass? operation state.range with
    | none =>
      simp only [hview] at h
      obtain ⟨rfl, rfl⟩ := pure_ok.1 h
      exact ⟨[], .done hview⟩
    | some view =>
      simp only [hview, bind_ok] at h
      obtain ⟨mid, u, hd, h⟩ := h
      obtain ⟨base, relation, range, outerFilter, filter, columnMap, hbase, hrelation, hrange, houter,
        hfilter, hmap, rfl⟩ := descend_ok hd
      obtain ⟨layers, hrest⟩ := followWithin_descends bound h
      exact ⟨_, .pass hview hbase hrelation hrange houter hfilter hmap hrest⟩

/-- A statement lands where the views that it passes lead. -/
theorem resolve_descends {written : Range} {target : ViewTarget}
    (h : resolve env written operation s = .ok target t) :
    ∃ layers, Descends env operation (start written) s layers
      ⟨target.range, target.columnMap, target.filter⟩ t ∧ target.written = written := by
  obtain ⟨bound, range, columnMap, filter, relation, hfollow, -, rfl⟩ := resolve_ok h
  obtain ⟨layers, hlayers⟩ := followWithin_descends bound hfollow
  exact ⟨layers, hlayers, rfl⟩

/-- What a change of columns keeps stays as it is when an expression is moved. -/
theorem moved_keeps {P : Expr → Prop} {target : ViewTarget} {e m : Expr}
    (hP : ∀ {change : ColumnChange} {e m : Expr}, change.KeepsBound → e.Moves change m → P e → P m)
    (h : target.moved e = some m) (he : P e) : P m := by
  unfold moved at h
  split at h
  · exact hP (ColumnRef.redirect_keepsBound ..) h he
  · obtain rfl := Option.some.inj h
    exact he

/-! ## Filters -/

theorem resolveFilter_typed {base : Range} {text : Option String} {filter : Option Expr}
    (h : resolveFilter env base text s = .ok filter t) :
    ∀ e ∈ filter, e.Typed (Issued s.nextRange t.nextRange) [base.heading] := by
  rcases resolveFilter_ok h with ⟨-, rfl, -⟩ | ⟨source, tokens, condition, s₁, c, e, -, -, hparse, -,
    hresolve, rfl⟩
  · simp
  · obtain ⟨r, hr, rfl⟩ := lift_parser_ok.1 hparse
    have he := Expr.resolveCondition_typed (Expr.parse_reads _ _ _ hr).raw hresolve
    rintro _ ⟨⟩
    exact he.mono (fun _ => id) (by simp [Scope.headings])

theorem resolveFilter_resolves {base : Range} {text : Option String} {filter : Option Expr}
    (h : resolveFilter env base text s = .ok filter t) : Resolves s t := by
  rcases resolveFilter_ok h with ⟨-, rfl, rfl⟩ | ⟨source, tokens, condition, s₁, c, e, -, -, hparse, -,
    hresolve, rfl⟩
  · exact .refl _
  · have hk := parser_keeps hparse
    have hr := Expr.resolveConditionWith_resolves (Query.compileTokens_resolves env) hresolve
    exact ⟨⟨hr.outer.trans hk.outer, hr.calls.trans hk.calls, Nat.le_trans hk.ranges hr.ranges⟩,
      hr.cursor⟩

/-- The filter of each view that is passed is resolved over the base of the view. -/
theorem Descends.resolved_filters {state state' : Descent} {layers : List Layer}
    (h : Descends env operation state s layers state' t) :
    ∀ layer ∈ layers, ∃ a b,
      resolveFilter env layer.range layer.base.filter a = .ok layer.filter b := by
  induction h with
  | done => simp
  | pass _ _ _ _ _ hfilter _ _ ih => exact List.forall_mem_cons.2 ⟨⟨_, _, hfilter⟩, ih⟩

/-- The filters collected on the way are conjunctions of those of the views, moved on. -/
theorem Descends.filter_keeps {P : Expr → Prop} (hP : Expr.Conjunctive P)
    (hmoves : ∀ {change : ColumnChange} {e m : Expr}, change.KeepsBound → e.Moves change m → P e → P m)
    {state state' : Descent} {layers : List Layer} (h : Descends env operation state s layers state' t)
    (hlayers : ∀ layer ∈ layers, ∀ e ∈ layer.filter, P e) (hfilter : ∀ e ∈ state.filter, P e) :
    ∀ e ∈ state'.filter, P e := by
  induction h with
  | done => exact hfilter
  | @pass state _ s _ _ _ base _ range filter outerFilter _ _ _ _ _ _ houter _ _ _ ih =>
    obtain ⟨hfirst, hrest⟩ := List.forall_mem_cons.1 hlayers
    refine ih hrest (hP.and? hfirst fun e he => ?_)
    cases hf : state.filter with
    | none => simp_all
    | some outer =>
      have hmoved : outer.redirect state.range.id range base.columnMap = some e := by
        simp_all
      exact hmoves (ColumnRef.redirect_keepsBound ..) hmoved (hfilter outer hf)

/-- The filters collected on the way have types. -/
theorem Descends.filter_definite {state state' : Descent} {layers : List Layer}
    (h : Descends env operation state s layers state' t)
    (hfilter : ∀ e ∈ state.filter, e.Definite) : ∀ e ∈ state'.filter, e.Definite := by
  refine h.filter_keeps Expr.conjunctive_definite (fun hkeeps hm he => he.moves hkeeps hm)
    (fun layer hlayer e he => ?_) hfilter
  obtain ⟨_, _, hresolve⟩ := h.resolved_filters layer hlayer
  exact (resolveFilter_typed hresolve e he).definite

/-- An id that is taken, but not by a range that was passed. -/
def Aside (next : Nat) (past : List Nat) (id : Nat) : Prop :=
  id < next ∧ id ∉ past

/-- The state of a descent that has come past some ranges. -/
structure Descent.Inv (env : Environment) (state : Descent) (s : CompilerState)
    (past : List Nat) : Prop where
  known : state.range.Over env
  passed : state.range.id ∈ past
  issued : ∀ id ∈ past, id < s.nextRange
  filter : ∀ e ∈ state.filter, e.Typed (Aside s.nextRange past) [state.range.heading]

theorem Descends.resolves {state state' : Descent} {layers : List Layer}
    (h : Descends env operation state s layers state' t) : Resolves s t := by
  induction h with
  | done => exact .refl _
  | pass _ _ _ _ _ hfilter _ _ ih =>
    have hk := resolveFilter_resolves hfilter
    exact ⟨⟨ih.outer.trans hk.outer, ih.calls.trans hk.calls,
      Nat.le_trans (Nat.le_of_succ_le hk.ranges) ih.ranges⟩, ih.cursor.trans hk.cursor⟩

/-- The column map of a view that is passed has an entry for each column of its range. -/
theorem columnMap_length {range : Range} {view : View} {base : ViewBase}
    (hviews : env.MapsColumns) (hover : range.Over env)
    (hview : viewToPass? operation range = some view) (hbase : view.base = some base) :
    base.columnMap.length = range.columns.length := by
  obtain ⟨hsource, -⟩ := viewToPass?_some hview
  rw [hviews view (hover.found view hsource) base hbase, hover.columns view hsource,
    List.length_map]

theorem columnMap_covers {range : Range} {view : View} {base : ViewBase} {relation : Relation}
    {fragment : Fragment} (hviews : env.CoversColumns) (hover : range.Over env)
    (hview : viewToPass? operation range = some view) (hbase : view.base = some base)
    (hrelation : env.relation (base.relation.qualify view.schemaName) fragment = .ok relation) :
    range.columns.length ≤ base.columnMap.length := by
  obtain ⟨hsource, -⟩ := viewToPass?_some hview
  rw [hover.columns view hsource, List.length_map]
  exact hviews view (hover.found view hsource) base hbase relation
    (Environment.base?_of_relation hbase hrelation)

/-- A filter that is moved to the next range is over that range. -/
theorem outerFilter_typed {state : Descent} {past : List Nat} {base : ViewBase} {range : Range}
    {outerFilter : Option Expr} (hinv : Descent.Inv env state s past)
    (hcovers : state.range.columns.length ≤ base.columnMap.length)
    (houter : state.filter.mapM (Expr.redirect state.range.id range base.columnMap) =
      some outerFilter) :
    ∀ e ∈ outerFilter, e.Typed (Aside s.nextRange past) [range.heading] := by
  cases hf : state.filter with
  | none =>
    obtain rfl : none = outerFilter := by simpa [hf] using houter
    simp
  | some filter =>
    obtain ⟨moved, hmoved, rfl⟩ : ∃ moved,
        Expr.redirect state.range.id range base.columnMap filter = some moved ∧
          some moved = outerFilter := by
      simpa [hf, Option.map_eq_some_iff] using houter
    rintro _ ⟨⟩
    have htyped := hinv.filter filter hf
    refine ⟨Expr.Moves.resolved hmoved (redirect_takes ⟨?_, ?_, ?_, ?_⟩) htyped.resolved, ?_⟩
    -- the range that is left has been passed, so the ids of subqueries differ from its id
    · exact fun h => h.2 hinv.passed
    · intro columns hmem
      obtain ⟨-, rfl⟩ : state.range.id = state.range.id ∧ columns = state.range.columns := by
        simpa [Range.heading] using hmem
      omega
    · intro h hmem hne
      obtain rfl := List.mem_singleton.1 hmem
      exact absurd rfl hne
    · simp
    · exact Expr.Moves.isSome_type (ColumnRef.redirect_keepsBound ..) hmoved htyped.typed

/-- One view is passed. -/
theorem Descent.Inv.pass {state : Descent} {past : List Nat} {u : CompilerState} {view : View}
    {base : ViewBase} {relation : Relation} {range : Range} {filter outerFilter : Option Expr}
    (hinv : Descent.Inv env state s past) (hviews : env.CoversColumns)
    (hview : viewToPass? operation state.range = some view) (hbase : view.base = some base)
    (hrelation : env.relation (base.relation.qualify view.schemaName) state.range.fragment =
      .ok relation)
    (hrange : range = .ofRelation s.nextRange relation none state.range.fragment)
    (houter : state.filter.mapM (Expr.redirect state.range.id range base.columnMap) =
      some outerFilter)
    (hfilter : resolveFilter env range base.filter { s with nextRange := s.nextRange + 1 } =
      .ok filter u) (columnMap : List Nat) :
    Descent.Inv env ⟨range.markAllUsed, columnMap, Expr.and? filter outerFilter⟩ u
      (range.id :: past) := by
  have hcovers := columnMap_covers hviews hinv.known hview hbase hrelation
  have houter := outerFilter_typed hinv hcovers houter
  have hfilter' := resolveFilter_typed hfilter
  have hle : s.nextRange + 1 ≤ u.nextRange := (resolveFilter_resolves hfilter).ranges
  have hid : range.id = s.nextRange := by simp [hrange, Range.ofRelation, Range.fresh]
  refine ⟨?_, by simp [Range.markAllUsed], ?_, ?_⟩
  · have hover : range.Over env := hrange ▸ Range.over_ofRelation hrelation
    exact ⟨hover.columns, hover.found⟩
  · intro id hmem
    rcases List.mem_cons.1 hmem with rfl | hmem
    · omega
    · have := hinv.issued id hmem
      omega
  -- the view's own filter and the outer one are conjoined, each typed over the new range
  · refine (Expr.conjunctive_typed _ _).and? (fun e he => ?_) fun e he => ?_
    · refine (hfilter' e he).mono (fun id hissued => ?_) (List.Subset.refl _)
      refine ⟨hissued.2, fun hmem => ?_⟩
      have hlow : s.nextRange + 1 ≤ id := hissued.1
      rcases List.mem_cons.1 hmem with rfl | hmem
      · omega
      · have := hinv.issued id hmem
        omega
    · refine (houter e he).mono (fun id haside => ?_) (List.Subset.refl _)
      have hlt := haside.1
      refine ⟨by omega, fun hmem => ?_⟩
      rcases List.mem_cons.1 hmem with rfl | hmem
      · omega
      · exact haside.2 hmem

theorem Descends.inv {state state' : Descent} {layers : List Layer} {past : List Nat}
    (h : Descends env operation state s layers state' t) (hviews : env.CoversColumns)
    (hinv : Descent.Inv env state s past) : Descent.Inv env state' t (Layer.past layers past) := by
  induction h generalizing past with
  | done => exact hinv
  | pass hview hbase hrelation hrange houter hfilter hmap hrest ih =>
    simpa [Layer.past] using
      ih (hinv.pass hviews hview hbase hrelation hrange houter hfilter _)

/-! ## Ids and columns -/

/-- The ranges over the bases have ids that were handed out on the way. -/
theorem Descends.ids {state state' : Descent} {layers : List Layer}
    (h : Descends env operation state s layers state' t) :
    ∀ l ∈ layers, Issued s.nextRange t.nextRange l.range.id := by
  induction h with
  | done => simp
  | @pass state state' s t u _ _ _ range _ _ _ layers _ _ _ hrange _ hfilter _ hrest ih =>
    have hid : range.id = s.nextRange := by simp [hrange, Range.ofRelation, Range.fresh]
    have hle : s.nextRange + 1 ≤ u.nextRange := (resolveFilter_resolves hfilter).ranges
    have hut := hrest.resolves.ranges
    intro l hl
    rcases List.mem_cons.1 hl with rfl | hl
    · show Issued s.nextRange t.nextRange range.id
      exact ⟨by omega, by omega⟩
    · exact Issued.mono (by omega) (Nat.le_refl _) _ (ih l hl)

/-- A descent ends at the range over the last base, or where it starts. -/
theorem Descends.last {state state' : Descent} {layers : List Layer}
    (h : Descends env operation state s layers state' t) :
    layers = [] ∧ state' = state ∨ ∃ l ∈ layers, state'.range.id = l.range.id := by
  induction h with
  | done => exact .inl ⟨rfl, rfl⟩
  | @pass state state' s t u _ base _ range filter _ _ layers _ _ _ _ _ _ _ _ ih =>
    refine .inr ?_
    rcases ih with ⟨-, rfl⟩ | ⟨l, hl, hlast⟩
    · exact ⟨⟨base, range, filter⟩, by simp, rfl⟩
    · exact ⟨l, by simp [hl], hlast⟩

/-- A descent ends at a range that is not joined and not over a query, if it starts at one. -/
theorem Descends.plain {state state' : Descent} {layers : List Layer}
    (h : Descends env operation state s layers state' t) (hjoin : state.range.join = none)
    (hplans : state.range.plans = []) : state'.range.join = none ∧ state'.range.plans = [] := by
  induction h with
  | done => exact ⟨hjoin, hplans⟩
  | pass _ _ _ hrange _ _ _ _ ih => exact ih (hrange ▸ rfl) (hrange ▸ rfl)

/-- The column map keeps an entry for each column of the range that a statement names. -/
theorem Descends.length {state state' : Descent} {layers : List Layer}
    (h : Descends env operation state s layers state' t) :
    state'.columnMap.length = state.columnMap.length := by
  induction h with
  | done => rfl
  | pass _ _ _ _ _ _ hmap _ ih => exact ih.trans (ColumnMap.mapM_some_length hmap)

end ViewTarget

end DataChange
