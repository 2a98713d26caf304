import DataChange.Proofs.Query.Refused
import DataChange.Proofs.View.Written
import Mathlib.Order.WellFounded

/-!
# Views that are refused

In a sound catalog the column map of a view has an entry for each of its columns and leads to
columns of its base, and no view leads back to itself. Then every column that a statement names has
one behind it in the relation where the statement lands (`ViewTarget.Sound`), and views are followed
to the end: those that were passed are distinct, so there are no more of them than views in the
catalog (`followWithin_refuses`).
-/

namespace DataChange

/-! ## Sound catalogs -/

namespace Environment

/-- A view that another one is over. -/
def IsBehind (env : Environment) (base v : View) : Prop :=
  v ∈ env.views ∧ env.base? v = some (.view base)

/-- The column maps of views lead to columns of their bases. -/
def MapsWithin (env : Environment) : Prop :=
  ∀ v ∈ env.views, ∀ base ∈ v.base, ∀ relation ∈ env.base? v, ∀ column ∈ base.columnMap,
    column < relation.columns.length

instance (env : Environment) : Decidable env.MapsWithin :=
  inferInstanceAs (Decidable (∀ v ∈ env.views, ∀ base ∈ v.base, ∀ relation ∈ env.base? v, _))

/-- A catalog whose views can be followed. -/
structure Sound (env : Environment) : Prop where
  /-- There is an entry for each column of a view. -/
  maps : env.MapsColumns
  /-- Every entry is below the number of columns of the base. -/
  within : env.MapsWithin
  /-- A chain of views has an end. -/
  finite : WellFounded env.IsBehind

/-- The views of the bank are over tables, or over views with a smaller id. -/
theorem bank_sound : bank.Sound := by
  refine ⟨bank_mapsColumns, by decide +kernel, Subrelation.wf ?_ (measure View.id).wf⟩
  have hids : ∀ v ∈ bank.views, (bank.base? v).all (fun
      | .view base => base.id < v.id
      | .table _ => true) = true := by
    decide +kernel
  intro base v ⟨hv, hbase⟩
  show base.id < v.id
  simpa [hbase] using hids v hv

end Environment

/-! ## Moving columns -/

/-- A change that fails for no reference. -/
def ColumnChange.IsTotal (change : ColumnChange) : Prop :=
  ∀ ref type, (change ref type).isSome = true

section

variable {change : ColumnChange}

mutual

/-- Such a change fails for no expression. -/
theorem Expr.mapColumns_isSome (h : change.IsTotal) :
    ∀ e : Expr, (e.mapColumns change).isSome = true
  | ⟨.column ref, _, type⟩ => by simp [Expr.mapColumns, h ref type]
  | ⟨.row items, _, _⟩ => by simp [Expr.mapColumns, Expr.mapColumnsOfList_isSome h items]
  | ⟨.values rows, _, _⟩ => by simp [Expr.mapColumns, Expr.mapColumnsOfList_isSome h rows]
  | ⟨.query _ plan, _, _⟩ => by simp [Expr.mapColumns, Plan.mapColumns_isSome h plan]
  | ⟨.unary _ operand, _, _⟩ => by simp [Expr.mapColumns, Expr.mapColumns_isSome h operand]
  | ⟨.binary _ left right, _, _⟩ => by
    obtain ⟨l, hl⟩ := Option.isSome_iff_exists.1 (Expr.mapColumns_isSome h left)
    obtain ⟨r, hr⟩ := Option.isSome_iff_exists.1 (Expr.mapColumns_isSome h right)
    simp [Expr.mapColumns, hl, hr]
  | ⟨.isNull operand _, _, _⟩ => by simp [Expr.mapColumns, Expr.mapColumns_isSome h operand]
  | ⟨.call _ _ arguments, _, _⟩ => by
    simp [Expr.mapColumns, Expr.mapColumnsOfList_isSome h arguments]
  | ⟨.constant _, _, _⟩ => rfl
  | ⟨.parameter _, _, _⟩ => rfl
  | ⟨.defaultMarker, _, _⟩ => rfl
  | ⟨.pending _ _, _, _⟩ => rfl
  | ⟨.diagnostics _, _, _⟩ => rfl

theorem Expr.mapColumnsOfList_isSome (h : change.IsTotal) :
    ∀ es : List Expr, (Expr.mapColumnsOfList change es).isSome = true
  | [] => rfl
  | e :: es => by
    obtain ⟨e', he⟩ := Option.isSome_iff_exists.1 (Expr.mapColumns_isSome h e)
    obtain ⟨es', hes⟩ := Option.isSome_iff_exists.1 (Expr.mapColumnsOfList_isSome h es)
    simp [Expr.mapColumnsOfList, he, hes]

theorem Expr.mapColumnsOfOption_isSome (h : change.IsTotal) :
    ∀ e : Option Expr, (Expr.mapColumnsOfOption change e).isSome = true
  | none => rfl
  | some e => by simp [Expr.mapColumnsOfOption, Expr.mapColumns_isSome h e]

theorem Plan.mapColumns_isSome (h : change.IsTotal) :
    ∀ plan : Plan, (plan.mapColumns change).isSome = true
  | .select _ projection ranges condition => by
    obtain ⟨es, hes⟩ := Option.isSome_iff_exists.1 (Expr.mapColumnsOfList_isSome h projection)
    obtain ⟨rs, hrs⟩ := Option.isSome_iff_exists.1 (Range.mapColumnsOfList_isSome h ranges)
    obtain ⟨c, hc⟩ := Option.isSome_iff_exists.1 (Expr.mapColumnsOfOption_isSome h condition)
    simp [Plan.mapColumns, hes, hrs, hc]
  | .values _ rows => by simp [Plan.mapColumns, Expr.mapColumns_isSome h rows]

theorem Range.mapColumns_isSome (h : change.IsTotal) :
    ∀ r : Range, (r.mapColumns change).isSome = true
  | ⟨_, _, _, _, _, join, _⟩ => by simp [Range.mapColumns, Expr.mapColumnsOfOption_isSome h join]

theorem Range.mapColumnsOfList_isSome (h : change.IsTotal) :
    ∀ rs : List Range, (Range.mapColumnsOfList change rs).isSome = true
  | [] => rfl
  | r :: rs => by
    obtain ⟨r', hr⟩ := Option.isSome_iff_exists.1 (Range.mapColumns_isSome h r)
    obtain ⟨rs', hrs⟩ := Option.isSome_iff_exists.1 (Range.mapColumnsOfList_isSome h rs)
    simp [Range.mapColumnsOfList, hr, hrs]

end

end

/-- References can be moved along a map that leads to columns of the target. -/
theorem Expr.redirect_isSome {target : Range} {columnMap : List Nat}
    (h : ∀ column ∈ columnMap, column < target.columns.length) (source : Nat) (e : Expr) :
    (e.redirect source target columnMap).isSome = true := by
  refine mapColumns_isSome (fun ref type => ?_) e
  unfold ColumnRef.redirect
  split
  · rfl
  · split
    · split
      · rfl
      · next ordinal hordinal =>
        have hlt := h ordinal (List.mem_of_getElem? hordinal)
        simp [List.getElem?_eq_getElem hlt]
    · rfl

theorem isSome_mapM {α β : Type} {f : α → Option β} {as : List α}
    (h : ∀ a ∈ as, (f a).isSome = true) : (as.mapM f).isSome = true := by
  induction as with
  | nil => rfl
  | cons a as ih =>
    obtain ⟨b, hb⟩ := Option.isSome_iff_exists.1 (h a (by simp))
    obtain ⟨bs, hbs⟩ := Option.isSome_iff_exists.1 (ih fun a ha => h a (by simp [ha]))
    simp [List.mapM_cons, hb, hbs]

/-- A map is followed to its end by one that has an entry for each of its ordinals. -/
theorem ColumnMap.mapM_isSome {base columns : List Nat}
    (h : ∀ column ∈ columns, column < base.length) :
    (columns.mapM fun column => base[column]?).isSome = true :=
  isSome_mapM fun column hc => by simpa using h column hc

theorem ColumnMap.mem_of_mapM {base columns result : List Nat}
    (h : columns.mapM (fun column => base[column]?) = some result) : result ⊆ base := by
  induction columns generalizing result with
  | nil =>
    obtain rfl : [] = result := by simpa using h
    simp
  | cons column columns ih =>
    simp only [List.mapM_cons, Option.bind_eq_bind, Option.bind_eq_some_iff, Option.pure_def,
      Option.some.injEq] at h
    obtain ⟨ordinal, hordinal, rest, hrest, rfl⟩ := h
    exact List.cons_subset.2 ⟨List.mem_of_getElem? hordinal, ih hrest⟩

/-! ## Following views -/

/-- A range over a relation has its columns. -/
def Range.Sized (r : Range) : Prop :=
  ∀ relation, r.relation? = some relation → r.columns.length = relation.columns.length

theorem Range.sized_ofRelation (id : Nat) (relation : Relation) (asName : Option String)
    (fragment : Fragment) : (ofRelation id relation asName fragment).Sized := by
  intro found h
  obtain rfl : relation = found := by simpa [ofRelation, fresh, relation?] using h
  simp [ofRelation, fresh]

namespace ViewTarget

variable {env : Environment} {operation : Operation} {state : Descent} {s t : CompilerState}

/-- A descent whose column map leads to columns of the range that it has come to. -/
structure Descent.Placed (env : Environment) (state : Descent) : Prop where
  known : state.range.Over env
  sized : state.range.Sized
  within : ∀ column ∈ state.columnMap, column < state.range.columns.length

theorem resolveFilter_refuses (base : Range) (text : Option String) :
    Refuses (resolveFilter env base text) s := by
  cases text with
  | none => exact refuses_pure none
  | some text => simp [resolveFilter]

section

variable {view : View} (hsound : env.Sound) (hview : viewToPass? operation state.range = some view)
  (h : state.Placed env)
include hsound hview h

theorem descend_refuses : Refuses (descend env operation view state) s := by
  simp only [descend]
  split
  · exact refuses_reject _
  · next base hbase =>
    have hlength := columnMap_length hsound.maps h.known hview hbase
    have hmem := h.known.found view (viewToPass?_some hview).1
    simp only [refuses_bind, refuses_except, lift_except_ok, true_and]
    rintro relation _ ⟨hrelation, rfl⟩
    refine ⟨Range.ofNew_refuses _ _ _, fun range u hrange => ?_⟩
    -- the column map so far stays within the columns of the view, which all have an entry
    have hcolumns : (state.columnMap.mapM fun column => base.columnMap[column]?).isSome = true :=
      ColumnMap.mapM_isSome fun c hc => hlength ▸ h.within c hc
    cases state.filter with
    | none => simp [resolveFilter_refuses, hcolumns]
    | some filter =>
      obtain ⟨rfl, -⟩ := Range.ofNew_ok hrange
      have hwithin := hsound.within view hmem base hbase relation
        (Environment.base?_of_relation hbase hrelation)
      have hredirect : (filter.redirect state.range.id
          (.ofRelation s.nextRange relation none state.range.fragment) base.columnMap).isSome =
            true :=
        Expr.redirect_isSome (by simpa [Range.ofRelation, Range.fresh] using hwithin) _ _
      simp [resolveFilter_refuses, hcolumns, hredirect]

/-- Behind a view the column map leads to columns of its base, and so does the view. -/
theorem descend_placed {state' : Descent} (hd : descend env operation view state s = .ok state' t) :
    state'.Placed env ∧
      ∀ base, viewToPass? operation state'.range = some base → env.IsBehind base view := by
  obtain ⟨base, relation, _, outer, filter, columnMap, hbase, hrelation, rfl, -, -, hmap, rfl⟩ :=
    descend_ok hd
  have hmem := h.known.found view (viewToPass?_some hview).1
  have hfound := Environment.base?_of_relation hbase hrelation
  have hover : (Range.ofRelation s.nextRange relation none state.range.fragment).Over env :=
    Range.over_ofRelation hrelation
  refine ⟨⟨⟨hover.columns, hover.found⟩, ?_, fun column hc => ?_⟩, fun v hv => ?_⟩
  · exact Range.sized_ofRelation s.nextRange relation none state.range.fragment
  · have hlt := hsound.within view hmem base hbase relation hfound column
      (ColumnMap.mem_of_mapM hmap hc)
    simpa [Range.markAllUsed, Range.ofRelation, Range.fresh] using hlt
  · obtain rfl : relation = .view v := by
      simpa [Range.markAllUsed, Range.ofRelation, Range.fresh] using (viewToPass?_some hv).1
    exact ⟨hmem, hfound⟩

end

/-- The views passed so far are distinct views of the catalog, all over the one to pass next. When
no step is left, there are more of them than the catalog has. -/
theorem followWithin_refuses (hsound : env.Sound) :
    ∀ (bound : Nat) (seen : List View) {state : Descent} {s : CompilerState}, state.Placed env →
      seen.Nodup → seen ⊆ env.views →
      (∀ view, viewToPass? operation state.range = some view →
        ∀ v ∈ seen, Relation.TransGen env.IsBehind view v) →
      env.views.length < seen.length + bound → Refuses (followWithin env operation bound state) s
  | 0, seen, _, _, _, hnodup, hsub, _, hlt => by
    have := hnodup.length_le_of_subset hsub
    omega
  | bound + 1, seen, state, s, h, hnodup, hsub, hbehind, hlt => by
    simp only [followWithin]
    cases hview : viewToPass? operation state.range with
    | none => exact refuses_pure state
    | some view =>
      simp only [refuses_bind]
      refine ⟨descend_refuses hsound hview h, fun state' t hd => ?_⟩
      obtain ⟨hplaced, hnext⟩ := descend_placed hsound hview h hd
      have hnew : view ∉ seen := fun hmem =>
        hsound.finite.transGen.irrefl.irrefl view (hbehind view hview view hmem)
      refine followWithin_refuses hsound bound (view :: seen) hplaced
        (List.nodup_cons.2 ⟨hnew, hnodup⟩) (List.cons_subset.2 ⟨?_, hsub⟩) ?_ ?_
      · exact h.known.found view (viewToPass?_some hview).1
      · intro base hbase v hv
        have hstep := Relation.TransGen.single (hnext base hbase)
        rcases List.mem_cons.1 hv with rfl | hv
        · exact hstep
        · exact hstep.trans (hbehind view hview v hv)
      · simp only [List.length_cons]
        omega

/-! ## Where a statement lands -/

/-- A target with a column of its relation behind each column of the range that is written. -/
structure Sound (target : ViewTarget) : Prop where
  length : target.columnMap.length = target.written.columns.length
  within : ∀ column ∈ target.columnMap, column < target.relation.columns.length
  sized : target.range.columns.length = target.relation.columns.length

variable {written : Range}

theorem start_placed (hknown : written.Over env) (hsized : written.Sized) :
    (start written).Placed env :=
  ⟨hknown, hsized, by simp [start]⟩

theorem resolve_refuses (hsound : env.Sound) (hknown : written.Over env) (hsized : written.Sized) :
    Refuses (resolve env written operation) s := by
  simp only [resolve, refuses_bind]
  refine ⟨followWithin_refuses hsound _ [] (start_placed hknown hsized) List.nodup_nil
    (List.nil_subset _) (by simp) ?_, ?_⟩
  · simp [Environment.views, Index.values]
  · rintro ⟨range, columnMap, filter⟩ t -
    dsimp only
    split <;> simp

theorem resolve_sound {target : ViewTarget} (hsound : env.Sound) (hknown : written.Over env)
    (hsized : written.Sized) (h : resolve env written operation s = .ok target t) :
    target.Sound ∧ target.written = written := by
  obtain ⟨bound, range, columnMap, filter, relation, hfollow, hrelation, rfl⟩ := resolve_ok h
  have hstep : ∀ view state s state' t, viewToPass? operation state.range = some view →
      (state.Placed env ∧ state.columnMap.length = written.columns.length) →
      descend env operation view state s = .ok state' t →
      state'.Placed env ∧ state'.columnMap.length = written.columns.length := by
    rintro view state s state' t hview ⟨hplaced, hlength⟩ hd
    refine ⟨(descend_placed hsound hview hplaced hd).1, ?_⟩
    obtain ⟨base, _, _, _, _, columnMap, -, -, -, -, -, hmap, rfl⟩ := descend_ok hd
    exact (ColumnMap.mapM_some_length hmap).trans hlength
  obtain ⟨⟨hplaced, hlength⟩, -⟩ := followWithin_induct hstep bound
    ⟨start_placed hknown hsized, by simp [start]⟩ hfollow
  have hsize : range.columns.length = relation.columns.length := hplaced.sized relation hrelation
  exact ⟨⟨hlength, fun c hc => hsize ▸ hplaced.within c hc, hsize⟩, rfl⟩

end ViewTarget

end DataChange
