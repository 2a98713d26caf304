import DataChange.Proofs.Query.Resolved

/-!
# The columns of queries

The columns of a query declare types for the values that it produces. A selected value has the type
of its column. A value of VALUES has a type that its column accepts, unless it is a row or its column
is expected to have a type: that type is then declared, and the values are not held against it
(`compile_declares`).
-/

namespace DataChange

/-- A type takes a single value that has a type which can be assigned to it. -/
def SqlType.Takes (type : SqlType) (e : Expr) : Prop :=
  e.shape = .scalar ∧ ∃ t, e.type? = some t ∧ type.assignableFrom t = true

namespace Expr

variable {e : Expr}

/-- A value that is ready to be stored: settled, of a shape that is read within an expression, and
no parameter without a type. -/
structure Ready (e : Expr) : Prop where
  settled : e.SettledNode
  plain : e.shape.isPlain = true
  typed : e.isUntypedParameter = false

/-- What is ready is taken if it is no row, is not DEFAULT and has no other type. -/
theorem Ready.takes_iff (h : e.Ready) {type : SqlType} :
    type.Takes e ↔ e.isRow = false ∧ e.isDefault = false ∧
      ∀ t, e.type? = some t → type.assignableFrom t = true := by
  have hplain := h.plain
  have htyped := h.settled.typed h.typed
  rw [Bool.eq_false_iff, Bool.eq_false_iff, Ne, Ne, isRow_iff, isDefault_iff]
  constructor
  · rintro ⟨hshape, t, ht, haccepts⟩
    simp [hshape, ht, haccepts]
  · rintro ⟨hrow, hdefault, haccepts⟩
    have hscalar : e.shape = .scalar := by
      cases hs : e.shape <;> simp_all [Shape.isPlain]
    obtain ⟨t, ht⟩ := Option.isSome_iff_exists.1 (htyped.2 hscalar)
    exact ⟨hscalar, t, ht, haccepts t ht⟩

end Expr

namespace Plan

/-- Whether the values of a query are selected. -/
def isSelect : Plan → Bool
  | select .. => true
  | values .. => false

/-- What a query is to produce: the selected values, or each row of VALUES. -/
def produced : Plan → List (List Expr)
  | select _ projection _ _ => [projection]
  | values _ rows => rows.children.map (·.children)

/-- The types that a query declares for its columns, with those that are expected: that of a
selected value is its own, that of a column of VALUES is the expected one if there is one. -/
structure Declares (plan : Plan) (expected : Query.Expectation) : Prop where
  length : ∀ values ∈ plan.produced, values.length = plan.columns.length
  selected : plan.isSelect = true → ∀ values ∈ plan.produced, ∀ (i : Nat) column e,
    plan.columns[i]? = some column → values[i]? = some e → e.type? = some column.type
  wanted : plan.isSelect = false → ∀ (i : Nat) column type, plan.columns[i]? = some column →
    Query.expectedType? expected i = some type → column.type = type
  takes_iff : ∀ values ∈ plan.produced, ∀ (i : Nat) column e, plan.columns[i]? = some column →
    values[i]? = some e → (column.type.Takes e ↔ plan.isSelect = true ∨ e.isRow = false ∧
      ∀ type, Query.expectedType? expected i = some type →
        ∀ t, e.type? = some t → type.assignableFrom t = true)

end Plan

namespace Query

variable {env : Environment} {compile : QueryCompiler} {scope : Scope} {outer : List RangeGroup}
  {expected : Expectation} {s t : CompilerState} {plan : Plan}

/-! ## SELECT -/

/-- A value and a column of its type. -/
def Typed (column : Attribute) (e : Expr) : Prop :=
  e.type? = some column.type

theorem allColumns_typed (r : Range) (qualifier : Option String) (fragment : Fragment) :
    List.Forall₂ Typed r.columns (r.allColumns qualifier fragment) := by
  refine List.forall₂_iff_get.2 ⟨by simp [Range.allColumns], fun i h₁ h₂ => ?_⟩
  simp [Range.allColumns, Typed, Expr.boundColumn]

theorem typeSelected_type {e e' : Expr} {type : Option SqlType} {u : SqlType}
    (h : typeSelected e type = .ok (e', u)) : e'.type? = some u := by
  unfold typeSelected at h
  split at h
  · next htype =>
    cases h
    exact htype
  · split at h
    · split at h
      · next huntyped =>
        cases h
        exact Expr.type_asColumn huntyped ..
      · cases h
    · cases h

theorem selectItem_typed {selection selection' : Selection} {item : Item}
    (h : selectItem compile scope expected selection item s = .ok selection' t)
    (hsel : List.Forall₂ Typed selection.columns selection.projection) :
    List.Forall₂ Typed selection'.columns selection'.projection := by
  cases item with
  | all fragment =>
    simp only [selectItem] at h
    split at h
    · exact (reject_ok.1 h).elim
    · obtain ⟨rfl, -⟩ := pure_ok.1 h
      refine List.rel_append hsel ?_
      induction scope.ranges with
      | nil => exact .nil
      | cons r ranges ih => exact List.rel_append (allColumns_typed r _ _) ih
  | expression e asName =>
    simp only [selectItem, bind_ok, lift_except_ok, pure_ok, Prod.exists] at h
    obtain ⟨e', u, -, e'', type, _, ⟨htype, rfl⟩, rfl, rfl⟩ := h
    exact List.rel_append hsel (.cons (typeSelected_type htype) .nil)

/-- Selected values of the types of their columns. -/
theorem declares_select {columns : List Attribute} {projection : List Expr} {ranges : List Range}
    {condition : Option Expr} (htyped : List.Forall₂ Typed columns projection)
    (hsettled : ∀ n ∈ (Plan.select columns projection ranges condition).nodes, n.SettledNode) :
    (Plan.select columns projection ranges condition).Declares expected := by
  have hselected : ∀ values ∈ (Plan.select columns projection ranges condition).produced,
      ∀ (i : Nat) column e, columns[i]? = some column → values[i]? = some e →
        e.type? = some column.type := by
    intro values hvalues i column e hcolumn he
    obtain rfl := List.mem_singleton.1 hvalues
    obtain ⟨-, hget⟩ := List.forall₂_iff_get.1 htyped
    obtain ⟨hi, rfl⟩ := List.getElem?_eq_some_iff.1 hcolumn
    obtain ⟨hi', rfl⟩ := List.getElem?_eq_some_iff.1 he
    exact hget i hi hi'
  refine ⟨?_, fun _ => hselected, by simp [Plan.isSelect], ?_⟩
  · simpa [Plan.produced, Plan.columns] using htyped.length_eq.symm
  · intro values hvalues i column e hcolumn he
    have htype := hselected values hvalues i column e hcolumn he
    have hnode : e.SettledNode := by
      obtain rfl := List.mem_singleton.1 hvalues
      refine hsettled e ?_
      rw [Plan.nodes_eq]
      refine List.mem_flatMap.2 ⟨e, ?_, Expr.self_mem_nodes e⟩
      simp [Plan.exprs, List.mem_of_getElem? he]
    have hsome : e.type?.isSome = true := by simp [htype]
    refine iff_of_true ?_ (.inl rfl)
    exact ⟨(hnode.typed (Expr.isUntypedParameter_of_type hsome)).1 hsome, column.type, htype,
      SqlType.assignableFrom_self _⟩

/-! ## VALUES -/

theorem regular_asRow {row : Expr} (h : row.Regular) : (asRow row).Regular := by
  unfold asRow
  split
  · exact h
  · exact .intro rfl (by simpa [Expr.children, Expr.untyped] using h)

theorem addRow_regular {degree : Nat} {row : Expr} {sofar sofar' : List (Option SqlType) × List Expr}
    (hrow : row.Regular) (h : addRow compile outer degree sofar row s = .ok sofar' t)
    (hsofar : ∀ r ∈ sofar.2, r.Regular) : ∀ r ∈ sofar'.2, r.Regular := by
  obtain ⟨-, row', hresolve, -, hrows⟩ := addRow_ok h
  intro r hr
  rw [hrows, List.mem_append, List.mem_singleton] at hr
  rcases hr with hr | rfl
  · exact hsofar r hr
  · exact (regular_asRow hrow).alike (Expr.resolveWith_alike hresolve)

theorem settleCell_alike (cell : Expr) (type : SqlType) : cell.Alike (settleCell cell type) := by
  unfold settleCell
  split
  · exact .asColumn ..
  · exact .refl _

/-- A cell that its column absorbs has a type that the column accepts. -/
theorem Joins.accepts {cell : Expr} {type : SqlType} (h : Joins (some type) cell) {u : SqlType}
    (hu : (settleCell cell type).type? = some u) : type.assignableFrom u = true := by
  unfold settleCell at hu
  split at hu
  · next huntyped =>
    obtain rfl : type = u := by simpa [Expr.type_asColumn huntyped] using hu
    exact SqlType.assignableFrom_self _
  · obtain ⟨wide, hwide, habsorbs⟩ := h.type u hu
    cases hwide
    exact habsorbs.assignableFrom

/-- A cell of VALUES under the type of its column. -/
theorem takes_settleCell {cell : Expr} {joined wanted : Option SqlType} {type : SqlType}
    (hready : (settleCell cell type).Ready) (hjoins : Joins joined cell)
    (htype : wanted.or joined = some type) :
    type.Takes (settleCell cell type) ↔ (settleCell cell type).isRow = false ∧
      ∀ type', wanted = some type' →
        ∀ u, (settleCell cell type).type? = some u → type'.assignableFrom u = true := by
  have hdefault : (settleCell cell type).isDefault = false := by
    have hvalue := hjoins.value
    rw [Bool.eq_false_iff, Ne, Expr.isDefault_iff] at hvalue ⊢
    rwa [(settleCell_alike cell type).shape]
  rw [hready.takes_iff]
  cases wanted with
  | some type' =>
    obtain rfl : type' = type := by simpa using htype
    simp [hdefault]
  | none =>
    obtain rfl : joined = some type := by simpa using htype
    simp only [hdefault, reduceCtorEq, false_implies, implies_true, and_true, true_and,
      and_iff_left_iff_imp]
    exact fun _ u hu => hjoins.accepts hu

theorem type_of_columns {types : List SqlType} {i : Nat} {column : Attribute}
    (h : (types.mapIdx fun index type => (⟨columnName index, type⟩ : Attribute))[i]? = some column) :
    types[i]? = some column.type := by
  rw [List.getElem?_mapIdx] at h
  obtain ⟨type, htype, rfl⟩ := Option.map_eq_some_iff.1 h
  exact htype

theorem compileValues_declares (hresolves : ResolvesQueries compile) (hplans : ResolvesPlans compile)
    (h : compileValues compile outer expected s = .ok plan t) : plan.Declares expected := by
  have hsettled := (compileValues_resolved hresolves hplans h).settledNodes
  obtain ⟨values, s₁, rows, s₂, joined, rows', types, degree, -, hrows, -, hadd, htypes, rfl⟩ :=
    compileValues_ok h
  obtain ⟨r, hr, -⟩ := lift_parser_ok.1 hrows
  have hplain := (Expr.parseList_reads _ _ _ hr).plain
  obtain ⟨hjoins, -⟩ := addRows_joins hplain (by simp) hadd (by simp [RowsJoin])
  have hregular := foldlM_induct (fun sofar : List (Option SqlType) × List Expr =>
      ∀ row ∈ sofar.2, row.Regular)
    (fun row hrow _ _ _ _ hsofar hadd => addRow_regular (hplain row hrow).regular hadd hsofar) hadd
    (by simp)
  obtain ⟨hlen, htypes⟩ := columnTypes_ok htypes
  simp only [Nat.zero_add] at htypes
  -- one goal for the degree, one for expected types, one for the type of each produced value
  refine ⟨fun vs hvs => ?_, by simp [Plan.isSelect], fun _ i column type hi hexpected => ?_,
    fun vs hvs i column e hi he => ?_⟩
  · obtain ⟨_, hmem, rfl⟩ := List.mem_map.1 hvs
    obtain ⟨row, hrow, rfl⟩ := List.mem_map.1 hmem
    obtain ⟨cells, hk, hcells⟩ := hjoins row hrow
    rw [settleRow_eq hk]
    simp [Expr.children, Plan.columns, hlen, hcells.length_eq]
  · have htype := htypes i column.type (type_of_columns hi)
    rw [hexpected] at htype
    exact (Option.some.inj htype).symm
  · obtain ⟨_, hmem, rfl⟩ := List.mem_map.1 hvs
    obtain ⟨row, hrow, rfl⟩ := List.mem_map.1 hmem
    obtain ⟨cells, hk, hcells⟩ := hjoins row hrow
    have he' := List.mem_of_getElem? he
    have hnode : e.SettledNode := by
      refine hsettled e ?_
      rw [Plan.nodes_eq]
      refine List.mem_flatMap.2 ⟨_, List.mem_singleton_self _, ?_⟩
      exact nodes_trans.1 _ _ (Expr.mem_nodes_of_mem_children hmem) (Expr.mem_nodes_of_mem_children he')
    -- a cell is settled with the type of its column, the join of what the rows have there
    have huntyped := (settleRow_settled hk types).2 e he'
    have hchildren : (settleRow types row).children = cells.zipWith settleCell types := by
      rw [settleRow_eq hk]
      rfl
    rw [hchildren, List.getElem?_zipWith_eq_some] at he
    obtain ⟨cell, type, hcell, htype, rfl⟩ := he
    obtain rfl : type = column.type := by simpa [htype] using type_of_columns hi
    obtain ⟨-, hget⟩ := List.forall₂_iff_get.1 hcells
    obtain ⟨hi₁, rfl⟩ := List.getElem?_eq_some_iff.1 hcell
    have hshape : (settleCell cells[i] column.type).shape.isPlain = true := by
      rw [(settleCell_alike ..).shape]
      exact ((hregular row hrow).children _ (by simp [Expr.children, hk])).node
    have hi₂ : i < joined.length := by
      rw [hcells.length_eq]
      exact hi₁
    have htype := htypes i column.type htype
    rw [List.getElem?_eq_getElem hi₂] at htype
    rw [takes_settleCell ⟨hnode, hshape, huntyped⟩ (hget i hi₂ hi₁) htype]
    simp [Plan.isSelect]

/-! ## All queries -/

theorem compileSelect_declares (hresolves : ResolvesQueries compile)
    (hplans : ResolvesPlans compile)
    (h : compileSelect env compile outer expected s = .ok plan t) : plan.Declares expected := by
  have hsettled := (compileSelect_resolved hresolves hplans h).settledNodes
  obtain ⟨_, s₁, items, s₂, _, s₃, ranges, s₄, condition, s₅, selection, s₆, _, -, -, -, -, -, -, hs,
    -, rfl⟩ := compileSelect_ok h
  have htyped := foldlM_induct (fun sel : Selection => List.Forall₂ Typed sel.columns sel.projection)
    (fun _ _ _ _ _ _ hsel hitem => selectItem_typed hitem hsel) hs .nil
  exact declares_select htyped hsettled

theorem compileTable_declares (h : compileTable env s = .ok plan t) : plan.Declares expected := by
  have hresolved : plan.Resolved _ (([] : List RangeGroup).flatten.map Range.heading) :=
    compileTable_resolved h
  have hsettled := hresolved.settledNodes
  obtain ⟨_, s₁, name, fragment, s₂, range, -, -, -, rfl⟩ := compileTable_ok h
  exact declares_select (allColumns_typed range none fragment) hsettled

/-- What the columns of a query declare of the values that it produces. -/
theorem compile_declares (h : Query.compile env outer expected s = .ok plan t) :
    plan.Declares expected := by
  simp only [Query.compile, bind_ok] at h
  obtain ⟨n, u, -, h⟩ := h
  obtain ⟨bound, parens, s₁, s₂, -, -, hbody, -⟩ := compileWithin_ok h
  have hresolves : ResolvesQueries (embedded (compileWithin env bound)) :=
    embedded_resolves (compileWithin_keeps bound)
  have hplans : ResolvesPlans (embedded (compileWithin env bound)) :=
    embedded_resolvesPlans (compileWithin_resolved bound)
  cases hbody with
  | select h => exact compileSelect_declares hresolves hplans h
  | table h => exact compileTable_declares h
  | values h => exact compileValues_declares hresolves hplans h

end Query

end DataChange
