import DataChange.Proofs.Statement.Slots
import DataChange.Proofs.View.Refused

/-!
# Targets and values that are refused

Where a statement lands, every column that it names has an ordinal in range, and so has every value
that goes to one column. The values of a SET clause take one slot after the other, and run out of
them only if one has more parts than its group has columns. As it is read, no value has, but for a
row that is assigned to a single column (`SetClause.Spills`, `ViewTarget.assign_refuses`).
-/

namespace DataChange

/-! ## Reading -/

namespace SetClause

variable {s : Reading}

theorem readRow_refuses (degree : Nat) : Refuses (readRow degree) s := by
  simp [readRow]

theorem readValue_refuses (mysql group : Bool) (degree : Nat) :
    Refuses (readValue mysql group degree) s := by
  have hrest : ∀ {s : Reading}, Refuses (if degree > 1 then readRow degree else Expr.parse) s := by
    simp [readRow_refuses]
  simp only [readValue, refuses_bind, refuses_get, true_and]
  intro _ t _
  split
  · simp [readQuery]
  · cases mysql with
    | true => simp [readRow_refuses]
    | false => simpa using hrest

theorem addAssignment_refuses (mysql : Bool) (range : Range) (clause : SetClause) :
    Refuses (addAssignment mysql range clause) s := by
  simp [addAssignment, readValue_refuses]

@[simp] theorem read_refuses (mysql : Bool) (range : Range) :
    Refuses (SetClause.read mysql range) s :=
  refuses_commaSteps (fun _ _ => refuses_reader) fun clause _ =>
    addAssignment_refuses mysql range clause

end SetClause

theorem Rows.readRow_refuses (degree : Nat) {s : Reading} : Refuses (readRow degree) s := by
  simp only [readRow, refuses_bind, refuses_get, refuses_reader, true_and]
  intro _ _ _ found t _
  cases found <;> simp

@[simp] theorem Rows.read_refuses (degree : Nat) {s : Reading} : Refuses (Rows.read degree) s := by
  have hrows : ∀ {s : Reading}, Refuses (commaSeparated (Rows.readRow degree)) s :=
    refuses_list fun _ => readRow_refuses degree
  simp [Rows.read, hrows]

/-! ## Rules for columns -/

namespace ColumnPolicy

variable {columns : List Column} {map : ColumnMap} {ordinals : List Nat} {s : CompilerState}

theorem insertCells_refuses (h : ∀ ordinal ∈ ordinals, ordinal < columns.length)
    (overriding : Option OverridingKind) (cells : List Expr) :
    Refuses (insertCells columns overriding cells ordinals) s := by
  induction ordinals generalizing cells s with
  | nil => cases cells <;> exact refuses_pure _
  | cons ordinal ordinals ih =>
    cases cells with
    | nil => exact refuses_pure _
    | cons cell cells =>
      have hlt := h ordinal (by simp)
      simp [insertCells, hlt, ih fun o ho => h o (by simp [ho])]

theorem insertRow_refuses (h : ∀ ordinal ∈ map.ordinals, ordinal < columns.length)
    (overriding : Option OverridingKind) (row : Expr) :
    Refuses (insertRow columns map overriding row) s := by
  unfold insertRow
  split <;> simp [insertCells_refuses h]

theorem insertRows_refuses (h : ∀ ordinal ∈ map.ordinals, ordinal < columns.length)
    (overriding : Option Overriding) (rows : List Expr) :
    Refuses (insertRows columns map overriding rows) s := by
  simp only [insertRows, refuses_bind, refuses_except, true_and]
  exact fun _ _ _ => refuses_mapM fun row _ _ => insertRow_refuses h _ row

theorem queryColumnsFrom_refuses (h : ∀ ordinal ∈ ordinals, ordinal < columns.length)
    (overriding : Option OverridingKind) (fragment : Fragment) (overridden : Option Nat)
    (types : List SqlType) :
    Refuses (queryColumnsFrom columns overriding fragment overridden ordinals types) s := by
  induction ordinals generalizing overridden types s with
  | nil => exact refuses_pure _
  | cons ordinal ordinals ih =>
    cases types with
    | nil => exact refuses_pure _
    | cons type types =>
      have hlt := h ordinal (by simp)
      simp [queryColumnsFrom, hlt, ih fun o ho => h o (by simp [ho])]

theorem queryColumns_refuses (h : ∀ ordinal ∈ map.ordinals, ordinal < columns.length)
    (produced : List SqlType) (overriding : Option Overriding) (fragment : Fragment) :
    Refuses (queryColumns columns map produced overriding fragment) s := by
  simp [queryColumns, queryColumnsFrom_refuses h]

/-! ## Slots -/

variable {slots : List Nat}

theorem nextSlot_refuses (hslots : 0 < slots.length)
    (h : ∀ ordinal ∈ slots, ordinal < columns.length) : Refuses (nextSlot columns slots) s := by
  obtain ⟨ordinal, rest, rfl⟩ := List.exists_cons_of_length_pos hslots
  simp [nextSlot, h ordinal]

theorem updateItems_refuses {items : List Expr} (hitems : items.length ≤ slots.length)
    (h : ∀ ordinal ∈ slots, ordinal < columns.length) :
    Refuses (updateItems columns items slots) s := by
  induction items generalizing slots s with
  | nil => exact refuses_pure _
  | cons item items ih =>
    simp only [List.length_cons] at hitems
    simp only [updateItems, refuses_bind, refuses_except, refuses_pure, implies_true, and_true,
      true_and]
    refine ⟨nextSlot_refuses (by omega) h, ?_⟩
    rintro ⟨column, rest⟩ t hnext item' u -
    obtain ⟨ordinal, rfl, -⟩ := nextSlot_ok.1 hnext
    exact ih (by simpa using hitems) fun o ho => h o (by simp [ho])

theorem updateProducedList_refuses {types : List SqlType} (fragment : Fragment)
    (htypes : types.length ≤ slots.length) (h : ∀ ordinal ∈ slots, ordinal < columns.length) :
    Refuses (updateProducedList columns fragment types slots) s := by
  induction types generalizing slots s with
  | nil => exact refuses_pure _
  | cons type types ih =>
    simp only [List.length_cons] at htypes
    simp only [updateProducedList, refuses_bind, refuses_except, true_and]
    refine ⟨nextSlot_refuses (by omega) h, ?_⟩
    rintro ⟨column, rest⟩ t hnext _ u -
    obtain ⟨ordinal, rfl, -⟩ := nextSlot_ok.1 hnext
    exact ih (by simpa using htypes) fun o ho => h o (by simp [ho])

theorem updateValue_refuses {value : Expr} (hparts : value.slots.length ≤ slots.length)
    (h : ∀ ordinal ∈ slots, ordinal < columns.length) :
    Refuses (updateValue columns value slots) s := by
  rcases value.isCell_or with hc | ⟨items, hk⟩ | ⟨degree, plan, hk⟩
  · rw [hc.slots] at hparts
    rw [updateValue_cell hc]
    simp [nextSlot_refuses hparts h]
  · have hitems : items.length ≤ slots.length := by simpa [Expr.slots, hk] using hparts
    simp [updateValue, hk, updateItems_refuses hitems h]
  · have htypes : plan.columnTypes.length ≤ slots.length := by
      simpa [Expr.slots, hk] using hparts
    simp [updateValue, hk, updateProducedList_refuses _ htypes h]

/-- Values with no more parts than there are slots do not run out of them. -/
theorem updateValuesFrom_refuses {values : List Expr}
    (hparts : (values.map fun value => value.slots.length).sum ≤ slots.length)
    (h : ∀ ordinal ∈ slots, ordinal < columns.length) :
    Refuses (updateValuesFrom columns values slots) s := by
  induction values generalizing slots s with
  | nil => exact refuses_pure _
  | cons value values ih =>
    simp only [List.map_cons, List.sum_cons] at hparts
    simp only [updateValuesFrom, refuses_bind, refuses_pure, implies_true, and_true]
    refine ⟨updateValue_refuses (by omega) h, ?_⟩
    rintro ⟨value', rest⟩ t hvalue
    obtain ⟨taken, rfl, -, hreceives⟩ := updateValue_frame hvalue
    have hlength : taken.length = value.slots.length :=
      hreceives.length_eq.trans (updateValue_ok hvalue).1.length_slots
    have hrest : (values.map fun value => value.slots.length).sum ≤ rest.length := by
      rw [List.length_append] at hparts
      omega
    exact ih hrest fun o ho => h o (List.mem_append_right _ ho)

end ColumnPolicy

/-! ## Where a statement lands -/

namespace SetClause

/-- A row of several values for a single column. -/
structure Spills (group : List Nat) (value : Expr) : Prop where
  column : group.length = 1
  row : value.isRow = true
  degree : 2 ≤ value.degree

/-- A value that does not spill has as many parts as its group has columns. -/
theorem Fits.length_slots {group : List Nat} {value value' : Expr} (h : Fits group value)
    (hspills : ¬ Spills group value) (hfrom : value.SettledFrom value') :
    value'.slots.length = group.length := by
  rw [hfrom.settled.node.length_slots, Expr.degree_eq, hfrom.alike.shape, ← Expr.degree_eq]
  rcases h.degree with hdegree | ⟨hone, hregular⟩
  · exact hdegree
  · by_cases hrow : value.isRow = true
    · have hpos := hregular.degree_pos
      have hlt : ¬ 2 ≤ value.degree := fun hle => hspills ⟨hone, hrow, hle⟩
      omega
    · exact (hregular.degree_eq_one hrow).trans hone.symm

end SetClause

namespace ViewTarget

variable {target : ViewTarget} (hsound : target.Sound) {s t : CompilerState}
include hsound

theorem onBase_refuses (e : Expr) : Refuses (target.onBase e) s := by
  unfold onBase
  split
  · have hwithin : ∀ column ∈ target.columnMap, column < target.range.columns.length :=
      fun c hc => hsound.sized ▸ hsound.within c hc
    simp [Expr.redirect_isSome hwithin]
  · exact refuses_pure e

theorem onBase?_refuses (e : Option Expr) : Refuses (target.onBase? e) s := by
  cases e with
  | none => exact refuses_pure none
  | some e => simp [onBase?, onBase_refuses hsound]

theorem sliceOnBase_refuses (slice : Option Slice) : Refuses (target.sliceOnBase slice) s := by
  cases slice with
  | none => exact refuses_pure none
  | some slice =>
    simp only [sliceOnBase, refuses_bind, refuses_pure, implies_true, and_true]
    exact refuses_mapM fun k _ _ => by simp [onBase_refuses hsound]

variable {map map' : ColumnMap} (hmap : map.Within target.written)
include hmap

theorem project_refuses : Refuses (target.project map) s := by
  have hcolumns : (map.ordinals.mapM fun column => target.columnMap[column]?).isSome = true :=
    ColumnMap.mapM_isSome fun c hc => hsound.length ▸ hmap c hc
  simpa [project, ColumnMap.project] using hcolumns

omit hmap in
theorem project_within (h : target.project map s = .ok map' t) :
    ∀ ordinal ∈ map'.ordinals, ordinal < target.relation.columns.length := by
  simp only [project, ColumnMap.project, inRange_ok, Option.map_eq_some_iff] at h
  obtain ⟨⟨ordinals, hordinals, rfl⟩, -⟩ := h
  exact fun ordinal ho => hsound.within ordinal (ColumnMap.mem_of_mapM hordinals ho)

omit hsound hmap in
theorem checkList_refuses (h : ∀ ordinal ∈ map.ordinals, ordinal < target.relation.columns.length) :
    Refuses (target.checkList map) s := by
  have hall : map.ordinals.all (· < target.relation.columns.length) = true := by
    simpa using h
  simp [checkList, ColumnMap.checkList, hall]

end ViewTarget

theorem sum_slots {groups : List (List Nat)} {values : List Expr}
    (h : List.Forall₂ (fun group (value : Expr) => value.slots.length = group.length) groups
      values) :
    (values.map fun value => value.slots.length).sum = groups.flatten.length := by
  induction h with
  | nil => rfl
  | cons h _ ih => rw [List.map_cons, List.sum_cons, List.flatten_cons, List.length_append, h, ih]

/-- The values of a clause of which none spills are assigned to the columns of its groups. -/
theorem ViewTarget.assign_refuses {target : ViewTarget} {groups : List (List Nat)}
    {clause : SetClause} {values : List Expr} {s : CompilerState} (hsound : target.Sound)
    (hgrouped : SetClause.Grouped target.written groups clause)
    (hspills : ∀ p ∈ groups.zip clause.values, ¬ SetClause.Spills p.1 p.2)
    (hvalues : List.Forall₂ Expr.SettledFrom clause.values values) :
    Refuses (target.assign clause.columnMap values) s := by
  have hparts : List.Forall₂ (fun group (value : Expr) => value.slots.length = group.length) groups
      values := by
    obtain ⟨hlength, hfits⟩ := List.forall₂_iff_zip.1 hgrouped.fits
    have hfit : List.Forall₂ (fun group value => SetClause.Fits group value ∧
        ¬ SetClause.Spills group value) groups clause.values :=
      List.forall₂_iff_zip.2 ⟨hlength, fun hmem => ⟨hfits hmem, hspills _ hmem⟩⟩
    exact forall₂_comp hfit hvalues fun _ _ _ _ hfit hfrom => hfit.1.length_slots hfit.2 hfrom
  simp only [assign, refuses_bind, refuses_pure, implies_true, and_true]
  refine ⟨project_refuses hsound hgrouped.within, fun map t hmap => ?_⟩
  have hwithin := project_within hsound hmap
  refine ⟨?_, fun values' u _ => checkList_refuses hwithin⟩
  simp only [project, inRange_ok] at hmap
  have hlength := ColumnMap.project_length hmap.1
  refine ColumnPolicy.updateValuesFrom_refuses ?_ hwithin
  rw [sum_slots hparts, ← hgrouped.ordinals]
  exact Nat.le_of_eq hlength.symm

end DataChange
