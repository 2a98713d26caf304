import DataChange.Proofs.Query.Columns
import DataChange.Proofs.Statement.Settled
import DataChange.Proofs.Statement.Slots

/-!
# What is stored in a column

A column takes a single value with a type that it accepts. What a statement stores in its columns
is of this kind, or DEFAULT, except that a row may stand where a single value should: a row has no
type, and where no type is found none is checked. The same holds of the arguments of a CALL, of
which DEFAULT is let through as well (`stored_takes_iff`).
-/

namespace DataChange

variable {env : Environment} {s t : CompilerState}

/-- What a column stores: DEFAULT, or what its type takes if it is no row. -/
def Column.Stores (column : Column) : Slot → Prop
  | .value e => e.isDefault = false → (column.type.Takes e ↔ e.isRow = false)
  | .produced t => column.type.assignableFrom t = true

/-- A slot that stands for a column stores what goes to it. -/
def StoresAt (columns : List Column) (ordinal : Nat) (slot : Slot) : Prop :=
  ∃ column, columns[ordinal]? = some column ∧ column.Stores slot

/-- What a parameter that is read is given: what its type takes, unless it is a row or DEFAULT. -/
def RoutineParameter.IsGiven (parameter : RoutineParameter) (argument : Expr) : Prop :=
  parameter.mode = .input →
    (parameter.type.Takes argument ↔ argument.isRow = false ∧ argument.isDefault = false)

namespace Expr

variable {e e' : Expr}

theorem Assigned.alike (h : e.Assigned e') : e.Alike e' := by
  obtain ⟨-, rfl | ⟨t, w, rfl⟩⟩ := h
  · exact .refl _
  · exact .asColumn e t w

theorem AssignedValue.alike (h : e.AssignedValue e') : e.Alike e' := by
  cases h with
  | cell _ h => exact h.alike
  | query => exact .refl _
  | row h => exact .intro (congrArg Shape.row h.length_eq.symm) (h.imp fun _ _ h => h.alike)

theorem Inserted.isPlain (h : e.Inserted e') (he : e.shape.isPlain = true) :
    e'.shape.isPlain = true := by
  rcases h with h | rfl
  · rwa [h.alike.shape]
  · rfl

end Expr

theorem AcceptsAt.storesAt {columns : List Column} {ordinal : Nat} {slot : Slot}
    (h : AcceptsAt columns ordinal slot) (hready : ∀ e, slot = .value e → e.Ready) :
    StoresAt columns ordinal slot := by
  obtain ⟨column, hcolumn, haccepts⟩ := h
  refine ⟨column, hcolumn, ?_⟩
  cases slot with
  | produced t => exact haccepts
  | value e =>
    intro hd
    rcases haccepts with hdefault | haccepts
    · simp [hd] at hdefault
    · rw [(hready e rfl).takes_iff, hd]
      simp only [true_and, and_iff_left_iff_imp]
      exact fun _ => haccepts

/-! ## Assignments -/

theorem Assigns.fits {tokens : List Token} {columns : List Column} {a : Assignments}
    (h : Assigns env tokens columns a) :
    ∀ e ∈ a.values, ∃ group, SetClause.Fits group e := by
  obtain ⟨-, hread, hvalues, -, hassign⟩ := h
  intro e' he'
  obtain ⟨e, he, hassigned⟩ := forall₂_exists_left (ViewTarget.assign_ok hassign).1 he'
  obtain ⟨e₀, he₀, hfrom⟩ := forall₂_exists_left hvalues he
  obtain ⟨group, -, hfits⟩ := forall₂_exists_left hread.grouped.fits he₀
  exact ⟨group, hfits.alike (hfrom.alike.trans hassigned.alike)⟩

theorem Assigns.ready {tokens : List Token} {columns : List Column} {a : Assignments}
    (h : Assigns env tokens columns a) :
    ∀ v ∈ a.values, ∀ e, Slot.value e ∈ v.slots → e.Ready := by
  intro v hv e he
  have hsettled := h.settled v hv
  have hplaced := h.placed v hv
  obtain ⟨group, hfits⟩ := h.fits v hv
  rcases v.isCell_or with hc | ⟨items, hk⟩ | ⟨degree, plan, hk⟩
  · rw [hc.slots, List.mem_singleton] at he
    obtain rfl := Slot.value.inj he
    refine ⟨hsettled.node, ?_, hplaced.whole⟩
    rcases hfits.shape with hregular | ⟨degree, hshape⟩
    · exact hregular.node
    · obtain ⟨plan, hk⟩ := hsettled.node.kind_query hshape
      exact absurd hk (hc.2 degree plan)
  · have hmem : e ∈ v.children := by simpa [Expr.slots, Expr.children, hk] using he
    refine ⟨(hsettled.children e hmem).node, ?_, hplaced.items (by simp [Expr.isRow, hk]) e hmem⟩
    rcases hfits.shape with hregular | ⟨degree, hshape⟩
    · exact (hregular.children e hmem).node
    · simp [Expr.shape, hk] at hshape
  · simp [Expr.slots, hk] at he

theorem Assigns.storesAt {tokens : List Token} {columns : List Column} {a : Assignments}
    (h : Assigns env tokens columns a) :
    List.Forall₂ (StoresAt columns) a.columnMap.ordinals (a.values.flatMap Expr.slots) := by
  refine forall₂_imp_mem h.linedUp.accepts fun ordinal _ slot hslot haccepts => ?_
  obtain ⟨v, hv, hmem⟩ := List.mem_flatMap.1 hslot
  exact haccepts.storesAt fun e he => h.ready v hv e (he ▸ hmem)

/-! ## Rows -/

namespace ColumnPolicy

variable {columns : List Column} {overriding : Option OverridingKind}

theorem insertCell_accepts {column : Column} {identity : Option Identity} {cell cell' : Expr}
    (h : insertCell column identity overriding cell = .ok cell') :
    column.Accepts (.value cell') := by
  unfold insertCell at h
  split at h
  · next hd =>
    cases h
    exact .inl hd
  · split at h
    · cases h
      exact .inl rfl
    · split at h
      · cases h
      · split at h
        · cases h
        · exact assign_accepts h

theorem insertCells_accepts {cells cells' : List Expr} {ordinals : List Nat}
    (h : insertCells columns overriding cells ordinals s = .ok cells' t)
    (hlen : cells.length ≤ ordinals.length) :
    List.Forall₂ (AcceptsAt columns) (ordinals.take cells.length) (cells'.map .value) := by
  induction cells generalizing cells' ordinals s with
  | nil =>
    obtain ⟨rfl, -⟩ := pure_ok.1 h
    exact .nil
  | cons cell cells ih =>
    cases ordinals with
    | nil => simp at hlen
    | cons ordinal ordinals =>
      simp only [insertCells, bind_ok, inRange_ok, lift_except_ok, pure_ok] at h
      obtain ⟨column, _, ⟨hcolumn, rfl⟩, cell', _, ⟨hcell, rfl⟩, cells'', _, hcells, rfl, rfl⟩ := h
      exact .cons ⟨column, hcolumn, insertCell_accepts hcell⟩ (ih hcells (by simpa using hlen))

end ColumnPolicy

theorem InsertsRow.storesAt {columns : List Column} {map : ColumnMap} {row : Expr}
    (h : InsertsRow columns map row) :
    List.Forall₂ (StoresAt columns) (map.ordinals.take row.children.length)
      (row.children.map .value) := by
  have hsettled := h.settled
  obtain ⟨-, huntyped⟩ := h.cells
  obtain ⟨hdegree, hrow, -, hinsert⟩ := h
  obtain ⟨-, cells, cells', hk, rfl, -, hfull, hrun⟩ := ColumnPolicy.insertRow_ok hinsert
  obtain ⟨items, hitems, hlen⟩ := Expr.shape_eq_row.1 hrow.shape
  obtain rfl : items = cells := by simpa [hitems] using hk
  have hlength : items.length ≤ map.length := by omega
  have hinserted := hfull hlength
  have haccepts := ColumnPolicy.insertCells_accepts hrun hlength
  rw [hinserted.length_eq] at haccepts
  refine forall₂_imp_mem haccepts fun ordinal _ slot hslot haccepts => haccepts.storesAt ?_
  rintro c' rfl
  have hc' : c' ∈ cells' := by simpa [Expr.children] using hslot
  obtain ⟨c, hc, hinserted⟩ := forall₂_exists_left hinserted hc'
  have hregular := hrow.regular c (by simpa [Expr.children, hitems] using hc)
  exact ⟨(hsettled.children c' hc').node, hinserted.isPlain hregular.node, huntyped c' hc'⟩

/-! ## Arguments -/

theorem Passes.isGiven {parameter : RoutineParameter} {argument : Expr}
    (h : Passes parameter argument) : parameter.IsGiven argument := by
  intro hmode
  obtain ⟨hsettled, huntyped⟩ := h.stored
  obtain ⟨hregular, -, hcheck⟩ := h
  have hshape : argument.shape.isPlain = true ∧
      ∀ t, argument.type? = some t → parameter.type.assignableFrom t = true := by
    unfold Call.checkArgument at hcheck
    dsimp only at hcheck
    split at hcheck
    · cases hcheck
    · split at hcheck
      · next hparameter =>
        cases hcheck
        rw [(Expr.Alike.asColumn ..).shape, Expr.type_asColumn hparameter]
        refine ⟨hregular.node, fun t ht => ?_⟩
        cases ht
        exact SqlType.assignableFrom_self _
      -- an argument without a type is passed as it is
      · split at hcheck
        · next hnone =>
          cases hcheck
          exact ⟨hregular.node, by simp [hnone]⟩
        · next actual hactual =>
          split at hcheck
          · next haccepts =>
            cases hcheck
            refine ⟨hregular.node, fun t ht => ?_⟩
            obtain rfl : actual = t := by simpa [hactual] using ht
            simpa [Call.accepts, hmode] using haccepts
          · cases hcheck
  rw [Expr.Ready.takes_iff ⟨hsettled.node, hshape.1, huntyped⟩]
  exact and_congr_right fun _ => and_iff_left hshape.2

/-! ## Statements -/

namespace Statement

variable {statement : Statement}

/-- What a statement stores in a column is DEFAULT or a single value of a type that the column
accepts, if and only if it is no row; a column that a subquery produces has such a type. What it
passes to a parameter that is read is such a value, if and only if it is neither a row nor DEFAULT. -/
theorem stored_takes_iff {text : String} (h : compile env text s = .ok statement t) :
    (∀ a ∈ statement.assignments, List.Forall₂ (StoresAt statement.columns) a.columnMap.ordinals
      (a.values.flatMap Expr.slots)) ∧
    (∀ x ∈ statement.insertedRows, List.Forall₂ (StoresAt statement.columns)
      (x.1.ordinals.take x.2.children.length) (x.2.children.map .value)) ∧
    ∀ r arguments tables, statement = .call ⟨.routine r arguments, tables⟩ →
      List.Forall₂ RoutineParameter.IsGiven r.parameters arguments := by
  obtain ⟨tokens, u, c, -, hhead, -⟩ := compile_ok h
  refine ⟨fun a ha => (compileHead_assigns hhead a ha).storesAt,
    fun x hx => (compileHead_insertsRow hhead x hx).storesAt, ?_⟩
  rintro r arguments tables rfl
  exact (compileHead_passes hhead).imp fun _ _ hp => hp.isGiven

/-- The rows of a MERGE through two views, and values for single columns and for a group. -/
def mergedCells : String :=
  "MERGE INTO rich_active v USING staging s ON v.id = s.id " ++
    "WHEN MATCHED THEN UPDATE SET (name, balance) = (s.name, ?) " ++
    "WHEN NOT MATCHED THEN INSERT (name, balance) VALUES (DEFAULT, s.balance + 1)"

set_option maxRecDepth 10000 in
theorem stored_takes_iff_merge :
    ∃ statement t, compile .bank mergedCells .initial = .ok statement t ∧
      statement.assignments.length = 1 ∧ statement.insertedRows.length = 1 ∧
      (∀ a ∈ statement.assignments, List.Forall₂ (StoresAt statement.columns) a.columnMap.ordinals
        (a.values.flatMap Expr.slots)) ∧
      (∀ x ∈ statement.insertedRows, List.Forall₂ (StoresAt statement.columns)
        (x.1.ordinals.take x.2.children.length) (x.2.children.map .value)) ∧
      ∀ r arguments tables, statement = .call ⟨.routine r arguments, tables⟩ →
        List.Forall₂ RoutineParameter.IsGiven r.parameters arguments := by
  obtain ⟨statement, t, hcompile, hcheck⟩ := exists_compile .bank mergedCells
    (fun statement => statement.assignments.length = 1 && statement.insertedRows.length = 1)
    (append_eq_ofList (append_eq_ofList rfl rfl) rfl) (by decide +kernel)
  simp only [Bool.and_eq_true, decide_eq_true_eq] at hcheck
  exact ⟨statement, t, hcompile, hcheck.1, hcheck.2, stored_takes_iff hcompile⟩

/-- A row for a single column. -/
def rowInColumn : String :=
  "INSERT INTO t (a) VALUES ((1, 2))"

set_option maxRecDepth 10000 in
/-- A row is inserted into a column. -/
theorem rowInColumn_stored :
    ∃ statement t, compile .bank rowInColumn .initial = .ok statement t ∧
      ∃ x ∈ statement.insertedRows, ∃ e ∈ x.2.children, e.isDefault = false ∧
        ∀ column ∈ statement.columns, ¬ column.type.Takes e := by
  obtain ⟨statement, t, hcompile, hcheck⟩ := exists_compile .bank rowInColumn
    (fun statement => statement.insertedRows.any fun x => x.2.children.any fun e => e.isRow)
    rfl (by decide +kernel)
  obtain ⟨x, hx, hcheck⟩ := List.any_eq_true.1 hcheck
  obtain ⟨e, he, hrow⟩ := List.any_eq_true.1 hcheck
  obtain ⟨length, hshape⟩ := Expr.isRow_iff.1 hrow
  have hd : e.isDefault = false := by
    rw [Bool.eq_false_iff, Ne, Expr.isDefault_iff]
    simp [hshape]
  exact ⟨statement, t, hcompile, x, hx, e, he, hd, fun column _ => by simp [SqlType.Takes, hshape]⟩

end Statement

end DataChange
