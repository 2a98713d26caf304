import DataChange.Proofs.Expr.Grammar
import DataChange.Proofs.Expr.Bound
import DataChange.Proofs.Query.Runs
import DataChange.Proofs.SqlType

/-!
# The columns of VALUES

The type of a column is joined from those of its cells, row by row. A joined type absorbs the types
it was joined from, so that it accepts them (`SqlType.Absorbs`). After all rows every cell is
absorbed by the type of its column, whatever came after it (`addRows_joins`).
-/

namespace DataChange

namespace Query

variable {env : Environment} {compile : QueryCompiler} {outer : List RangeGroup}
  {expected : Expectation} {s t : CompilerState}

/-! ## Joining types -/

/-- A cell that the type of its column absorbs, as far as it has a type. -/
structure Joins (type : Option SqlType) (cell : Expr) : Prop where
  value : cell.isDefault = false
  type : ∀ t, cell.type? = some t → ∃ wide, type = some wide ∧ wide.Absorbs t

theorem joinCell_joins {type type' : Option SqlType} {cell : Expr}
    (h : joinCell type cell = .ok type') :
    Joins type' cell ∧ ∀ other, Joins type other → Joins type' other := by
  unfold joinCell at h
  split at h
  · cases h
  · next hd =>
    have hd : cell.isDefault = false := by simpa using hd
    split at h
    · next hnone =>
      cases h
      exact ⟨⟨hd, by simp [hnone]⟩, fun _ h => h⟩
    · next t ht =>
      cases h
      refine ⟨⟨hd, fun u hu => ⟨t, rfl, ?_⟩⟩, fun other ho => ⟨ho.value, fun u hu => ?_⟩⟩
      · obtain rfl : t = u := by simpa [ht] using hu
        exact SqlType.promote_self t
      · obtain ⟨_, hnone, -⟩ := ho.type u hu
        cases hnone
    · next current t ht =>
      split at h
      · next joined hj =>
        cases h
        obtain ⟨hcurrent, hcell⟩ := SqlType.promote_absorbs hj
        refine ⟨⟨hd, fun u hu => ⟨joined, rfl, ?_⟩⟩, fun other ho => ⟨ho.value, fun u hu => ?_⟩⟩
        · obtain rfl : t = u := by simpa [ht] using hu
          exact hcell
        · obtain ⟨wide, hwide, habsorbs⟩ := ho.type u hu
          cases hwide
          exact ⟨joined, rfl, hcurrent.trans habsorbs⟩
      · cases h

theorem joinRow_joins {types types' : List (Option SqlType)} {cells : List Expr}
    (h : joinRow types cells s = .ok types' t) (hlen : cells.length = types.length) :
    List.Forall₂ Joins types' cells ∧
      ∀ others, List.Forall₂ Joins types others → List.Forall₂ Joins types' others := by
  induction types generalizing cells types' with
  | nil =>
    obtain rfl := List.length_eq_zero_iff.1 hlen
    obtain ⟨rfl, -⟩ := pure_ok.1 h
    exact ⟨.nil, fun _ h => h⟩
  | cons type types ih =>
    obtain ⟨cell, cells, rfl⟩ := List.exists_cons_of_length_eq_add_one hlen
    simp only [joinRow, bind_ok, lift_except_ok, pure_ok] at h
    obtain ⟨type', _, ⟨hcell, rfl⟩, types', _, htypes, rfl, rfl⟩ := h
    obtain ⟨hjoins, hothers⟩ := joinCell_joins hcell
    obtain ⟨hrest, hrests⟩ := ih htypes (by simpa using hlen)
    refine ⟨.cons hjoins hrest, fun others ho => ?_⟩
    cases ho with
    | cons ho hos => exact .cons (hothers _ ho) (hrests _ hos)

/-- What a value that is not a row in itself is turned into. -/
theorem shape_asRow {row : Expr} (h : row.Plain) : (asRow row).shape = .row row.degree := by
  unfold asRow
  split
  · next hrow =>
    obtain ⟨length, hlength⟩ := Expr.isRow_iff.1 hrow
    simp [Expr.degree_eq, hlength, Shape.degree]
  · next hrow =>
    have hplain := h.regular.node
    have hrow : ¬ ∃ length, row.shape = .row length := by rwa [← Expr.isRow_iff]
    rw [Expr.degree_eq]
    cases hs : row.shape <;> simp_all [Expr.shape, Expr.untyped, Shape.degree, Shape.isPlain]

/-- The rows of VALUES: each has a cell for each column, which the type of the column absorbs. -/
def RowsJoin (joined : List (Option SqlType)) (rows : List Expr) : Prop :=
  ∀ row ∈ rows, ∃ cells, row.kind = .row cells ∧ List.Forall₂ Joins joined cells

theorem addRow_joins {degree : Nat} {joined joined' : List (Option SqlType)} {sofar rows : List Expr}
    {row : Expr} (hplain : row.Plain) (hlen : joined.length = degree)
    (h : addRow compile outer degree (joined, sofar) row s = .ok (joined', rows) t)
    (hsofar : RowsJoin joined sofar) : RowsJoin joined' rows ∧ joined'.length = degree := by
  obtain ⟨hdegree, row', hrow, hjoin, rfl⟩ := addRow_ok h
  have hshape := (Expr.resolveWith_alike hrow).shape.trans (shape_asRow hplain)
  obtain ⟨cells, hk, hcells⟩ := Expr.shape_eq_row.1 hshape
  rw [hdegree] at hcells
  have hchildren : row'.children = cells := by simp [Expr.children, hk]
  rw [hchildren] at hjoin
  obtain ⟨hjoins, hothers⟩ := joinRow_joins hjoin (hcells.trans hlen.symm)
  refine ⟨fun r hr => ?_, hjoins.length_eq.trans hcells⟩
  rcases List.mem_append.1 hr with hr | hr
  · obtain ⟨others, hk', ho⟩ := hsofar r hr
    exact ⟨others, hk', hothers others ho⟩
  · obtain rfl := List.mem_singleton.1 hr
    exact ⟨cells, hk, hjoins⟩

theorem addRows_joins {degree : Nat} {rows rows' sofar : List Expr}
    {joined joined' : List (Option SqlType)} (hplain : ∀ row ∈ rows, row.Plain)
    (hlen : joined.length = degree)
    (h : rows.foldlM (addRow compile outer degree) (joined, sofar) s = .ok (joined', rows') t)
    (hsofar : RowsJoin joined sofar) : RowsJoin joined' rows' ∧ joined'.length = degree :=
  foldlM_induct (fun so => RowsJoin so.1 so.2 ∧ so.1.length = degree)
    (fun row hrow _ _ _ _ hso hadd => addRow_joins (hplain row hrow) hso.2 hadd hso.1) h ⟨hsofar, hlen⟩

/-! ## The types of the columns -/

/-- The type of a column: the expected one, or else that of its cells. -/
theorem columnTypes_ok {fragment : Fragment} {index : Nat} {joined : List (Option SqlType)}
    {types : List SqlType} (h : columnTypes expected fragment index joined = .ok types) :
    types.length = joined.length ∧ ∀ i type, types[i]? = some type →
      (expectedType? expected (index + i)).or (joined[i]?.join) = some type := by
  induction joined generalizing index types with
  | nil =>
    cases h
    simp
  | cons first joined ih =>
    unfold columnTypes at h
    split at h
    · cases h
    · next t ht =>
      split at h
      · next ts hts =>
        cases h
        obtain ⟨hlen, hget⟩ := ih hts
        refine ⟨by simp [hlen], fun i type hi => ?_⟩
        cases i with
        | zero => simpa [ht] using hi
        -- the index grows as the list of types gets shorter
        | succ i =>
          have := hget i type (by simpa using hi)
          rw [Nat.add_assoc, Nat.add_comm 1 i] at this
          simpa using this
      · cases h

theorem settleRow_eq {row : Expr} {cells : List Expr} (hk : row.kind = .row cells)
    (types : List SqlType) :
    settleRow types row = { row with kind := .row (cells.zipWith settleCell types) } := by
  unfold settleRow
  rw [hk]

theorem isUntypedParameter_settleCell (cell : Expr) (type : SqlType) :
    (settleCell cell type).isUntypedParameter = false := by
  unfold settleCell
  split
  · exact Expr.isUntypedParameter_asColumn ..
  · next h => simpa using h

/-- No cell is left without a type if its column has one. -/
theorem settleRow_settled {row : Expr} {cells : List Expr} (hk : row.kind = .row cells)
    (types : List SqlType) : (settleRow types row).isRow = true ∧
      ∀ c ∈ (settleRow types row).children, c.isUntypedParameter = false := by
  rw [settleRow_eq hk]
  refine ⟨rfl, fun c hc => ?_⟩
  simp only [Expr.children, ← List.map_uncurry_zip_eq_zipWith] at hc
  obtain ⟨x, -, rfl⟩ := List.mem_map.1 hc
  exact isUntypedParameter_settleCell x.1 x.2

end Query

end DataChange
