import DataChange.Proofs.Expr.Typed
import DataChange.Proofs.Runs
import DataChange.Statement.Insert

/-!
# Values under the rules for columns

The rules for columns change little: a parameter without a type takes that of its column, and the
value of an identity column that is overridden becomes DEFAULT. Everything else about a value
stays, and no parameter in a cell of its own is left without a type.
-/

namespace DataChange

namespace Expr

/-- A cell assigned to a column: the same, unless it was a parameter without a type. -/
def Assigned (e e' : Expr) : Prop :=
  e'.isUntypedParameter = false ∧ (e' = e ∨ ∃ t w, e' = e.asColumn t w)

/-- A value assigned to one column, or a row assigned to several. -/
inductive AssignedValue : Expr → Expr → Prop
  | cell {e e' : Expr} (hk : ∀ items, e.kind ≠ .row items) (h : Assigned e e') : AssignedValue e e'
  | query {e : Expr} {degree : Nat} {plan : Plan} (hk : e.kind = .query (.row degree) plan) :
      AssignedValue e e
  | row {items items' : List Expr} {fragment : Fragment} {type : Option SqlType}
      (h : List.Forall₂ Assigned items items') :
      AssignedValue ⟨.row items, fragment, type⟩ ⟨.row items', fragment, type⟩

/-- A cell of an inserted row, which may have been made DEFAULT. -/
def Inserted (e e' : Expr) : Prop :=
  Assigned e e' ∨ e' = .untyped .defaultMarker e.fragment

theorem Assigned.refl {e : Expr} (h : e.isUntypedParameter = false) : Assigned e e :=
  ⟨h, .inl rfl⟩

end Expr

namespace ColumnPolicy

variable {column : Column} {columns : List Column} {cell cell' : Expr}

theorem assign_ok (h : assign column cell = .ok cell') : cell.Assigned cell' := by
  unfold assign at h
  dsimp only at h
  split at h
  · cases h
    split
    · exact ⟨Expr.isUntypedParameter_asColumn .., .inr ⟨_, _, rfl⟩⟩
    · rename_i hu
      exact .refl (by simpa using hu)
  · cases h

theorem isUntypedParameter_of_isDefault (h : cell.isDefault = true) :
    cell.isUntypedParameter = false := by
  obtain ⟨kind, fragment, type⟩ := cell
  cases kind <;> first | rfl | cases h

theorem updateCell_ok (h : updateCell column cell = .ok cell') : cell.Assigned cell' := by
  unfold updateCell at h
  split at h
  · cases h
  · split at h
    · rename_i hd
      cases h
      exact .refl (isUntypedParameter_of_isDefault hd)
    · exact assign_ok h

theorem insertCell_ok {identity : Option Identity} {overriding : Option OverridingKind}
    (h : insertCell column identity overriding cell = .ok cell') : cell.Inserted cell' := by
  unfold insertCell at h
  split at h
  · rename_i hd
    cases h
    exact .inl (.refl (isUntypedParameter_of_isDefault hd))
  · split at h
    · cases h
      exact .inr rfl
    · split at h
      · cases h
      · split at h
        · cases h
        · exact .inl (assign_ok h)

/-! ## Assigned values -/

variable {s t : CompilerState}

theorem nextSlot_ok {slots slots' : List Nat} :
    nextSlot columns slots s = .ok (column, slots') t ↔
      ∃ ordinal, slots = ordinal :: slots' ∧ columns[ordinal]? = some column ∧ s = t := by
  cases slots with
  | nil => simp [nextSlot, throw_ok]
  | cons ordinal slots =>
    simp only [nextSlot, bind_ok, inRange_ok, pure_ok, Prod.mk.injEq, List.cons.injEq]
    constructor
    · rintro ⟨_, _, ⟨hc, rfl⟩, ⟨rfl, rfl⟩, rfl⟩
      exact ⟨ordinal, ⟨rfl, rfl⟩, hc, rfl⟩
    · rintro ⟨_, ⟨rfl, rfl⟩, hc, rfl⟩
      exact ⟨column, s, ⟨hc, rfl⟩, ⟨rfl, rfl⟩, rfl⟩

theorem updateItems_ok {items items' : List Expr} {slots slots' : List Nat}
    (h : updateItems columns items slots s = .ok (items', slots') t) :
    List.Forall₂ Expr.Assigned items items' ∧ s = t := by
  induction items generalizing items' slots slots' s with
  | nil =>
    simp only [updateItems, pure_ok, Prod.mk.injEq] at h
    obtain ⟨⟨rfl, -⟩, rfl⟩ := h
    exact ⟨.nil, rfl⟩
  | cons item items ih =>
    simp only [updateItems, bind_ok, lift_except_ok, pure_ok, Prod.exists, Prod.mk.injEq] at h
    obtain ⟨column, rest, u, hslot, item', _, ⟨hcell, rfl⟩, items'', slots'', _, hitems, ⟨rfl, -⟩,
      rfl⟩ := h
    obtain ⟨_, -, -, rfl⟩ := nextSlot_ok.1 hslot
    obtain ⟨hall, rfl⟩ := ih hitems
    exact ⟨.cons (updateCell_ok hcell) hall, rfl⟩

theorem updateProducedList_ok {fragment : Fragment} {types : List SqlType} {slots slots' : List Nat}
    (h : updateProducedList columns fragment types slots s = .ok slots' t) : s = t := by
  induction types generalizing slots s with
  | nil =>
    obtain ⟨-, rfl⟩ := pure_ok.1 h
    rfl
  | cons type types ih =>
    simp only [updateProducedList, bind_ok, lift_except_ok, Prod.exists] at h
    obtain ⟨column, rest, u, hslot, _, _, ⟨-, rfl⟩, h⟩ := h
    obtain ⟨_, -, -, rfl⟩ := nextSlot_ok.1 hslot
    exact ih h

theorem updateValue_ok {value value' : Expr} {slots slots' : List Nat}
    (h : updateValue columns value slots s = .ok (value', slots') t) :
    value.AssignedValue value' ∧ s = t := by
  obtain ⟨kind, fragment, type⟩ := value
  -- a value that is no row takes one slot, whatever its kind is
  have hcell : (∀ items, kind ≠ .row items) →
      (do let slot ← nextSlot columns slots
          return (← updateCell slot.1 ⟨kind, fragment, type⟩, slot.2) : Compiler (Expr × List Nat)) s
        = .ok (value', slots') t →
      Expr.AssignedValue ⟨kind, fragment, type⟩ value' ∧ s = t := by
    intro hk h
    simp only [bind_ok, lift_except_ok, pure_ok, Prod.exists, Prod.mk.injEq] at h
    obtain ⟨column, rest, u, hslot, item', _, ⟨hc, rfl⟩, ⟨rfl, -⟩, rfl⟩ := h
    obtain ⟨_, -, -, rfl⟩ := nextSlot_ok.1 hslot
    exact ⟨.cell hk (updateCell_ok hc), rfl⟩
  cases kind with
  | row items =>
    simp only [updateValue, bind_ok, pure_ok, Prod.exists, Prod.mk.injEq] at h
    obtain ⟨items', rest, _, hitems, ⟨rfl, -⟩, rfl⟩ := h
    obtain ⟨hall, rfl⟩ := updateItems_ok hitems
    exact ⟨.row hall, rfl⟩
  | query shape plan =>
    cases shape with
    | scalar => exact hcell (by simp) h
    | row degree =>
      simp only [updateValue, bind_ok, pure_ok, Prod.mk.injEq] at h
      obtain ⟨rest, _, hlist, ⟨rfl, -⟩, rfl⟩ := h
      obtain rfl := updateProducedList_ok hlist
      exact ⟨.query rfl, rfl⟩
  | _ => exact hcell (by simp) h

theorem updateValuesFrom_ok {values values' : List Expr} {slots : List Nat}
    (h : updateValuesFrom columns values slots s = .ok values' t) :
    List.Forall₂ Expr.AssignedValue values values' ∧ s = t := by
  induction values generalizing values' slots s with
  | nil =>
    obtain ⟨rfl, rfl⟩ := pure_ok.1 h
    exact ⟨.nil, rfl⟩
  | cons value values ih =>
    simp only [updateValuesFrom, bind_ok, pure_ok, Prod.exists] at h
    obtain ⟨value', rest, u, hvalue, values'', _, hvalues, rfl, rfl⟩ := h
    obtain ⟨hv, rfl⟩ := updateValue_ok hvalue
    obtain ⟨hvs, rfl⟩ := ih hvalues
    exact ⟨.cons hv hvs, rfl⟩

end ColumnPolicy

theorem ViewTarget.assign_ok {target : ViewTarget} {map : ColumnMap} {values : List Expr}
    {a : Assignments} {s t : CompilerState} (h : target.assign map values s = .ok a t) :
    List.Forall₂ Expr.AssignedValue values a.values ∧ s = t := by
  simp only [ViewTarget.assign, ViewTarget.project, ViewTarget.checkList, bind_ok, inRange_ok,
    pure_ok, ColumnPolicy.updateValues] at h
  obtain ⟨map', _, ⟨-, rfl⟩, values', _, hvalues, checks, _, ⟨-, rfl⟩, rfl, rfl⟩ := h
  exact ColumnPolicy.updateValuesFrom_ok hvalues

namespace ColumnPolicy

/-! ## Inserted rows -/

variable {columns : List Column} {overriding : Option OverridingKind} {s t : CompilerState}

/-- Cells of an inserted row; cells without a column stay as they are. -/
theorem insertCells_ok {cells cells' : List Expr} {ordinals : List Nat}
    (h : insertCells columns overriding cells ordinals s = .ok cells' t) :
    s = t ∧ List.Forall₂ (fun c c' => c.Inserted c' ∨ c' = c) cells cells' ∧
      (cells.length ≤ ordinals.length → List.Forall₂ Expr.Inserted cells cells') := by
  induction cells generalizing cells' ordinals s with
  | nil =>
    obtain ⟨rfl, rfl⟩ := pure_ok.1 h
    exact ⟨rfl, .nil, fun _ => .nil⟩
  | cons cell cells ih =>
    cases ordinals with
    | nil =>
      obtain ⟨rfl, rfl⟩ := pure_ok.1 h
      exact ⟨rfl, List.forall₂_same.2 fun _ _ => .inr rfl, fun h => by simp at h⟩
    | cons ordinal ordinals =>
      simp only [insertCells, bind_ok, inRange_ok, lift_except_ok, pure_ok] at h
      obtain ⟨column, _, ⟨-, rfl⟩, cell', _, ⟨hcell, rfl⟩, cells'', _, hcells, rfl, rfl⟩ := h
      obtain ⟨rfl, hall, hfull⟩ := ih hcells
      have hc := insertCell_ok hcell
      exact ⟨rfl, .cons (.inl hc) hall, fun hlen => .cons hc (hfull (by simpa using hlen))⟩

theorem insertRow_ok {map : ColumnMap} {row row' : Expr}
    (h : insertRow columns map overriding row s = .ok row' t) :
    s = t ∧ ∃ cells cells', row.kind = .row cells ∧ row' = { row with kind := .row cells' } ∧
      List.Forall₂ (fun c c' => c.Inserted c' ∨ c' = c) cells cells' ∧
      (cells.length ≤ map.length → List.Forall₂ Expr.Inserted cells cells') ∧
      insertCells columns overriding cells map.ordinals s = .ok cells' t := by
  obtain ⟨m, hm, h⟩ := run_eq h
  unfold insertRow at hm
  split at hm
  · rename_i cells hk
    subst hm
    simp only [bind_ok, pure_ok] at h
    obtain ⟨cells', _, hcells, rfl, rfl⟩ := h
    obtain ⟨rfl, hall, hfull⟩ := insertCells_ok hcells
    exact ⟨rfl, cells, cells', hk, rfl, hall, hfull, hcells⟩
  · subst hm
    exact (reject_ok.1 h).elim

end ColumnPolicy

end DataChange
