import DataChange.Proofs.Statement.Permitted

/-!
# Rows and queries under the same rules

The rules for inserted columns are checked twice over: `insertRows` checks a row cell by cell and
looks the identity up in the whole target, `queryColumns` checks the types that a query brings and
asks each column in turn, the computed ones first. `insertRows_endsAlike` says that the order makes
no difference: a row of typed cells is refused where a query of their types is, for the same cause.
-/

namespace DataChange

/-- Two computations on one state end alike: both succeed or both are refused for the same cause,
maybe at different places, and neither moves the state. -/
inductive EndsAlike {α β σ : Type} (s : σ) :
    EStateM.Result Failure σ α → EStateM.Result Failure σ β → Prop
  | succeeded (a : α) (b : β) : EndsAlike s (.ok a s) (.ok b s)
  | refused {e e' : Error} (cause : e.cause = e'.cause) :
      EndsAlike s (.error (.rejected e) s) (.error (.rejected e') s)

namespace EndsAlike

variable {α β γ δ σ : Type} {s : σ}

theorem bind {x : EStateM Failure σ α} {y : EStateM Failure σ β} {f : α → EStateM Failure σ γ}
    {g : β → EStateM Failure σ δ} (h : EndsAlike s (x s) (y s))
    (hrest : ∀ a b, EndsAlike s (f a s) (g b s)) : EndsAlike s ((x >>= f) s) ((y >>= g) s) := by
  show EndsAlike s (EStateM.bind x f s) (EStateM.bind y g s)
  unfold EStateM.bind
  generalize x s = r at h
  generalize y s = r' at h
  cases h with
  | succeeded a b => exact hrest a b
  | refused cause => exact .refused cause

/-- A step that both take is no difference. -/
theorem step {x : EStateM Failure σ α} {a : α} {f : α → EStateM Failure σ γ}
    {g : α → EStateM Failure σ δ} (h : x s = .ok a s) (hrest : EndsAlike s (f a s) (g a s)) :
    EndsAlike s ((x >>= f) s) ((x >>= g) s) := by
  rwa [bind_run h, bind_run h]

theorem after {x : EStateM Failure σ α} {r : EStateM.Result Failure σ δ} {f : α → γ}
    (h : EndsAlike s (x s) r) :
    EndsAlike s ((x >>= fun a => pure (f a)) s) r := by
  show EndsAlike s (EStateM.bind x _ s) r
  unfold EStateM.bind
  generalize x s = r' at h
  cases h with
  | succeeded a b => exact .succeeded _ b
  | refused cause => exact .refused cause

end EndsAlike

/-- A cell brings a value of a known type. -/
structure Expr.Brings (cell : Expr) (type : SqlType) : Prop where
  given : cell.isDefault = false
  typed : cell.type? = some type

/-- No column is both an identity and computed. -/
def NoComputedIdentity (columns : List Column) : Prop :=
  ∀ column ∈ columns, column.isIdentity = true → column.isGenerated = false

instance (columns : List Column) : Decidable (NoComputedIdentity columns) :=
  inferInstanceAs (Decidable (∀ column ∈ columns, _))

namespace ColumnPolicy

variable {columns : List Column} {column : Column} {overriding : Option OverridingKind}
  {cell : Expr} {type : SqlType} {s : CompilerState}

theorem checkOverriding_endsAlike (columns : List Column) (map : ColumnMap)
    (overriding : Option Overriding) :
    EndsAlike s ((liftM (checkOverriding columns map overriding) : Compiler Unit) s)
      ((liftM (checkOverriding columns map overriding) : Compiler Unit) s) := by
  cases checkOverriding columns map overriding with
  | ok => exact .succeeded _ _
  | error => exact .refused rfl

theorem assign_endsAlike (h : cell.Brings type) (fragment : Fragment) :
    EndsAlike s ((liftM (assign column cell) : Compiler Expr) s)
      ((liftM (if column.type.assignableFrom type then .ok none
        else .error (.clash (.assignment type column.name column.type) fragment) :
          Except Error (Option Nat)) : Compiler (Option Nat)) s) := by
  have htyped : cell.isUntypedParameter = false :=
    Expr.isUntypedParameter_of_type (by rw [h.typed]; rfl)
  simp only [assign, htyped, Bool.false_eq_true, if_false, Expr.checkAssignable, h.typed]
  cases column.type.assignableFrom type with
  | true => exact .succeeded cell none
  | false => exact .refused rfl

/-- The two orders of the rules differ only for a computed column, which is no identity. -/
theorem insertCell_endsAlike (h : cell.Brings type)
    (hapart : column.isIdentity = true → column.isGenerated = false) (ordinal : Nat)
    (fragment : Fragment) :
    EndsAlike s ((liftM (insertCell column column.identity overriding cell) : Compiler Expr) s)
      ((liftM (queryColumn column ordinal overriding type fragment) :
        Compiler (Option Nat)) s) := by
  unfold insertCell queryColumn
  simp only [h.given, Bool.false_eq_true, if_false]
  cases hgenerated : column.isGenerated with
  | true =>
    have hnone : column.identity = none := by
      simpa [Column.isIdentity, hgenerated] using hapart
    simp only [hnone, Column.isIdentity]
    exact .refused rfl
  | false =>
    simp only [Bool.false_eq_true, if_false, Column.isIdentity]
    by_cases huser : column.identity.isSome && overriding = some .user
    · simp only [huser, if_true]
      exact .succeeded _ _
    · by_cases halways : column.identity = some .always && overriding = none
      · simp only [huser, halways, Bool.false_eq_true, if_false, if_true]
        exact .refused rfl
      · simp only [huser, halways, Bool.false_eq_true, if_false]
        exact assign_endsAlike h fragment

/-- The loop over cells ends as the loop over types, whatever the latter has found so far. -/
theorem insertCells_endsAlike (hone : OneIdentity columns) (hapart : NoComputedIdentity columns)
    {cells : List Expr} {types : List SqlType} {ordinals : List Nat} {overridden : Option Nat}
    {fragment : Fragment} (hlength : cells.length = ordinals.length)
    (hwithin : ∀ ordinal ∈ ordinals, ordinal < columns.length)
    (hcells : List.Forall₂ Expr.Brings cells types) :
    EndsAlike s (insertCells columns overriding cells ordinals s)
      (queryColumnsFrom columns overriding fragment overridden ordinals types s) := by
  induction hcells generalizing ordinals overridden with
  | nil =>
    obtain rfl := List.eq_nil_of_length_eq_zero hlength.symm
    exact .succeeded [] overridden
  | @cons cell type cells types hcell hcells ih =>
    cases ordinals with
    | nil => cases hlength
    | cons ordinal ordinals =>
      obtain ⟨hordinal, hwithin⟩ := List.forall_mem_cons.1 hwithin
      have hcolumn := List.getElem?_eq_getElem hordinal
      simp only [insertCells, queryColumnsFrom]
      refine .step (inRange_ok.2 ⟨hcolumn, rfl⟩) ?_
      rw [identityAt_eq hone hcolumn]
      refine .bind (insertCell_endsAlike hcell (hapart _ (List.getElem_mem hordinal)) ordinal _) ?_
      exact fun cell' found => .after (ih (Nat.succ.inj hlength) hwithin)

/-- A row of typed cells passes the rules for inserted rows where its types pass the rules for
inserted queries, and else both are refused for the same cause. -/
theorem insertRows_endsAlike (columns : List Column) (map : ColumnMap)
    (overriding : Option Overriding) (row : Expr) (cells : List Expr) (types : List SqlType)
    (fragment : Fragment) (s : CompilerState) (hone : OneIdentity columns)
    (hapart : NoComputedIdentity columns) (hwithin : ∀ ordinal ∈ map.ordinals, ordinal < columns.length)
    (hkind : row.kind = .row cells) (hlength : cells.length = map.length)
    (hcells : List.Forall₂ Expr.Brings cells types) :
    EndsAlike s (insertRows columns map overriding [row] s)
      (queryColumns columns map types overriding fragment s) := by
  unfold insertRows queryColumns
  refine .bind (checkOverriding_endsAlike columns map overriding) fun _ _ => ?_
  have hcells : EndsAlike s (insertCells columns (overriding.map (·.kind)) cells map.ordinals s)
      (queryColumnsFrom columns (overriding.map (·.kind)) fragment none map.ordinals types s) :=
    insertCells_endsAlike hone hapart hlength hwithin hcells
  simp only [List.mapM_cons, List.mapM_nil, insertRow, hkind, bind_assoc, pure_bind]
  exact hcells.after

/-- A key, a name and what is computed from the name. -/
def labelledColumns : List Column :=
  [Column.withIdentity { name := "id", type := .bigint } .always,
   { name := "name", type := .varchar },
   { name := "label", type := .varchar, generated := some "UPPER(name)" }]

/-- A name, a key that is replaced and a label that may not be given. -/
def labelledCells : List Expr :=
  [⟨.constant (.varchar "a"), .written "'a'" 1 60, some .varchar⟩,
   ⟨.constant (.bigint 1), .written "1" 1 65, some .bigint⟩,
   ⟨.constant (.varchar "A"), .written "'A'" 1 68, some .varchar⟩]

theorem insertRows_endsAlike_labelled :
    OneIdentity labelledColumns ∧ NoComputedIdentity labelledColumns ∧
      List.Forall₂ Expr.Brings labelledCells [.varchar, .bigint, .varchar] ∧
      EndsAlike .initial
        (insertRows labelledColumns ⟨[1, 0, 2]⟩ (some ⟨.user, .absent⟩)
          [.untyped (.row labelledCells) .absent] .initial)
        (queryColumns labelledColumns ⟨[1, 0, 2]⟩ [.varchar, .bigint, .varchar]
          (some ⟨.user, .absent⟩) .absent .initial) := by
  have hone : OneIdentity labelledColumns := by decide
  have hapart : NoComputedIdentity labelledColumns := by decide
  have hcells : List.Forall₂ Expr.Brings labelledCells [.varchar, .bigint, .varchar] :=
    .cons ⟨rfl, rfl⟩ (.cons ⟨rfl, rfl⟩ (.cons ⟨rfl, rfl⟩ .nil))
  exact ⟨hone, hapart, hcells, insertRows_endsAlike labelledColumns ⟨[1, 0, 2]⟩
    (some ⟨.user, .absent⟩) (.untyped (.row labelledCells) .absent) labelledCells
    [.varchar, .bigint, .varchar] .absent .initial hone hapart (by decide) rfl rfl hcells⟩

end ColumnPolicy

end DataChange
