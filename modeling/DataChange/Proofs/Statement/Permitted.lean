import DataChange.Proofs.Statement.Slots

/-!
# What a statement may write to its columns

The rules for computed and identity columns, as they are kept by every statement that compiles. An
assignment never reaches a computed column, and an identity that is always generated only with
DEFAULT (`assignments_writable`). What an insertion may bring depends on the OVERRIDING clause
(`insertions_permitted`), for rows cell by cell, for a query column by column.
-/

namespace DataChange

/-! ## Assignments -/

/-- A slot may be written to a column. -/
structure Column.Writable (column : Column) (slot : Slot) : Prop where
  computed : column.isGenerated = false
  identity : column.identity = some .always → ∃ e, slot = .value e ∧ e.isDefault = true

namespace ColumnPolicy

variable {column : Column}

theorem checkTarget_ok {isDefault : Bool} {fragment : Fragment}
    (h : checkTarget column isDefault fragment = .ok ()) :
    column.isGenerated = false ∧ (column.identity = some .always → isDefault = true) := by
  unfold checkTarget at h
  split at h
  · cases h
  · next hgenerated =>
    split at h
    · cases h
    · next hidentity => exact ⟨by simpa using hgenerated, by simpa using hidentity⟩

theorem receives_writable {slot : Slot} (h : column.Receives slot) : column.Writable slot := by
  cases h with
  | @value cell cell' h =>
    unfold updateCell at h
    split at h
    · cases h
    · next htarget =>
      obtain ⟨hgenerated, hidentity⟩ := checkTarget_ok htarget
      refine ⟨hgenerated, fun halways => ⟨cell', rfl, ?_⟩⟩
      have hdefault := hidentity halways
      obtain rfl : cell = cell' := by simpa [hdefault] using h
      exact hdefault
  | @produced type fragment h =>
    unfold updateProduced at h
    split at h
    · cases h
    · next htarget =>
      obtain ⟨hgenerated, hidentity⟩ := checkTarget_ok htarget
      exact ⟨hgenerated, fun halways => absurd (hidentity halways) Bool.false_ne_true⟩

end ColumnPolicy

namespace Statement

variable {env : Environment} {s t : CompilerState} {statement : Statement}

/-- In a statement that compiles, no SET clause writes to a computed column, and where it writes to
an identity that is always generated, it writes DEFAULT. -/
theorem assignments_writable {text : String} (h : compile env text s = .ok statement t)
    (a : Assignments) (ha : a ∈ statement.assignments) :
    List.Forall₂ (fun ordinal slot => ∃ column, statement.columns[ordinal]? = some column ∧
      column.Writable slot) a.columnMap.ordinals (a.values.flatMap Expr.slots) := by
  obtain ⟨tokens, u, c, -, hhead, -⟩ := compile_ok h
  have hreceives := (compileHead_assigns hhead a ha).linedUp.receives
  exact hreceives.imp fun _ _ ⟨column, hcolumn, hslot⟩ =>
    ⟨column, hcolumn, ColumnPolicy.receives_writable hslot⟩

/-- A row whose second item goes to an identity that is always generated, two views below. -/
def defaultIdentity : String :=
  "UPDATE rich_active SET (name, id) = (?, DEFAULT), balance = 0"

set_option maxRecDepth 10000 in
theorem assignments_writable_views :
    ∃ statement t a, compile .bank defaultIdentity .initial = .ok statement t ∧
      a ∈ statement.assignments ∧ a.columnMap.ordinals = [1, 0, 2] ∧
      (statement.columns[0]?.bind Column.identity) = some .always ∧
      List.Forall₂ (fun ordinal slot => ∃ column, statement.columns[ordinal]? = some column ∧
        column.Writable slot) a.columnMap.ordinals (a.values.flatMap Expr.slots) := by
  obtain ⟨statement, t, hcompile, hcheck⟩ := exists_compile .bank defaultIdentity
    (fun statement => statement.assignments.any (·.columnMap.ordinals = [1, 0, 2]) &&
      (statement.columns[0]?.bind Column.identity) == some .always) rfl (by decide +kernel)
  obtain ⟨hmap, hidentity⟩ := Bool.and_eq_true_iff.1 hcheck
  obtain ⟨a, ha, hmap⟩ := List.any_eq_true.1 hmap
  exact ⟨statement, t, a, hcompile, ha, of_decide_eq_true hmap, by simpa using hidentity,
    assignments_writable hcompile a ha⟩

end Statement

/-! ## Insertions -/

/-- At most one column is an identity. -/
def OneIdentity (columns : List Column) : Prop :=
  columns.countP Column.isIdentity ≤ 1

instance (columns : List Column) : Decidable (OneIdentity columns) :=
  inferInstanceAs (Decidable (columns.countP Column.isIdentity ≤ 1))

/-- The column at an ordinal is an identity. -/
def IdentityAt (columns : List Column) (ordinal : Nat) : Prop :=
  ∃ column, columns[ordinal]? = some column ∧ column.isIdentity = true

theorem OneIdentity.unique {columns : List Column} (hone : OneIdentity columns) {i j : Nat}
    (hi : IdentityAt columns i) (hj : IdentityAt columns j) : i = j := by
  unfold OneIdentity at hone
  induction columns generalizing i j with
  | nil => obtain ⟨_, hi, -⟩ := hi; simp at hi
  | cons column columns ih =>
    -- an identity further on leaves none for the head
    have htail : ∀ {k : Nat}, IdentityAt columns k → 0 < columns.countP Column.isIdentity :=
      fun ⟨c, hc, hidentity⟩ => List.countP_pos_iff.2 ⟨c, List.mem_of_getElem? hc, hidentity⟩
    have hhead : IdentityAt (column :: columns) 0 → column.isIdentity = true := by
      rintro ⟨c, hc, hidentity⟩
      obtain rfl : column = c := by simpa using hc
      exact hidentity
    rw [List.countP_cons] at hone
    cases i with
    | zero =>
      cases j with
      | zero => rfl
      | succ j =>
        have hpos := htail (k := j) hj
        rw [if_pos (hhead hi)] at hone
        omega
    | succ i =>
      cases j with
      | zero =>
        have hpos := htail (k := i) hi
        rw [if_pos (hhead hj)] at hone
        omega
      | succ j => exact congrArg Nat.succ (ih (by omega) hi hj)

/-- What becomes of a cell of a row that is inserted. -/
structure Column.Permits (column : Column) (overriding : Option OverridingKind)
    (cell cell' : Expr) : Prop where
  computed : column.isGenerated = true → cell'.isDefault = true
  always : column.identity = some .always → overriding ≠ some .system → cell'.isDefault = true
  user : column.isIdentity = true → overriding = some .user → cell'.isDefault = true
  kept : ¬(column.isIdentity = true ∧ overriding = some .user) →
    cell' = cell ∨ cell.isUntypedParameter = true ∧ cell' = cell.asColumn column.type false

namespace ColumnPolicy

variable {columns : List Column} {column : Column}

theorem identityOf_some {identity : Nat × Identity} (h : identityOf columns = some identity) :
    ∃ column, columns[identity.1]? = some column ∧ column.identity = some identity.2 := by
  obtain ⟨⟨column, i⟩, hmem, hfound⟩ := List.exists_of_findSome?_eq_some h
  obtain ⟨g, hg, rfl⟩ := Option.map_eq_some_iff.1 hfound
  exact ⟨column, List.mk_mem_zipIdx_iff_getElem?.1 hmem, hg⟩

theorem identityOf_none (h : identityOf columns = none) {i : Nat}
    (hcolumn : columns[i]? = some column) : column.identity = none := by
  have hnone := List.findSome?_eq_none_iff.1 h (column, i)
    (List.mk_mem_zipIdx_iff_getElem?.2 hcolumn)
  simpa using hnone

/-- The rules look for the first identity, which is the one at its ordinal if there is one only. -/
theorem identityAt_eq (hone : OneIdentity columns) {ordinal : Nat}
    (hcolumn : columns[ordinal]? = some column) : identityAt columns ordinal = column.identity := by
  unfold identityAt
  cases hfound : identityOf columns with
  | none => exact (identityOf_none hfound hcolumn).symm
  | some identity =>
    obtain ⟨first, hfirst, hidentity⟩ := identityOf_some hfound
    simp only [Option.bind_some]
    split
    · next heq =>
      obtain rfl : first = column := Option.some.inj (hfirst.symm.trans (heq ▸ hcolumn))
      exact hidentity.symm
    · next hne =>
      cases hcell : column.identity with
      | none => rfl
      | some generation =>
        have h₁ : IdentityAt columns identity.1 :=
          ⟨first, hfirst, by simp [Column.isIdentity, hidentity]⟩
        have h₂ : IdentityAt columns ordinal :=
          ⟨column, hcolumn, by simp [Column.isIdentity, hcell]⟩
        exact absurd (hone.unique h₁ h₂) hne

theorem checkOverriding_ok {map : ColumnMap} {overriding : Option Overriding}
    (h : checkOverriding columns map overriding = .ok ()) (hthere : overriding.isSome = true) :
    ∃ ordinal ∈ map.ordinals, IdentityAt columns ordinal := by
  obtain ⟨clause, rfl⟩ := Option.isSome_iff_exists.1 hthere
  simp only [checkOverriding] at h
  split at h
  · next hany =>
    obtain ⟨identity, hfound, hcontains⟩ := (Option.any_eq_true ..).1 hany
    obtain ⟨column, hcolumn, hidentity⟩ := identityOf_some hfound
    exact ⟨identity.1, by simpa [ColumnMap.contains] using hcontains, column, hcolumn,
      by simp [Column.isIdentity, hidentity]⟩
  · cases h

theorem insertCell_permits {overriding : Option OverridingKind} {cell cell' : Expr}
    (h : insertCell column column.identity overriding cell = .ok cell') :
    column.Permits overriding cell cell' := by
  unfold insertCell at h
  split at h
  · next hdefault =>
    obtain rfl := Except.ok.inj h
    exact ⟨fun _ => hdefault, fun _ _ => hdefault, fun _ _ => hdefault, fun _ => .inl rfl⟩
  · split at h
    · next huser =>
      obtain rfl := Except.ok.inj h
      obtain ⟨hidentity, huser⟩ := Bool.and_eq_true_iff.1 huser
      exact ⟨fun _ => rfl, fun _ _ => rfl, fun _ _ => rfl,
        fun hkept => absurd ⟨hidentity, of_decide_eq_true huser⟩ hkept⟩
    · next huser =>
      -- the cell is neither DEFAULT nor overridden, so it is assigned if the column permits it
      split at h
      · cases h
      · next halways =>
        split at h
        · cases h
        · next hgenerated =>
          simp only [Bool.and_eq_true, decide_eq_true_eq, not_and] at huser halways
          refine ⟨fun hg => absurd hg hgenerated, fun ha hsystem => ?_,
            fun hi hu => absurd hu (huser hi), fun _ => ?_⟩
          · have hidentity : column.identity.isSome = true := by simp [ha]
            cases overriding with
            | none => exact absurd rfl (halways ha)
            | some kind =>
              cases kind with
              | user => exact absurd rfl (huser hidentity)
              | system => exact absurd rfl hsystem
          · unfold assign at h
            dsimp only at h
            split at h
            · obtain rfl := Except.ok.inj h
              split
              · next hparameter => exact .inr ⟨hparameter, rfl⟩
              · exact .inl rfl
            · cases h

/-- What becomes of the cells of a row, each permitted by its column. -/
def PermitsAt (columns : List Column) (overriding : Option OverridingKind) (ordinal : Nat)
    (cell : Expr × Expr) : Prop :=
  ∃ column, columns[ordinal]? = some column ∧ column.Permits overriding cell.1 cell.2

theorem insertCells_permits (hone : OneIdentity columns) {overriding : Option OverridingKind}
    {cells cells' : List Expr} {ordinals : List Nat} {s t : CompilerState}
    (hlength : cells.length ≤ ordinals.length)
    (h : insertCells columns overriding cells ordinals s = .ok cells' t) :
    cells'.length = cells.length ∧ List.Forall₂ (PermitsAt columns overriding)
      (ordinals.take cells.length) (cells.zip cells') := by
  induction cells generalizing cells' ordinals s with
  | nil =>
    obtain ⟨rfl, -⟩ := pure_ok.1 h
    exact ⟨rfl, .nil⟩
  | cons cell cells ih =>
    cases ordinals with
    | nil => simp at hlength
    | cons ordinal ordinals =>
      simp only [insertCells, bind_ok, inRange_ok, lift_except_ok, pure_ok] at h
      obtain ⟨column, _, ⟨hcolumn, rfl⟩, cell', _, ⟨hcell, rfl⟩, cells'', _, hcells, rfl, rfl⟩ := h
      rw [identityAt_eq hone hcolumn] at hcell
      obtain ⟨hsame, hrest⟩ := ih (by simpa using hlength) hcells
      exact ⟨congrArg Nat.succ hsame, .cons ⟨column, hcolumn, insertCell_permits hcell⟩ hrest⟩

/-- What becomes of a row: nothing but its cells changes. -/
inductive PermitsRow (columns : List Column) (map : ColumnMap)
    (overriding : Option OverridingKind) (row : Expr) : Expr → Prop
  | intro {cells cells' : List Expr} (hkind : row.kind = .row cells)
      (hlength : cells'.length = cells.length)
      (hcells : List.Forall₂ (PermitsAt columns overriding) (map.ordinals.take cells.length)
        (cells.zip cells')) :
      PermitsRow columns map overriding row { row with kind := .row cells' }

theorem insertRow_permits (hone : OneIdentity columns) {map : ColumnMap}
    {overriding : Option OverridingKind} {row row' : Expr} {degree : Nat} {s t : CompilerState}
    (hrow : Rows.IsRow degree row) (hdegree : degree ≤ map.length)
    (h : insertRow columns map overriding row s = .ok row' t) :
    PermitsRow columns map overriding row row' := by
  obtain ⟨-, cells, cells', hkind, rfl, -, -, hcells⟩ := insertRow_ok h
  obtain ⟨items, hitems, rfl⟩ := Expr.shape_eq_row.1 hrow.shape
  obtain rfl : items = cells := by simpa [hitems] using hkind
  obtain ⟨hsame, hpermits⟩ := insertCells_permits hone hdegree hcells
  exact .intro hkind hsame hpermits

/-- A column of the target of a query. -/
structure PermitsQuery (column : Column) (overriding : Option OverridingKind) : Prop where
  computed : column.isGenerated = false
  always : column.identity = some .always → overriding.isSome = true

theorem queryColumn_permits {overriding : Option OverridingKind} {ordinal : Nat}
    {produced : SqlType} {fragment : Fragment} {found : Option Nat}
    (h : queryColumn column ordinal overriding produced fragment = .ok found) :
    PermitsQuery column overriding ∧
      found = if column.isIdentity && overriding = some .user then some ordinal else none := by
  unfold queryColumn at h
  split at h
  · cases h
  · next hgenerated =>
    have hgenerated : column.isGenerated = false := by simpa using hgenerated
    split at h
    · next huser =>
      obtain ⟨-, hkind⟩ := Bool.and_eq_true_iff.1 huser
      obtain rfl := Except.ok.inj h
      exact ⟨⟨hgenerated, fun _ => by rw [of_decide_eq_true hkind]; rfl⟩, by rw [if_pos huser]⟩
    · next huser =>
      split at h
      · cases h
      -- the overridden ordinal is found only under OVERRIDING USER VALUE
      · next halways =>
        have hnone : found = none := by
          split at h
          · exact (Except.ok.inj h).symm
          · cases h
        refine ⟨⟨hgenerated, fun ha => ?_⟩, by rw [hnone, if_neg huser]⟩
        simp only [Bool.and_eq_true, decide_eq_true_eq, not_and] at halways
        exact Option.isSome_iff_ne_none.2 (halways ha)

theorem queryColumnsFrom_permits {overriding : Option OverridingKind} {fragment : Fragment}
    {overridden found : Option Nat} {ordinals : List Nat} {types : List SqlType}
    {s t : CompilerState} (hlength : types.length = ordinals.length)
    (h : queryColumnsFrom columns overriding fragment overridden ordinals types s = .ok found t) :
    (∀ ordinal ∈ ordinals, ∃ column, columns[ordinal]? = some column ∧
      PermitsQuery column overriding) ∧
    (∀ ordinal, found = some ordinal →
      overridden = some ordinal ∨ overriding = some .user ∧ IdentityAt columns ordinal) ∧
    (overridden.isSome = true ∨ overriding = some .user ∧ (∃ ordinal ∈ ordinals,
      IdentityAt columns ordinal) → found.isSome = true) := by
  induction ordinals generalizing types overridden s with
  | nil =>
    obtain ⟨rfl, -⟩ := pure_ok.1 h
    exact ⟨by simp, fun _ h => .inl h, by simp⟩
  | cons ordinal ordinals ih =>
    cases types with
    | nil => simp at hlength
    | cons type types =>
      simp only [queryColumnsFrom, bind_ok, inRange_ok, lift_except_ok] at h
      obtain ⟨column, _, ⟨hcolumn, rfl⟩, here, _, ⟨hhere, rfl⟩, h⟩ := h
      obtain ⟨hpermits, rfl⟩ := queryColumn_permits hhere
      obtain ⟨hall, hfrom, hsome⟩ := ih (by simpa using hlength) h
      refine ⟨?_, fun o ho => ?_, fun hthere => hsome ?_⟩
      · exact List.forall_mem_cons.2 ⟨⟨column, hcolumn, hpermits⟩, hall⟩
      · rcases hfrom o ho with hor | hidentity
        · split at hor
          · next huser =>
            obtain rfl : ordinal = o := by simpa using hor
            obtain ⟨hidentity, hkind⟩ := Bool.and_eq_true_iff.1 huser
            exact .inr ⟨of_decide_eq_true hkind, column, hcolumn, hidentity⟩
          · exact .inl hor
        · exact .inr hidentity
      · rcases hthere with hthere | ⟨hkind, o, ho, hidentity⟩
        · exact .inl (by simp [hthere])
        · rcases List.mem_cons.1 ho with rfl | ho
          · obtain ⟨c, hc, hidentity⟩ := hidentity
            obtain rfl : column = c := Option.some.inj (hcolumn.symm.trans hc)
            exact .inl (by simp [hidentity, hkind])
          · exact .inr ⟨hkind, o, ho, hidentity⟩

end ColumnPolicy

/-- What a statement inserts. -/
structure Insertion where
  columnMap : ColumnMap
  /-- The rows, unless they come from a query. -/
  rows? : Option (List Expr)
  /-- The column whose values from a query are replaced by generated ones. -/
  overridden : Option Nat

/-- The rows that are inserted as they are written. -/
def InsertSource.rows? : InsertSource → Option (List Expr)
  | values rows => some rows.children
  | query _ => none

/-- What a statement inserts, if it does. -/
def Statement.insertions : Statement → List Insertion
  | insert i => [⟨i.columnMap, i.source.rows?, i.overrideIndex⟩]
  | merge m => m.insert.toList.map fun i => ⟨i.columnMap, some [i.row], none⟩
  | update _ | delete _ | truncate _ | call _ => []

/-- What a statement brings before the rules for columns apply: its OVERRIDING clause, and its rows
with their references resolved unless a query brings them. -/
inductive Brings (env : Environment) (s t : CompilerState) :
    Statement → Option Overriding → Option (List Expr) → Prop
  | defaults {i : InsertStatement} (run : Insert.Run env s i t) {s₁ : CompilerState}
      (hdefault : (liftM (Reader.skipKeyword .DEFAULT) : Compiler Bool) run.s₃ = .ok true s₁) :
      Brings env s t (.insert i) none (some [.untyped (.row []) run.written.fragment])
  | values {i : InsertStatement} (run : Insert.Run env s i t) {s₁ s₂ s₃ s₄ s₅ s₆ : CompilerState}
      {columns : ColumnMap} {overriding : Option Overriding} {rows : List Expr}
      {fragment : Fragment} {values : Expr}
      (hdefault : (liftM (Reader.skipKeyword .DEFAULT) : Compiler Bool) run.s₃ = .ok false s₁)
      (hcolumns : (liftM (Insert.readColumns env.config.dialect.oracle run.written) :
        Compiler ColumnMap) s₁ = .ok columns s₂)
      (hoverriding : (liftM Overriding.read? : Compiler _) s₂ = .ok overriding s₃)
      (hvalues : (liftM (Insert.skipValues env.config.dialect.mysql) : Compiler Bool) s₃ =
        .ok true s₄)
      (hrows : (liftM (Rows.read i.columnMap.length) : Compiler _) s₄ = .ok (rows, fragment) s₅)
      (hresolve : (Expr.untyped (.values rows) fragment).resolve env (.outerOnly s₅.outer) s₅ =
        .ok values s₆) :
      Brings env s t (.insert i) overriding (some values.children)
  | query {i : InsertStatement} (run : Insert.Run env s i t) {s₁ s₂ s₃ s₄ : CompilerState}
      {columns : ColumnMap} {overriding : Option Overriding}
      (hdefault : (liftM (Reader.skipKeyword .DEFAULT) : Compiler Bool) run.s₃ = .ok false s₁)
      (hcolumns : (liftM (Insert.readColumns env.config.dialect.oracle run.written) :
        Compiler ColumnMap) s₁ = .ok columns s₂)
      (hoverriding : (liftM Overriding.read? : Compiler _) s₂ = .ok overriding s₃)
      (hvalues : (liftM (Insert.skipValues env.config.dialect.mysql) : Compiler Bool) s₃ =
        .ok false s₄) :
      Brings env s t (.insert i) overriding none
  | branch {m : MergeStatement} (run : Merge.Run env s m t) {s₁ : CompilerState}
      {branch : Merge.InsertBranch} {row : Expr} (hbranch : run.branches.insert = some branch)
      (hrow : branch.row.resolve env ⟨[run.source], run.s₇.outer⟩ s₁ = .ok row t) :
      Brings env s t (.merge m) none (some [row])

/-- The rules for the columns of an insertion under an OVERRIDING clause, with the rows as they are
resolved. -/
structure Insertion.Permitted (columns : List Column) (overriding : Option OverridingKind)
    (resolved? : Option (List Expr)) (x : Insertion) : Prop where
  rows : Option.Rel (List.Forall₂ (ColumnPolicy.PermitsRow columns x.columnMap overriding))
    resolved? x.rows?
  query : x.rows? = none → ∀ ordinal ∈ x.columnMap.ordinals, ∃ column,
    columns[ordinal]? = some column ∧ ColumnPolicy.PermitsQuery column overriding
  target : overriding.isSome = true → ∃ ordinal ∈ x.columnMap.ordinals, IdentityAt columns ordinal
  overridden : ∀ ordinal, x.overridden = some ordinal ↔
    x.rows? = none ∧ overriding = some .user ∧ IdentityAt columns ordinal

/-- Rows replace no values. -/
theorem Insertion.permitted_rows {columns : List Column} {overriding : Option OverridingKind}
    {map : ColumnMap} {resolved rows : List Expr}
    (hrows : List.Forall₂ (ColumnPolicy.PermitsRow columns map overriding) resolved rows)
    (htarget : overriding.isSome = true → ∃ ordinal ∈ map.ordinals, IdentityAt columns ordinal) :
    Permitted columns overriding (some resolved) ⟨map, some rows, none⟩ :=
  ⟨.some hrows, by simp, htarget, by simp⟩

namespace Insert

variable {env : Environment} {s t : CompilerState}

/-- The rows of an INSERT, under the rules for their cells. -/
theorem readRows_permitted {target : ViewTarget} {map : ColumnMap} {overriding : Option Overriding}
    {rows rows₁ rows₂ : List Expr} {fragment : Fragment} {values : Expr} {u : CompilerState}
    (hone : OneIdentity target.relation.columns)
    (hrows : (liftM (Rows.read map.length) : Compiler _) s = .ok (rows, fragment) t)
    (hresolve : (Expr.untyped (.values rows) fragment).resolve env (.outerOnly t.outer) t =
      .ok values u) (hkind : values.kind = .values rows₁)
    (hinsert : List.Forall₂ (fun row row' => ColumnPolicy.insertRow target.relation.columns map
      (overriding.map (·.kind)) row u = .ok row' u) rows₁ rows₂) :
    List.Forall₂ (ColumnPolicy.PermitsRow target.relation.columns map (overriding.map (·.kind)))
      values.children rows₂ := by
  obtain ⟨r, hr, -⟩ := lift_parser_ok.1 hrows
  have hchildren : values.children = rows₁ := by simp [Expr.children, hkind]
  have halike : List.Forall₂ Expr.Alike rows values.children :=
    (Expr.resolveWith_alike hresolve).children
  have hisRow : ∀ row ∈ values.children, Rows.IsRow map.length row := by
    intro row hrow
    obtain ⟨row₀, hrow₀, ha⟩ := forall₂_exists_left halike hrow
    exact (Rows.read_isRow hr row₀ hrow₀).alike ha
  rw [hchildren] at hisRow ⊢
  refine ((List.forall₂_and_left _ _).2 ⟨hisRow, hinsert⟩).imp ?_
  rintro row row' ⟨hrow, hinsert⟩
  exact ColumnPolicy.insertRow_permits hone hrow (Nat.le_refl _) hinsert

/-- The columns that a query is inserted into. -/
theorem readQuery_permitted {columns : List Column} {map : ColumnMap}
    {overriding : Option Overriding} {fragment : Fragment} {overridden : Option Nat}
    {types : List SqlType} (hone : OneIdentity columns) (hlength : types.length = map.length)
    (h : ColumnPolicy.queryColumnsFrom columns (overriding.map (·.kind)) fragment none map.ordinals
      types s = .ok overridden t)
    (hcheck : ColumnPolicy.checkOverriding columns map overriding = .ok ()) :
    Insertion.Permitted columns (overriding.map (·.kind)) none ⟨map, none, overridden⟩ := by
  obtain ⟨hall, hfrom, hsome⟩ := ColumnPolicy.queryColumnsFrom_permits hlength h
  have htarget : (overriding.map (·.kind)).isSome = true →
      ∃ ordinal ∈ map.ordinals, IdentityAt columns ordinal :=
    fun hthere => ColumnPolicy.checkOverriding_ok hcheck (by simpa using hthere)
  refine ⟨.none, fun _ => hall, htarget, fun ordinal => ⟨fun hfound => ?_, ?_⟩⟩
  · exact ⟨rfl, (hfrom ordinal hfound).resolve_left (by simp)⟩
  · rintro ⟨-, huser, hidentity⟩
    have hthere := htarget (by rw [huser]; rfl)
    obtain ⟨found, hfound⟩ := Option.isSome_iff_exists.1 (hsome (.inr ⟨huser, hthere⟩))
    obtain ⟨-, hat⟩ := (hfrom found hfound).resolve_left (by simp)
    exact hfound.trans (congrArg some (hone.unique hat hidentity))

theorem Run.permitted {i : InsertStatement} (run : Run env s i t)
    (hone : OneIdentity i.target.columns) :
    ∃ overriding resolved?, Brings env s t (.insert i) overriding resolved? ∧
      Insertion.Permitted i.target.columns (overriding.map (·.kind)) resolved?
        ⟨i.columnMap, i.source.rows?, i.overrideIndex⟩ := by
  rw [run.relation] at hone ⊢
  cases run.completes with
  | defaults hd _ hs _ _ ho =>
    refine ⟨none, _, .defaults run hd, ?_⟩
    rw [hs, ho]
    refine Insertion.permitted_rows (.cons ?_ .nil) (by simp)
    exact @ColumnPolicy.PermitsRow.intro _ _ _ _ [] [] rfl rfl .nil
  | @rows s₁ s₂ s₃ s₄ columns overriding hd hc _ hover hs _ =>
    generalize hsource : i.source = source at hs
    generalize hindex : i.overrideIndex = overridden at hs
    cases hs with
    | values hskip hrows hresolve hkind hinsert hcheck =>
      refine ⟨overriding, _, .values run hd hc hover hskip hrows hresolve, ?_⟩
      exact Insertion.permitted_rows (readRows_permitted hone hrows hresolve hkind hinsert)
        fun hthere => ColumnPolicy.checkOverriding_ok hcheck (by simpa using hthere)
    | query hskip hexpected hplan hlen hcolumns hcheck =>
      refine ⟨overriding, _, .query run hd hc hover hskip, ?_⟩
      exact readQuery_permitted hone (by simpa [Plan.columnTypes] using hlen) hcolumns hcheck

end Insert

theorem Merge.Run.permitted {env : Environment} {s t : CompilerState} {m : MergeStatement}
    (run : Merge.Run env s m t) (hone : OneIdentity m.target.columns) :
    ∀ i ∈ m.insert, ∃ row, Brings env s t (.merge m) none (some [row]) ∧
      Insertion.Permitted m.target.columns none (some [row]) ⟨i.columnMap, some [i.row], none⟩ := by
  intro i hi
  obtain ⟨branch, hb, hresolve⟩ := ifPresent_some (hi ▸ run.insert_ok)
  obtain ⟨s₁, row, -, hrow, hmap, hpolicy⟩ := resolveInsert_ok hresolve
  obtain ⟨r, hr, -⟩ := lift_parser_ok.1 run.branches_ok
  obtain ⟨hisRow, -⟩ := (readBranches_written hr).insert branch hb
  rw [run.relation] at hone ⊢
  refine ⟨row, .branch run hb hrow, Insertion.permitted_rows (.cons ?_ .nil) (by simp)⟩
  exact ColumnPolicy.insertRow_permits hone (hisRow.alike (Expr.resolveWith_alike hrow))
    (Nat.le_of_eq (ColumnMap.project_length hmap).symm) hpolicy

namespace Statement

variable {env : Environment} {s t : CompilerState} {statement : Statement}

/-- A statement that compiles inserts into a relation with at most one identity what the rules for
its columns permit. -/
theorem insertions_permitted {text : String} (h : compile env text s = .ok statement t)
    (hone : OneIdentity statement.columns) :
    ∃ tokens u, tokenize text = .ok tokens ∧ ∀ x ∈ statement.insertions, ∃ overriding resolved?,
      Brings env { s with cursor := .ofTokens tokens } u statement overriding resolved? ∧
        x.Permitted statement.columns (overriding.map (·.kind)) resolved? := by
  obtain ⟨tokens, u, c, htokens, hhead, -⟩ := compile_ok h
  refine ⟨tokens, u, htokens, fun x hx => ?_⟩
  obtain ⟨_, rest, -, hrun⟩ := compileHead_ok hhead
  cases hrun with
  | insert _ hcompile =>
    obtain ⟨run⟩ := Insert.compile_ok hcompile
    obtain rfl := List.mem_singleton.1 hx
    exact run.permitted hone
  | merge _ hcompile =>
    obtain ⟨run⟩ := Merge.compile_ok hcompile
    simp only [insertions, List.mem_map, Option.mem_toList] at hx
    obtain ⟨i, hi, rfl⟩ := hx
    obtain ⟨row, hbrings, hpermitted⟩ := run.permitted hone i hi
    exact ⟨none, some [row], hbrings, hpermitted⟩
  | update | delete | truncate | call => cases hx

/-- Values for an identity two views below, which are replaced. -/
def overriddenRows : String :=
  "INSERT INTO rich_active (name, id) OVERRIDING USER VALUE VALUES (?, 1), ('b', DEFAULT)"

set_option maxRecDepth 10000 in
theorem insertions_permitted_views :
    ∃ statement t tokens u, compile .bank overriddenRows .initial = .ok statement t ∧
      OneIdentity statement.columns ∧ tokenize overriddenRows = .ok tokens ∧
      ∃ x ∈ statement.insertions, ∃ overriding resolved?,
        Brings .bank { CompilerState.initial with cursor := .ofTokens tokens } u statement
          overriding resolved? ∧
        x.Permitted statement.columns (overriding.map (·.kind)) resolved? := by
  obtain ⟨statement, t, hcompile, hcheck⟩ := exists_compile .bank overriddenRows
    (fun statement => decide (OneIdentity statement.columns) && !statement.insertions.isEmpty)
    rfl (by decide +kernel)
  obtain ⟨hone, hthere⟩ := Bool.and_eq_true_iff.1 hcheck
  have hone : OneIdentity statement.columns := of_decide_eq_true hone
  obtain ⟨tokens, u, htokens, hall⟩ := insertions_permitted hcompile hone
  obtain ⟨x, hx⟩ := List.exists_mem_of_ne_nil statement.insertions (by simpa using hthere)
  exact ⟨statement, t, tokens, u, hcompile, hone, htokens, x, hx, hall x hx⟩

end Statement

end DataChange
