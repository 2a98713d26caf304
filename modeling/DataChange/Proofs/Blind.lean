import DataChange.Statement.Update

/-!
# Computations that look at no state

The rules for columns and the move from a view to its base run inside the compiler, but what they
give depends on what they are given alone: they are `Blind`. Such a computation keeps the state that
it starts in, and gives the same in all states.
-/

namespace DataChange

/-- The computation that ends with a given result and keeps the state. -/
def Compiler.ending {α : Type} (result : Except Failure α) : Compiler α := fun s =>
  match result with
  | .ok a => .ok a s
  | .error e => .error e s

/-- A computation that neither looks at the state nor changes it. -/
def Blind {α : Type} (x : Compiler α) : Prop :=
  ∃ result, x = Compiler.ending result

/-! ## Steps -/

namespace Blind

variable {α β : Type}

theorem pure (a : α) : Blind (Pure.pure a) :=
  ⟨.ok a, rfl⟩

theorem throw (e : Failure) : Blind (MonadExcept.throw e : Compiler α) :=
  ⟨.error e, rfl⟩

theorem reject (e : Error) : Blind (DataChange.reject e : Compiler α) :=
  throw _

theorem inRange (x : Option α) : Blind (DataChange.inRange x : Compiler α) := by
  cases x with
  | none => exact throw _
  | some a => exact pure a

theorem except (x : Except Error α) : Blind (liftM x : Compiler α) := by
  cases x with
  | ok a => exact ⟨.ok a, rfl⟩
  | error e => exact ⟨.error (.rejected e), rfl⟩

theorem bind {x : Compiler α} {f : α → Compiler β} (hx : Blind x) (hf : ∀ a, Blind (f a)) :
    Blind (x >>= f) := by
  obtain ⟨result, rfl⟩ := hx
  cases result with
  | error e => exact ⟨.error e, rfl⟩
  | ok a => exact hf a

theorem ite {c : Prop} [Decidable c] {x y : Compiler α} (hx : Blind x) (hy : Blind y) :
    Blind (if c then x else y) := by
  split
  · exact hx
  · exact hy

theorem mapM {f : α → Compiler β} (hf : ∀ a, Blind (f a)) (as : List α) : Blind (as.mapM f) := by
  induction as with
  | nil => exact pure _
  | cons a as ih =>
    rw [List.mapM_cons]
    exact (hf a).bind fun b => ih.bind fun bs => pure _

end Blind

/-! ## Columns -/

namespace ColumnPolicy

theorem insertCells_blind (columns : List Column) (overriding : Option OverridingKind)
    (cells : List Expr) (ordinals : List Nat) :
    Blind (insertCells columns overriding cells ordinals) := by
  induction cells generalizing ordinals with
  | nil => exact .pure _
  | cons cell cells ih =>
    cases ordinals with
    | nil => exact .pure _
    | cons ordinal ordinals =>
      exact (Blind.inRange _).bind fun _ => (Blind.except _).bind fun _ =>
        (ih ordinals).bind fun _ => .pure _

theorem insertRow_blind (columns : List Column) (map : ColumnMap)
    (overriding : Option OverridingKind) (row : Expr) :
    Blind (insertRow columns map overriding row) := by
  unfold insertRow
  split
  · exact (insertCells_blind _ _ _ _).bind fun _ => .pure _
  · exact .reject _

theorem insertRows_blind (columns : List Column) (map : ColumnMap)
    (overriding : Option Overriding) (rows : List Expr) :
    Blind (insertRows columns map overriding rows) :=
  (Blind.except _).bind fun _ => .mapM (fun _ => insertRow_blind _ _ _ _) _

theorem queryColumnsFrom_blind (columns : List Column) (overriding : Option OverridingKind)
    (fragment : Fragment) (overridden : Option Nat) (ordinals : List Nat) (types : List SqlType) :
    Blind (queryColumnsFrom columns overriding fragment overridden ordinals types) := by
  induction ordinals generalizing overridden types with
  | nil => exact .pure _
  | cons ordinal ordinals ih =>
    cases types with
    | nil => exact .pure _
    | cons produced types =>
      exact (Blind.inRange _).bind fun _ => (Blind.except _).bind fun _ => ih _ _

theorem queryColumns_blind (columns : List Column) (map : ColumnMap) (produced : List SqlType)
    (overriding : Option Overriding) (fragment : Fragment) :
    Blind (queryColumns columns map produced overriding fragment) :=
  (Blind.except _).bind fun _ => queryColumnsFrom_blind _ _ _ _ _ _

theorem nextSlot_blind (columns : List Column) (slots : List Nat) :
    Blind (nextSlot columns slots) := by
  cases slots with
  | nil => exact .throw _
  | cons ordinal slots => exact (Blind.inRange _).bind fun _ => .pure _

theorem updateItems_blind (columns : List Column) (items : List Expr) (slots : List Nat) :
    Blind (updateItems columns items slots) := by
  induction items generalizing slots with
  | nil => exact .pure _
  | cons item items ih =>
    exact (nextSlot_blind _ _).bind fun _ => (Blind.except _).bind fun _ =>
      (ih _).bind fun _ => .pure _

theorem updateProducedList_blind (columns : List Column) (fragment : Fragment)
    (types : List SqlType) (slots : List Nat) :
    Blind (updateProducedList columns fragment types slots) := by
  induction types generalizing slots with
  | nil => exact .pure _
  | cons produced types ih =>
    exact (nextSlot_blind _ _).bind fun _ => (Blind.except _).bind fun _ => ih _

theorem updateValue_blind (columns : List Column) (value : Expr) (slots : List Nat) :
    Blind (updateValue columns value slots) := by
  unfold updateValue
  split
  · exact (updateItems_blind _ _ _).bind fun _ => .pure _
  · exact (updateProducedList_blind _ _ _ _).bind fun _ => .pure _
  · exact (nextSlot_blind _ _).bind fun _ => (Blind.except _).bind fun _ => .pure _

theorem updateValuesFrom_blind (columns : List Column) (values : List Expr)
    (slots : List Nat) : Blind (updateValuesFrom columns values slots) := by
  induction values generalizing slots with
  | nil => exact .pure _
  | cons value values ih =>
    exact (updateValue_blind _ _ _).bind fun _ => (ih _).bind fun _ => .pure _

end ColumnPolicy

/-! ## Targets -/

namespace ViewTarget

theorem onBase_blind (target : ViewTarget) (e : Expr) : Blind (target.onBase e) :=
  .ite (.inRange _) (.pure _)

theorem onBase?_blind (target : ViewTarget) (e : Option Expr) : Blind (target.onBase? e) := by
  cases e with
  | none => exact .pure _
  | some e => exact (onBase_blind target e).bind fun _ => .pure _

theorem sliceOnBase_blind (target : ViewTarget) (slice : Option Slice) :
    Blind (target.sliceOnBase slice) := by
  cases slice with
  | none => exact .pure _
  | some slice =>
    exact (Blind.mapM (fun k : SortKey => (onBase_blind target k.key).bind fun _ => .pure _) _).bind
      fun _ => .pure _

theorem project_blind (target : ViewTarget) (map : ColumnMap) : Blind (target.project map) :=
  .inRange _

theorem checkList_blind (target : ViewTarget) (map : ColumnMap) : Blind (target.checkList map) :=
  .inRange _

theorem assign_blind (target : ViewTarget) (map : ColumnMap) (values : List Expr) :
    Blind (target.assign map values) :=
  (project_blind target map).bind fun _ =>
    (ColumnPolicy.updateValuesFrom_blind _ _ _).bind fun _ =>
      (checkList_blind target _).bind fun _ => .pure _

end ViewTarget

end DataChange
