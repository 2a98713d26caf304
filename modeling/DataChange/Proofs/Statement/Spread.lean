import DataChange.Proofs.Expr.Bound
import DataChange.Proofs.Spelling.Statements
import DataChange.Proofs.Statement.Scalars
import DataChange.Proofs.Statement.Slots
import DataChange.Proofs.Statement.Upsert

/-!
# Rows and their items

What happens to a row after it is read happens to each of its items on its own: a row is resolved
(`Expr.resolveWith_row`), moved to the base of a view (`ViewTarget.onBase_row`) and assigned
(`ViewTarget.assign_row`) exactly if its items are, one after the other, and what comes out is the
row of what comes out of them. So a row and its items in another spelling (`Expr.RowOf`) go along
through these steps, and what they assign to each column is spelled alike (`Expr.RowOf.assign`).
-/

namespace DataChange

namespace Expr

variable {compile : QueryCompiler} {scope : Scope} {e e' : Expr} {items items' : List Expr}
  {s t : CompilerState}

/-! ## Resolving -/

theorem inferList_cons {es es' : List Expr} : inferList (e :: es) = .ok es' ↔
    ∃ d ds, infer e = .ok d ∧ inferList es = .ok ds ∧ es' = d :: ds := by
  simp only [inferList]
  cases infer e with
  | error err => simp
  | ok d =>
    cases inferList es with
    | error err => simp
    | ok ds => simp [eq_comm]

theorem resolveWith_iff : resolveWith compile scope e s = .ok e' t ↔
    ∃ b, bindIn compile scope e s = .ok (b, []) t ∧ infer b = .ok e' := by
  refine ⟨resolveWith_ok, ?_⟩
  rintro ⟨b, hb, hinfer⟩
  have hbound : bindWith compile scope e s = .ok b t :=
    bind_ok.2 ⟨(b, []), t, hb, bind_ok.2 ⟨(), t, lift_except_ok.2 ⟨rfl, rfl⟩, rfl⟩⟩
  exact bind_ok.2 ⟨b, t, hbound, lift_except_ok.2 ⟨hinfer, rfl⟩⟩

/-- Items that are bound together and then typed are resolved one by one. -/
theorem resolveItems_iff : items.mapM (resolveWith compile scope) s = .ok items' t ↔
    ∃ bs, bindListIn compile scope items s = .ok (bs, []) t ∧ inferList bs = .ok items' := by
  induction items generalizing items' s with
  | nil =>
    simp only [bindListIn, pure_ok, Prod.mk.injEq, List.mapM_nil, and_true]
    constructor
    · rintro ⟨rfl, rfl⟩
      exact ⟨[], ⟨rfl, rfl⟩, rfl⟩
    · rintro ⟨_, ⟨rfl, rfl⟩, hinfer⟩
      exact ⟨Except.ok.inj hinfer, rfl⟩
  | cons item items ih =>
    simp only [List.mapM_cons, bind_ok, pure_ok, bindListIn_cons]
    constructor
    · rintro ⟨e, u, he, es, _, hes, rfl, rfl⟩
      obtain ⟨b, hb, hinfer⟩ := resolveWith_ok he
      obtain ⟨bs, hbs, hlist⟩ := ih.1 hes
      exact ⟨b :: bs, ⟨b, [], u, bs, [], hb, hbs, rfl, rfl⟩,
        inferList_cons.2 ⟨e, es, hinfer, hlist, rfl⟩⟩
    · rintro ⟨_, ⟨b, f, u, bs, g, hb, hbs, rfl, hfree⟩, hinfer⟩
      obtain ⟨rfl, rfl⟩ : f = [] ∧ g = [] := List.append_eq_nil_iff.1 hfree.symm
      obtain ⟨e, es, he, hes, rfl⟩ := inferList_cons.1 hinfer
      exact ⟨e, u, resolveWith_iff.2 ⟨b, hb, he⟩, es, t, ih.2 ⟨bs, hbs, hes⟩, rfl, rfl⟩

theorem resolveWith_row {f : Fragment} {type : Option SqlType} :
    resolveWith compile scope ⟨.row items, f, type⟩ s = .ok e' t ↔
      ∃ es, items.mapM (resolveWith compile scope) s = .ok es t ∧ e' = ⟨.row es, f, none⟩ := by
  simp only [resolveWith_iff, resolveItems_iff, bindIn, bind_ok, pure_ok, Prod.mk.injEq,
    Prod.exists]
  constructor
  · rintro ⟨_, ⟨bs, free, _, hbs, ⟨rfl, rfl⟩, rfl⟩, hinfer⟩
    simp only [infer] at hinfer
    split at hinfer
    · next es hes =>
      exact ⟨es, ⟨bs, hbs, hes⟩, (Except.ok.inj hinfer).symm⟩
    · cases hinfer
  · rintro ⟨es, ⟨bs, hbs, hes⟩, rfl⟩
    exact ⟨_, ⟨bs, [], t, hbs, ⟨rfl, rfl⟩, rfl⟩, by simp only [infer, hes]⟩

end Expr

/-! ## Moving -/

theorem Expr.mapColumnsOfList_eq (change : ColumnChange) (es : List Expr) :
    Expr.mapColumnsOfList change es = es.mapM (Expr.mapColumns change) := by
  induction es with
  | nil => rfl
  | cons e es ih =>
    simp only [Expr.mapColumnsOfList, List.mapM_cons, ih]
    cases Expr.mapColumns change e with
    | none => rfl
    | some d => cases es.mapM (Expr.mapColumns change) <;> rfl

namespace ViewTarget

variable {target : ViewTarget} {e' : Expr} {items items' : List Expr} {s t : CompilerState}

theorem mapM_onBase : items.mapM target.onBase s = .ok items' t ↔
    items.mapM target.moved = some items' ∧ s = t := by
  induction items generalizing items' s t with
  | nil => simp [pure_ok, eq_comm]
  | cons item items ih =>
    simp only [List.mapM_cons, bind_ok, pure_ok, onBase_ok, ih, Option.bind_eq_bind,
      Option.bind_eq_some_iff, Option.pure_def, Option.some.injEq]
    constructor
    · rintro ⟨e, _, ⟨he, rfl⟩, es, _, ⟨hes, rfl⟩, rfl, rfl⟩
      exact ⟨⟨e, he, es, hes, rfl⟩, rfl⟩
    · rintro ⟨⟨e, he, es, hes, rfl⟩, rfl⟩
      exact ⟨e, s, ⟨he, rfl⟩, es, s, ⟨hes, rfl⟩, rfl, rfl⟩

theorem moved_row {f : Fragment} {type : Option SqlType} :
    target.moved ⟨.row items, f, type⟩ =
      (items.mapM target.moved).map fun es => ⟨.row es, f, type⟩ := by
  unfold moved
  split
  · simp only [Expr.redirect, Expr.mapColumns, Expr.mapColumnsOfList_eq]
  · have hall : items.mapM (fun e => some e) = some (items.map id) := List.mapM_pure
    rw [hall, List.map_id]
    rfl

theorem onBase_row {f : Fragment} {type : Option SqlType} :
    target.onBase ⟨.row items, f, type⟩ s = .ok e' t ↔
      ∃ es, items.mapM target.onBase s = .ok es t ∧ e' = ⟨.row es, f, type⟩ := by
  simp only [onBase_ok, mapM_onBase, moved_row, Option.map_eq_some_iff]
  grind

end ViewTarget

/-! ## Assigning -/

namespace ColumnPolicy

variable {columns : List Column} {values values' : List Expr} {slots rest : List Nat}
  {s t : CompilerState}

/-- The items of a row are assigned like values of their own. -/
theorem updateItems_iff (h : ∀ value ∈ values, value.IsCell) :
    (∃ rest, updateItems columns values slots s = .ok (values', rest) t) ↔
      updateValuesFrom columns values slots s = .ok values' t := by
  induction values generalizing values' slots s with
  | nil => simp [updateItems, updateValuesFrom, pure_ok]
  | cons value values ih =>
    have hcell := h value (by simp)
    have hvalues : ∀ value ∈ values, value.IsCell := fun value hv => h value (by simp [hv])
    simp only [updateItems, updateValuesFrom, updateValue_cell hcell, bind_ok, pure_ok,
      Prod.exists, Prod.mk.injEq, nextSlot_ok, lift_except_ok]
    constructor
    · rintro ⟨rest, column, left, _, ⟨ordinal, rfl, hcolumn, rfl⟩, cell, _, ⟨hupdate, rfl⟩, cells, _,
        u, hitems, ⟨rfl, rfl⟩, rfl⟩
      exact ⟨cell, left, s, ⟨column, left, s, ⟨ordinal, rfl, hcolumn, rfl⟩, cell, s, ⟨hupdate, rfl⟩,
        ⟨rfl, rfl⟩, rfl⟩, cells, u, (ih hvalues).1 ⟨_, hitems⟩, rfl, rfl⟩
    · rintro ⟨_, _, _, ⟨column, left, _, ⟨ordinal, rfl, hcolumn, rfl⟩, cell, _, ⟨hupdate, rfl⟩,
        ⟨rfl, rfl⟩, rfl⟩, cells, u, hrest, rfl, rfl⟩
      obtain ⟨rest, hitems⟩ := (ih hvalues).2 hrest
      exact ⟨rest, column, left, s, ⟨ordinal, rfl, hcolumn, rfl⟩, cell, s, ⟨hupdate, rfl⟩, cells,
        rest, u, hitems, ⟨rfl, rfl⟩, rfl⟩

theorem updateValuesFrom_row {f : Fragment} {type : Option SqlType} {outcome : List Expr}
    (h : ∀ value ∈ values, value.IsCell) :
    updateValuesFrom columns [⟨.row values, f, type⟩] slots s = .ok outcome t ↔
      ∃ values', updateValuesFrom columns values slots s = .ok values' t ∧
        outcome = [⟨.row values', f, type⟩] := by
  simp only [← updateItems_iff h, updateValuesFrom, updateValue, bind_ok, pure_ok, Prod.exists,
    Prod.mk.injEq]
  constructor
  · rintro ⟨_, _, _, ⟨values', rest, _, hitems, ⟨rfl, rfl⟩, rfl⟩, _, _, ⟨rfl, rfl⟩, rfl, rfl⟩
    exact ⟨values', ⟨_, hitems⟩, rfl⟩
  · rintro ⟨values', ⟨rest, hitems⟩, rfl⟩
    exact ⟨_, rest, t, ⟨values', rest, t, hitems, ⟨rfl, rfl⟩, rfl⟩, [], t, ⟨rfl, rfl⟩, rfl, rfl⟩

end ColumnPolicy

theorem ViewTarget.assign_row {target : ViewTarget} {map : ColumnMap} {values : List Expr}
    {f : Fragment} {type : Option SqlType} {a : Assignments} {s t : CompilerState}
    (h : ∀ value ∈ values, value.IsCell) :
    target.assign map [⟨.row values, f, type⟩] s = .ok a t ↔
      ∃ a', target.assign map values s = .ok a' t ∧
        a = { a' with values := [⟨.row a'.values, f, type⟩] } := by
  simp only [assign, ColumnPolicy.updateValues, ColumnPolicy.updateValuesFrom_row h, bind_ok,
    pure_ok]
  constructor
  · rintro ⟨map', u, hmap, _, v, ⟨values', hvalues, rfl⟩, flags, _, hflags, rfl, rfl⟩
    exact ⟨_, ⟨map', u, hmap, values', v, hvalues, flags, _, hflags, rfl, rfl⟩, rfl⟩
  · rintro ⟨_, ⟨map', u, hmap, values', v, hvalues, flags, _, hflags, rfl, rfl⟩, rfl⟩
    exact ⟨map', u, hmap, _, v, ⟨values', hvalues, rfl⟩, flags, _, hflags, rfl, rfl⟩

/-! ## A row and its items in another spelling -/

variable {P : Likeness}

namespace Expr

/-- A single value or DEFAULT. -/
def IsSingle (e : Expr) : Prop :=
  e.shape = .scalar ∨ e.shape = .default

variable {e e' : Expr}

theorem IsSingle.of_shape (h : e.IsSingle) (k : e'.shape = e.shape) : e'.IsSingle := by
  unfold IsSingle
  rw [k]
  exact h

theorem IsSingle.alike (h : e.IsSingle) (k : e.Alike e') : e'.IsSingle :=
  h.of_shape k.shape

theorem IsSingle.isCell (h : e.IsSingle) : e.IsCell := by
  refine ⟨fun items hk => ?_, fun degree plan hk => ?_⟩ <;> simp [IsSingle, shape, hk] at h

/-- What is read as an expression is a row or single. -/
theorem Plain.isSingle (h : Plain e) (hrow : e.isRow = false) : e.IsSingle := by
  have hplain := h.regular.node
  have hnot : ∀ length, e.shape ≠ .row length := fun length hs => by
    rw [isRow_iff.2 ⟨length, hs⟩] at hrow
    cases hrow
  unfold IsSingle
  cases hs : e.shape <;> simp_all [Shape.isPlain]

/-- A row, and values that are its items in another spelling. -/
inductive RowOf (P : Likeness) : List Expr → List Expr → Prop
  | intro {items values : List Expr} {f : Fragment} {type : Option SqlType}
      (h : List.Forall₂ (fun e e' => e.Respelled P e' ∧ e.IsSingle) items values) :
      RowOf P [⟨.row items, f, type⟩] values

end Expr

/-- Two spellings of what goes to a column. -/
inductive Slot.Respelled (P : Likeness) : Slot → Slot → Prop
  | value {e e' : Expr} (h : e.Respelled P e') : Slot.Respelled P (.value e) (.value e')
  | produced (type : SqlType) : Slot.Respelled P (.produced type) (.produced type)

theorem Expr.slots_of_cells {values : List Expr} (h : ∀ value ∈ values, value.IsCell) :
    values.flatMap Expr.slots = values.map .value := by
  induction values with
  | nil => rfl
  | cons value values ih =>
    rw [List.flatMap_cons, (h value (by simp)).slots, ih fun v hv => h v (by simp [hv])]
    rfl

/-- States of two compilations that go along, whatever their failures are. -/
def Tracking.lenient (P : Likeness) : Tracking Failure CompilerState :=
  ⟨CompilerState.Respelled P, fun _ _ => True⟩

namespace Tracks

variable {α β γ : Type} {R : α → β → Prop} {x : Compiler α} {y : Compiler β}

theorem lenient (h : Tracks (.states P) R x y) : Tracks (.lenient P) R x y :=
  fun _ _ hs => (h hs).imp (fun _ _ => id) (fun _ _ _ => trivial) fun _ _ => id

/-- What all results of the first computation have. -/
theorem keeps {Q : α → Prop} (h : Tracks (.states P) R x y) (hQ : ∀ s a t, x s = .ok a t → Q a) :
    Tracks (.lenient P) (fun a b => R a b ∧ Q a) x y := by
  intro s s' hs
  have hends := h hs
  generalize hx : x s = r at hends ⊢
  generalize y s' = r' at hends ⊢
  cases hends with
  | ok hab ht => exact .ok ⟨hab, hQ _ _ _ hx⟩ ht
  | error => exact .error trivial

/-- A computation that ends as another one does, with its result in another form. -/
theorem spread {f : α → γ} {z : Compiler γ} (h : Tracks (.lenient P) R x y)
    (hz : ∀ s c t, z s = .ok c t ↔ ∃ a, x s = .ok a t ∧ c = f a) :
    Tracks (.lenient P) (fun c b => ∃ a, c = f a ∧ R a b) z y := by
  intro s s' hs
  have hends := h hs
  generalize hx : x s = r at hends
  generalize y s' = r' at hends ⊢
  cases hends with
  | @ok a b t _ hab ht =>
    rw [(hz s (f a) t).2 ⟨a, hx, rfl⟩]
    exact .ok ⟨a, rfl, hab⟩ ht
  | error =>
    cases hc : z s with
    | ok c t =>
      obtain ⟨a, ha, -⟩ := (hz s c t).1 hc
      rw [hx] at ha
      cases ha
    | error => exact .error trivial

end Tracks

namespace Expr.RowOf

variable {values values' : List Expr} {target target' : ViewTarget}

/-- What is done with a row is done with its items. -/
theorem mapM {f g : Expr → Compiler Expr} (h : RowOf P values values')
    (hitem : ∀ e e', e.Respelled P e' → Tracks (.states P) (Expr.Respelled P) (f e) (g e'))
    (hsingle : ∀ e s e' t, f e s = .ok e' t → e.IsSingle → e'.IsSingle)
    (hrow : ∀ items fragment type, ∃ type', ∀ s e t, f ⟨.row items, fragment, type⟩ s = .ok e t ↔
      ∃ es, items.mapM f s = .ok es t ∧ e = ⟨.row es, fragment, type'⟩) :
    Tracks (.lenient P) (RowOf P) (values.mapM f) (values'.mapM g) := by
  cases h with
  | @intro items _ fragment type h =>
    have hitems := Tracks.mapM h fun e e' he => (hitem e e' he.1).keeps (Q := IsSingle)
      fun s d t hd => hsingle e s d t hd he.2
    obtain ⟨type', hrow⟩ := hrow items fragment type
    have hspread : ∀ s c t, [(⟨.row items, fragment, type⟩ : Expr)].mapM f s = .ok c t ↔
        ∃ es, items.mapM f s = .ok es t ∧ c = [⟨.row es, fragment, type'⟩] := by
      intro s c t
      simp only [List.mapM_cons, List.mapM_nil, bind_ok, pure_ok, hrow]
      constructor
      · rintro ⟨_, _, ⟨es, hes, rfl⟩, _, _, ⟨rfl, rfl⟩, rfl, rfl⟩
        exact ⟨es, hes, rfl⟩
      · rintro ⟨es, hes, rfl⟩
        exact ⟨_, t, ⟨es, hes, rfl⟩, [], t, ⟨rfl, rfl⟩, rfl, rfl⟩
    refine (hitems.spread hspread).imp ?_
    rintro _ _ ⟨es, rfl, hes⟩
    exact .intro hes

theorem resolve {scope scope' : Scope} (env : Environment) (hscope : scope.Respelled P scope')
    (h : RowOf P values values') :
    Tracks (.lenient P) (RowOf P) (values.mapM fun value => value.resolve env scope)
      (values'.mapM fun value => value.resolve env scope') :=
  h.mapM (fun _ _ he => resolve_tracks env hscope he)
    (fun _ _ _ _ hrun he => he.alike (resolveWith_alike hrun))
    fun _ _ _ => ⟨none, fun _ _ _ => resolveWith_row⟩

theorem onBase [P.Numbered] (htarget : target.Respelled P target') (h : RowOf P values values') :
    Tracks (.lenient P) (RowOf P) (values.mapM target.onBase) (values'.mapM target'.onBase) :=
  h.mapM (fun _ _ he => ViewTarget.onBase_tracks htarget he)
    (fun _ _ _ _ hrun he => ViewTarget.moved_keeps (fun _ hm he => he.alike hm.alike)
      (ViewTarget.onBase_ok.1 hrun).1 he)
    fun _ _ type => ⟨type, fun _ _ _ => ViewTarget.onBase_row⟩

end Expr.RowOf

/-- Assignments of the same columns, with spellings of the same in each slot. -/
structure Assignments.AlikeBySlot (P : Likeness) (a a' : Assignments) : Prop where
  columnMap : a'.columnMap = a.columnMap
  slots : List.Forall₂ (Slot.Respelled P) (a.values.flatMap Expr.slots)
    (a'.values.flatMap Expr.slots)

/-- A row that is assigned fills the slots that its items fill. -/
theorem Expr.RowOf.assign {values values' : List Expr} {target target' : ViewTarget}
    (htarget : target.Respelled P target') (map : ColumnMap) (h : RowOf P values values') :
    Tracks (.lenient P) (Assignments.AlikeBySlot P) (target.assign map values)
      (target'.assign map values') := by
  cases h with
  | @intro items _ f type h =>
    have hsingle : ∀ e ∈ items, e.IsSingle := fun e he =>
      (forall₂_exists_right h he).elim fun _ hd => hd.2.2
    have hitems := (ViewTarget.assign_tracks htarget map (h.imp fun _ _ he => he.1)).keeps
      (Q := fun a => ∀ e ∈ a.values, e.IsSingle) fun s a t ha e he => by
        obtain ⟨d, hd, hassigned⟩ := forall₂_exists_left (ViewTarget.assign_ok ha).1 he
        exact (hsingle d hd).alike hassigned.alike
    refine (hitems.spread (f := fun a => { a with values := [⟨.row a.values, f, type⟩] })
      fun s c t => ViewTarget.assign_row fun e he => (hsingle e he).isCell).imp ?_
    rintro _ a' ⟨a, rfl, ha, hcells⟩
    have hcells' : ∀ e' ∈ a'.values, e'.IsCell := fun e' he' => by
      obtain ⟨e, he, hrespelled⟩ := forall₂_exists_left ha.values he'
      exact ((hcells e he).of_shape hrespelled.shape).isCell
    refine ⟨ha.columnMap, ?_⟩
    rw [slots_of_cells hcells']
    simpa [slots, List.forall₂_map_left_iff, List.forall₂_map_right_iff] using
      ha.values.imp fun _ _ => Slot.Respelled.value

end DataChange
