import DataChange.Proofs.Expr.Shape
import DataChange.Proofs.Spelling.Folded

/-!
# Other spellings

Two tokens, or two expressions, are spellings of the same if they differ in the case of names only
and stand at the same place. `Respelled P` says this, and that all places are in `P`. What is
respelled is the same in the common spelling (`Expr.Respelled.foldCase_eq`).
-/

section

variable {α β γ δ : Type} {R : α → β → Prop} {S : γ → δ → Prop}

namespace Option.Rel

variable {a : Option α} {b : Option β}

/-- What is said of two options is said of the values that they may hold. -/
@[elab_as_elim]
theorem elim {motive : Option α → Option β → Prop} (h : Option.Rel R a b)
    (hnone : motive .none .none) (hsome : ∀ a b, R a b → motive (.some a) (.some b)) :
    motive a b := by
  cases h with
  | none => exact hnone
  | some h => exact hsome _ _ h

theorem map {f : α → γ} {g : β → δ} (h : Option.Rel R a b) (hf : ∀ a b, R a b → S (f a) (g b)) :
    Option.Rel S (a.map f) (b.map g) := by
  cases h with
  | none => exact .none
  | some h => exact .some (hf _ _ h)

theorem isSome_eq (h : Option.Rel R a b) : a.isSome = b.isSome := by
  cases h <;> rfl

theorem any_eq {p : α → Bool} {q : β → Bool} (h : Option.Rel R a b)
    (hpq : ∀ a b, R a b → q b = p a) : b.any q = a.any p := by
  cases h with
  | none => rfl
  | some h => exact hpq _ _ h

end Option.Rel

namespace List.Forall₂

variable {p : α → Bool} {q : β → Bool} {as : List α} {bs : List β}

theorem getElem? (h : List.Forall₂ R as bs) (n : Nat) : Option.Rel R as[n]? bs[n]? := by
  induction h generalizing n with
  | nil => exact .none
  | cons h _ ih =>
    cases n with
    | zero => exact .some h
    | succ n => exact ih n

theorem mapIdx {f : Nat → α → γ} {g : Nat → β → δ} (h : List.Forall₂ R as bs)
    (hf : ∀ i a b, R a b → S (f i a) (g i b)) :
    List.Forall₂ S (as.mapIdx f) (bs.mapIdx g) := by
  induction h generalizing f g with
  | nil => exact .nil
  | cons h _ ih =>
    rw [List.mapIdx_cons, List.mapIdx_cons]
    exact .cons (hf _ _ _ h) (ih fun i => hf (i + 1))

theorem head? (h : List.Forall₂ R as bs) : Option.Rel R as.head? bs.head? := by
  cases h with
  | nil => exact .none
  | cons h _ => exact .some h

theorem isEmpty_eq (h : List.Forall₂ R as bs) : bs.isEmpty = as.isEmpty := by
  cases h <;> rfl

theorem takeWhile (h : List.Forall₂ R as bs) (hpq : ∀ a b, R a b → q b = p a) :
    List.Forall₂ R (as.takeWhile p) (bs.takeWhile q) := by
  induction h with
  | nil => exact .nil
  | @cons a b _ _ h _ ih =>
    simp only [List.takeWhile_cons, hpq _ _ h]
    cases p a with
    | true => exact .cons h ih
    | false => exact .nil

theorem dropWhile (h : List.Forall₂ R as bs) (hpq : ∀ a b, R a b → q b = p a) :
    List.Forall₂ R (as.dropWhile p) (bs.dropWhile q) := by
  induction h with
  | nil => exact .nil
  | @cons a b _ _ h hs ih =>
    simp only [List.dropWhile_cons, hpq _ _ h]
    cases p a with
    | true => exact ih
    | false => exact .cons h hs

end List.Forall₂

end

namespace DataChange

/-- What two spellings of the same have in common: texts that are folded to the same text, markers
and ranges whose numbers count as the same, and fragments that are near each other. -/
structure Likeness where
  fold : String → String
  number : Nat → Nat
  Near : Fragment → Fragment → Prop
  foldCase_eq {a b : String} (h : fold a = fold b) : Text.foldCase a = Text.foldCase b
  fold_append {a b c d : String} (h : fold a = fold b) (h' : fold c = fold d) :
    fold (a ++ c) = fold (b ++ d)
  number_succ {m n : Nat} (h : number m = number n) : number (m + 1) = number (n + 1)
  near_absent : Near .absent .absent
  near_synthetic {a b : String} (h : fold a = fold b) : Near (.synthetic a) (.synthetic b)
  near_withText {f f' : Fragment} {a b : String} (h : Near f f') (h' : fold a = fold b) :
    Near (f.withText a) (f'.withText b)

namespace Likeness

def foldAttribute (P : Likeness) (a : Attribute) : Attribute :=
  { a with name := P.fold a.name }

def foldMarker (P : Likeness) (m : Marker) : Marker :=
  { m with index := P.number m.index }

def foldBinding (P : Likeness) (b : Binding) : Binding :=
  { b with range := P.number b.range }

def foldRef (P : Likeness) (ref : ColumnRef) : ColumnRef :=
  ⟨ref.qualifier.map P.fold, P.fold ref.name, ref.binding.map P.foldBinding⟩

/-- The same texts, wherever they stand. -/
def anywhere : Likeness where
  fold := id
  number := id
  Near _ _ := True
  foldCase_eq h := congrArg Text.foldCase h
  fold_append h h' := congrArg₂ (· ++ ·) h h'
  number_succ h := congrArg (· + 1) h
  near_absent := trivial
  near_synthetic _ := trivial
  near_withText _ _ := trivial

variable {P : Likeness}

theorem foldCase_eq? {a b : Option String} (h : a.map P.fold = b.map P.fold) :
    a.map Text.foldCase = b.map Text.foldCase := by
  cases a <;> cases b <;> simp only [Option.map_none, Option.map_some, reduceCtorEq] at h ⊢
  exact congrArg some (P.foldCase_eq (Option.some.inj h))

theorem foldCase_attribute {a b : Attribute} (h : P.foldAttribute a = P.foldAttribute b) :
    a.foldCase = b.foldCase := by
  obtain ⟨hname, htype⟩ := Attribute.mk.inj h
  exact Attribute.mk.injEq .. ▸ ⟨P.foldCase_eq hname, htype⟩

theorem foldCase_ref {ref ref' : ColumnRef} (h : P.foldRef ref = P.foldRef ref')
    (hbinding : ref'.binding = ref.binding) : ref.foldCase = ref'.foldCase := by
  obtain ⟨hqualifier, hname, -⟩ := ColumnRef.mk.inj h
  simp only [ColumnRef.foldCase, foldCase_eq? hqualifier, P.foldCase_eq hname, hbinding]

/-- Options whose values are folded alike. -/
theorem rel_of_map_eq {α β : Type} {f : α → β} {a b : Option α} (h : a.map f = b.map f) :
    Option.Rel (fun a b => f a = f b) a b := by
  cases a <;> cases b <;> simp only [Option.map_none, Option.map_some, reduceCtorEq] at h
  · exact .none
  · exact .some (Option.some.inj h)

theorem binding_rel {ref ref' : ColumnRef} (h : P.foldRef ref = P.foldRef ref') :
    Option.Rel (fun b b' => P.foldBinding b = P.foldBinding b') ref.binding ref'.binding :=
  rel_of_map_eq (congrArg ColumnRef.binding h)

/-- Bindings that count as the same are to columns of the same type. -/
theorem type_eq {b b' : Binding} (h : P.foldBinding b = P.foldBinding b') : b'.type = b.type :=
  (congrArg Binding.type h).symm

/-- Numbers that count as the same are the same. -/
class Numbered (P : Likeness) : Prop where
  number_injective : Function.Injective P.number

instance : Numbered anywhere :=
  ⟨fun _ _ h => h⟩

theorem foldMarker_injective [P.Numbered] : Function.Injective P.foldMarker := by
  rintro ⟨index, asColumn, writeable⟩ ⟨index', _, _⟩ h
  obtain ⟨hindex, rfl, rfl⟩ := Marker.mk.inj h
  obtain rfl := Numbered.number_injective hindex
  rfl

theorem foldBinding_injective [P.Numbered] : Function.Injective P.foldBinding := by
  rintro ⟨range, column, type, isVariable⟩ ⟨range', _, _, _⟩ h
  obtain ⟨hrange, rfl, rfl, rfl⟩ := Binding.mk.inj h
  obtain rfl := Numbered.number_injective hrange
  rfl

theorem binding_eq [P.Numbered] {ref ref' : ColumnRef} (h : P.foldRef ref = P.foldRef ref') :
    ref'.binding = ref.binding :=
  (Option.map_injective foldBinding_injective (congrArg ColumnRef.binding h)).symm

end Likeness

/-! ## Fragments and tokens -/

/-- Two spellings of a fragment. -/
def Fragment.Respelled (P : Likeness) (f f' : Fragment) : Prop :=
  P.Near f f'

namespace Fragment.Respelled

variable {P : Likeness} {f f' : Fragment}

theorem absent : Fragment.Respelled P .absent .absent :=
  P.near_absent

theorem synthetic {text text' : String} (h : P.fold text = P.fold text') :
    Fragment.Respelled P (.synthetic text) (.synthetic text') :=
  P.near_synthetic h

theorem withText (h : f.Respelled P f') {text text' : String} (ht : P.fold text = P.fold text') :
    (f.withText text).Respelled P (f'.withText text') :=
  P.near_withText h ht

end Fragment.Respelled

/-- Two spellings of a token: only the text of a word may differ. -/
structure Token.Respelled (P : Likeness) (t t' : Token) : Prop where
  kind : t'.kind = t.kind
  text : P.fold t.text = P.fold t'.text
  fragment : t.fragment.Respelled P t'.fragment
  exact : t.kind.isWord = false → t'.text = t.text

namespace Token.Respelled

variable {P : Likeness} {t t' : Token}

theorem isKeyword (h : t.Respelled P t') (k : Keyword) : t'.isKeyword k = t.isKeyword k := by
  simp only [Token.isKeyword, h.kind]

theorem isSymbol (h : t.Respelled P t') (s : Symbol) : t'.isSymbol s = t.isSymbol s := by
  simp only [Token.isSymbol, h.kind]

theorem isIdentifier (h : t.Respelled P t') : t'.isIdentifier = t.isIdentifier := by
  simp only [Token.isIdentifier, h.kind]

end Token.Respelled

/-! ## Expressions, plans and ranges -/

mutual

/-- Two spellings of an expression. -/
inductive Expr.Respelled (P : Likeness) : Expr → Expr → Prop
  | intro {kind kind' : ExprKind} {fragment fragment' : Fragment} {type : Option SqlType}
      (hkind : ExprKind.Respelled P kind kind') (hfragment : fragment.Respelled P fragment') :
      Expr.Respelled P ⟨kind, fragment, type⟩ ⟨kind', fragment', type⟩

inductive ExprKind.Respelled (P : Likeness) : ExprKind → ExprKind → Prop
  | constant (value : Value) : ExprKind.Respelled P (.constant value) (.constant value)
  | parameter {m m' : Marker} (h : P.foldMarker m = P.foldMarker m') :
      ExprKind.Respelled P (.parameter m) (.parameter m')
  | column {ref ref' : ColumnRef} (h : P.foldRef ref = P.foldRef ref') :
      ExprKind.Respelled P (.column ref) (.column ref')
  | defaultMarker : ExprKind.Respelled P .defaultMarker .defaultMarker
  | row {items items' : List Expr} (h : List.Forall₂ (Expr.Respelled P) items items') :
      ExprKind.Respelled P (.row items) (.row items')
  | values {rows rows' : List Expr} (h : List.Forall₂ (Expr.Respelled P) rows rows') :
      ExprKind.Respelled P (.values rows) (.values rows')
  | pending (shape : QueryShape) {body body' : List Token}
      (h : List.Forall₂ (Token.Respelled P) body body') :
      ExprKind.Respelled P (.pending shape body) (.pending shape body')
  | query (shape : QueryShape) {plan plan' : Plan} (h : Plan.Respelled P plan plan') :
      ExprKind.Respelled P (.query shape plan) (.query shape plan')
  | diagnostics (item : DiagnosticsItem) :
      ExprKind.Respelled P (.diagnostics item) (.diagnostics item)
  | unary (op : UnaryOp) {operand operand' : Expr} (h : Expr.Respelled P operand operand') :
      ExprKind.Respelled P (.unary op operand) (.unary op operand')
  | binary (op : BinaryOp) {left left' right right' : Expr} (hl : Expr.Respelled P left left')
      (hr : Expr.Respelled P right right') :
      ExprKind.Respelled P (.binary op left right) (.binary op left' right')
  | isNull {operand operand' : Expr} (h : Expr.Respelled P operand operand') (negated : Bool) :
      ExprKind.Respelled P (.isNull operand negated) (.isNull operand' negated)
  | call {name name' : String} (hname : P.fold name = P.fold name')
      (builtin : Option Builtin) {arguments arguments' : List Expr}
      (h : List.Forall₂ (Expr.Respelled P) arguments arguments') :
      ExprKind.Respelled P (.call name builtin arguments) (.call name' builtin arguments')

/-- Two spellings of a query. -/
inductive Plan.Respelled (P : Likeness) : Plan → Plan → Prop
  | select {columns columns' : List Attribute} {projection projection' : List Expr}
      {ranges ranges' : List Range} {condition condition' : Option Expr}
      (hcolumns : columns.map P.foldAttribute = columns'.map P.foldAttribute)
      (hprojection : List.Forall₂ (Expr.Respelled P) projection projection')
      (hranges : List.Forall₂ (Range.Respelled P) ranges ranges')
      (hcondition : Option.Rel (Expr.Respelled P) condition condition') :
      Plan.Respelled P (.select columns projection ranges condition)
        (.select columns' projection' ranges' condition')
  | values {columns columns' : List Attribute} {rows rows' : Expr}
      (hcolumns : columns.map P.foldAttribute = columns'.map P.foldAttribute)
      (hrows : Expr.Respelled P rows rows') :
      Plan.Respelled P (.values columns rows) (.values columns' rows')

/-- Two spellings of a range. -/
inductive Range.Respelled (P : Likeness) : Range → Range → Prop
  | intro {id id' : Nat} {name name' : String} {source source' : RangeSource}
      {columns columns' : List Attribute} {used : List Bool} {join join' : Option Expr}
      {fragment fragment' : Fragment} (hid : P.number id = P.number id')
      (hname : P.fold name = P.fold name')
      (hsource : RangeSource.Respelled P source source')
      (hcolumns : columns.map P.foldAttribute = columns'.map P.foldAttribute)
      (hjoin : Option.Rel (Expr.Respelled P) join join')
      (hfragment : fragment.Respelled P fragment') :
      Range.Respelled P ⟨id, name, source, columns, used, join, fragment⟩
        ⟨id', name', source', columns', used, join', fragment'⟩

inductive RangeSource.Respelled (P : Likeness) : RangeSource → RangeSource → Prop
  | relation (r : Relation) : RangeSource.Respelled P (.relation r) (.relation r)
  | derived {plan plan' : Plan} (h : Plan.Respelled P plan plan') :
      RangeSource.Respelled P (.derived plan) (.derived plan')
  | routineVariables : RangeSource.Respelled P .routineVariables .routineVariables

end

/-! ## Looking at expressions -/

namespace Expr.Respelled

variable {P : Likeness} {e e' : Expr}

theorem kind (h : e.Respelled P e') : e.kind.Respelled P e'.kind := by
  cases h with
  | intro hkind _ => exact hkind

theorem fragment (h : e.Respelled P e') : e.fragment.Respelled P e'.fragment := by
  cases h with
  | intro _ hfragment => exact hfragment

theorem type (h : e.Respelled P e') : e'.type? = e.type? := by
  cases h with
  | intro => rfl

theorem withType (h : e.Respelled P e') (t : SqlType) :
    (e.withType t).Respelled P (e'.withType t) := by
  cases h with
  | intro hkind hfragment => exact .intro hkind hfragment

theorem untyped {k k' : ExprKind} {f f' : Fragment} (hkind : k.Respelled P k')
    (hfragment : f.Respelled P f') : (Expr.untyped k f).Respelled P (Expr.untyped k' f') :=
  .intro hkind hfragment

theorem literal (value : Value) {f f' : Fragment} (h : f.Respelled P f') :
    (Expr.literal value f).Respelled P (Expr.literal value f') :=
  .intro (.constant value) h

theorem boundColumn {qualifier qualifier' : Option String} {a a' : Attribute}
    {f f' : Fragment} {range range' : Nat} (hrange : P.number range = P.number range')
    (column : Nat) (isVariable : Bool) (hqualifier : qualifier.map P.fold = qualifier'.map P.fold)
    (ha : P.foldAttribute a = P.foldAttribute a') (hf : f.Respelled P f') :
    (Expr.boundColumn qualifier a range column isVariable f).Respelled P
      (Expr.boundColumn qualifier' a' range' column isVariable f') := by
  obtain ⟨hname, htype⟩ := Attribute.mk.inj ha
  have hkind : (ExprKind.column ⟨qualifier, a.name, some ⟨range, column, a.type, isVariable⟩⟩).Respelled
      P (.column ⟨qualifier', a'.name, some ⟨range', column, a'.type, isVariable⟩⟩) := by
    refine .column ?_
    simp only [Likeness.foldRef, Likeness.foldBinding, Option.map_some, hqualifier, hname, htype,
      hrange]
  simp only [Expr.boundColumn, htype] at hkind ⊢
  exact .intro hkind hf

theorem shape (h : e.Respelled P e') : e'.shape = e.shape := by
  obtain ⟨hkind, -⟩ := h
  cases hkind with
  | row h => simp only [Expr.shape, h.length_eq]
  | pending shape _ => cases shape <;> rfl
  | query shape _ => cases shape <;> rfl
  | _ => rfl

theorem isRow (h : e.Respelled P e') : e'.isRow = e.isRow :=
  Bool.eq_iff_iff.2 (by simp only [isRow_iff, h.shape])

theorem isDefault (h : e.Respelled P e') : e'.isDefault = e.isDefault :=
  Bool.eq_iff_iff.2 (by simp only [isDefault_iff, h.shape])

theorem degree (h : e.Respelled P e') : e'.degree = e.degree := by
  rw [degree_eq, degree_eq, h.shape]

theorem isParameter (h : e.Respelled P e') : e'.isParameter = e.isParameter := by
  obtain ⟨hkind, -⟩ := h
  cases hkind <;> rfl

theorem isUntypedParameter (h : e.Respelled P e') :
    e'.isUntypedParameter = e.isUntypedParameter := by
  simp only [Expr.isUntypedParameter, h.isParameter, h.type]

theorem isVariable (h : e.Respelled P e') : e'.isVariable = e.isVariable := by
  obtain ⟨hkind, -⟩ := h
  cases hkind with
  | column h =>
    exact (Likeness.binding_rel h).any_eq fun _ _ h => (congrArg Binding.isVariable h).symm
  | _ => rfl

theorem asColumn (h : e.Respelled P e') (t : SqlType) (writeable : Bool) :
    (e.asColumn t writeable).Respelled P (e'.asColumn t writeable) := by
  obtain ⟨hkind, hfragment⟩ := h
  have hkept := hkind
  cases hkind with
  | @parameter m m' h =>
    refine .intro (.parameter ?_) hfragment
    simp only [Likeness.foldMarker, (Marker.mk.inj h).1]
  | _ => exact .intro hkept hfragment

theorem children (h : e.Respelled P e') :
    List.Forall₂ (Expr.Respelled P) e.children e'.children := by
  obtain ⟨hkind, -⟩ := h
  cases hkind with
  | row h | values h | call _ _ h => exact h
  | unary _ h | isNull h _ => exact .cons h .nil
  | binary _ hl hr => exact .cons hl (.cons hr .nil)
  | _ => exact .nil

end Expr.Respelled

theorem Plan.Respelled.columns {P : Likeness} {p p' : Plan} (h : p.Respelled P p') :
    p.columns.map P.foldAttribute = p'.columns.map P.foldAttribute := by
  cases h with
  | select hcolumns => exact hcolumns
  | values hcolumns => exact hcolumns

section

variable {P : Likeness} {columns columns' : List Attribute}

/-- The spelling of a name does not decide what types there are. -/
theorem types_eq (h : columns.map P.foldAttribute = columns'.map P.foldAttribute) :
    columns'.map (·.type) = columns.map (·.type) := by
  simpa [List.map_map, Function.comp_def, Likeness.foldAttribute] using
    (congrArg (List.map Attribute.type) h).symm

/-- Columns with the same names, one by one. -/
theorem forall₂_columns (h : columns.map P.foldAttribute = columns'.map P.foldAttribute) :
    List.Forall₂ (fun a b => P.foldAttribute a = P.foldAttribute b) columns columns' := by
  rw [← List.forall₂_eq_eq_eq, List.forall₂_map_left_iff, List.forall₂_map_right_iff] at h
  exact h

theorem foldCase_columns (h : columns.map P.foldAttribute = columns'.map P.foldAttribute) :
    columns.map Attribute.foldCase = columns'.map Attribute.foldCase := by
  rw [← List.forall₂_eq_eq_eq, List.forall₂_map_left_iff, List.forall₂_map_right_iff]
  exact (forall₂_columns h).imp fun _ _ => Likeness.foldCase_attribute

end

theorem Plan.Respelled.columnTypes {P : Likeness} {p p' : Plan} (h : p.Respelled P p') :
    p'.columnTypes = p.columnTypes :=
  types_eq h.columns

theorem Plan.Respelled.length {P : Likeness} {p p' : Plan} (h : p.Respelled P p') :
    p'.columns.length = p.columns.length := by
  simpa using (congrArg List.length h.columns).symm

/-! ## Looking at ranges -/

namespace Range.Respelled

variable {P : Likeness} {r r' : Range}

theorem number (h : r.Respelled P r') : P.number r.id = P.number r'.id := by
  cases h with
  | intro hid => exact hid

theorem id [P.Numbered] (h : r.Respelled P r') : r'.id = r.id :=
  (Likeness.Numbered.number_injective h.number).symm

theorem name (h : r.Respelled P r') : P.fold r.name = P.fold r'.name := by
  cases h with
  | intro _ hname => exact hname

theorem source (h : r.Respelled P r') : r.source.Respelled P r'.source := by
  cases h with
  | intro _ _ hsource => exact hsource

theorem columns (h : r.Respelled P r') :
    r.columns.map P.foldAttribute = r'.columns.map P.foldAttribute := by
  cases h with
  | intro _ _ _ hcolumns => exact hcolumns

theorem fragment (h : r.Respelled P r') : r.fragment.Respelled P r'.fragment := by
  cases h with
  | intro _ _ _ _ _ hfragment => exact hfragment

theorem length (h : r.Respelled P r') : r'.columns.length = r.columns.length := by
  simpa using (congrArg List.length h.columns).symm

theorem column (h : r.Respelled P r') {i : Nat} (hi : i < r.columns.length)
    (hi' : i < r'.columns.length) :
    P.foldAttribute r.columns[i] = P.foldAttribute r'.columns[i] := by
  have hcolumn := congrArg (·[i]?) h.columns
  simpa [hi, hi'] using hcolumn

theorem isVariables (h : r.Respelled P r') : r'.isVariables = r.isVariables := by
  obtain ⟨-, -, hsource, -, -, -⟩ := h
  cases hsource <;> rfl

theorem relation? (h : r.Respelled P r') : r'.relation? = r.relation? := by
  obtain ⟨-, -, hsource, -, -, -⟩ := h
  cases hsource <;> rfl

theorem isNamed (h : r.Respelled P r') {q q' : String} (hq : Text.foldCase q = Text.foldCase q') :
    r'.isNamed q' = r.isNamed q := by
  simp only [Range.isNamed, Text.sameName, P.foldCase_eq h.name, hq]

theorem fresh {id id' : Nat} (hid : P.number id = P.number id') {name name' : String}
    {source source' : RangeSource} {columns columns' : List Attribute} {f f' : Fragment}
    (hname : P.fold name = P.fold name') (hsource : source.Respelled P source')
    (hcolumns : columns.map P.foldAttribute = columns'.map P.foldAttribute)
    (hf : f.Respelled P f') :
    (Range.fresh id name source columns f).Respelled P
      (Range.fresh id' name' source' columns' f') := by
  have hused : columns.map (fun _ => false) = columns'.map fun _ => false := by
    simpa [List.map_map, Function.comp_def] using congrArg (List.map fun _ => false) hcolumns
  unfold Range.fresh
  rw [hused]
  exact .intro hid hname hsource hcolumns .none hf

theorem ofRelation {id id' : Nat} (hid : P.number id = P.number id') (relation : Relation)
    {asName asName' : Option String} (hname : asName.map P.fold = asName'.map P.fold)
    {f f' : Fragment} (hf : f.Respelled P f') :
    (Range.ofRelation id relation asName f).Respelled P
      (Range.ofRelation id' relation asName' f') := by
  refine fresh hid ?_ (.relation relation) rfl hf
  cases asName <;> cases asName' <;> simp_all

theorem markAllUsed (h : r.Respelled P r') : r.markAllUsed.Respelled P r'.markAllUsed := by
  obtain ⟨hid, hname, hsource, hcolumns, hjoin, hfragment⟩ := h
  exact .intro hid hname hsource hcolumns hjoin hfragment

end Range.Respelled

/-- What a reference looks at in a range. -/
structure RangeFace where
  id : Nat
  name : String
  columns : List Attribute
  isVariables : Bool

/-- The face of a range in the common spelling. -/
def Likeness.face (P : Likeness) (r : Range) : RangeFace :=
  ⟨P.number r.id, Text.foldCase r.name, r.columns.map Attribute.foldCase, r.isVariables⟩

theorem Range.Respelled.face {P : Likeness} {r r' : Range} (h : r.Respelled P r') :
    P.face r = P.face r' := by
  simp only [Likeness.face, h.number, P.foldCase_eq h.name, foldCase_columns h.columns, h.isVariables]

theorem faces_eq {P : Likeness} {rs rs' : List Range} (h : List.Forall₂ (Range.Respelled P) rs rs') :
    rs.map P.face = rs'.map P.face := by
  induction h with
  | nil => rfl
  | cons h _ ih => simp only [List.map_cons, h.face, ih]

/-! ## Places

Spellings at the same places are the same in the common spelling. -/

/-- Places of a text, by line and column. -/
abbrev Places := Nat → Nat → Prop

/-- All places. -/
def Places.all : Places :=
  fun _ _ => True

/-- Two spellings of a fragment at one place, which is in `P` if it is written. -/
inductive Fragment.SpelledAt (P : Places) : Fragment → Fragment → Prop
  | absent : SpelledAt P .absent .absent
  | written {text text' : String} {line column : Nat} (h : Text.foldCase text = Text.foldCase text')
      (hplace : P line column) : SpelledAt P (.written text line column) (.written text' line column)
  | synthetic {text text' : String} (h : Text.foldCase text = Text.foldCase text') :
      SpelledAt P (.synthetic text) (.synthetic text')

namespace Fragment.SpelledAt

variable {P : Places} {f f' : Fragment}

theorem text (h : f.SpelledAt P f') : Text.foldCase f.text = Text.foldCase f'.text := by
  cases h with
  | absent => rfl
  | written h _ => exact h
  | synthetic h => exact h

theorem withText (h : f.SpelledAt P f') {text text' : String}
    (ht : Text.foldCase text = Text.foldCase text') :
    (f.withText text).SpelledAt P (f'.withText text') := by
  cases h with
  | absent => exact .synthetic ht
  | written _ hplace => exact .written ht hplace
  | synthetic _ => exact .synthetic ht

theorem foldCase_eq (h : f.SpelledAt P f') : f.foldCase = f'.foldCase := by
  cases h with
  | absent => rfl
  | written h _ => simp [foldCase, h]
  | synthetic h => simp [foldCase, h]

theorem of_foldCase_eq (h : f.foldCase = f'.foldCase) : f.SpelledAt .all f' := by
  cases f <;> cases f' <;> simp only [foldCase, reduceCtorEq, written.injEq, synthetic.injEq] at h
  · exact .absent
  · obtain ⟨ht, rfl, rfl⟩ := h
    exact .written ht trivial
  · exact .synthetic h

end Fragment.SpelledAt

/-- The same but for case, at the same places, which are in `P`. -/
def Places.likeness (P : Places) : Likeness where
  fold := Text.foldCase
  number := id
  Near := Fragment.SpelledAt P
  foldCase_eq := id
  fold_append h h' := by rw [Text.foldCase_append, Text.foldCase_append, h, h']
  number_succ h := congrArg (· + 1) h
  near_absent := .absent
  near_synthetic := .synthetic
  near_withText h h' := h.withText h'

instance (P : Places) : P.likeness.Numbered :=
  ⟨fun _ _ h => h⟩

theorem Fragment.Respelled.foldCase_eq {P : Places} {f f' : Fragment}
    (h : f.Respelled P.likeness f') : f.foldCase = f'.foldCase :=
  SpelledAt.foldCase_eq h

namespace Token.Respelled

variable {P : Places} {t t' : Token}

theorem at_place (hkind : t'.kind = t.kind) (hfragment : t.fragment.SpelledAt P t'.fragment)
    (hexact : t.kind.isWord = false → t'.text = t.text) : t.Respelled P.likeness t' :=
  ⟨hkind, hfragment.text, hfragment, hexact⟩

theorem foldCase_eq (h : t.Respelled P.likeness t') : t.foldCase = t'.foldCase := by
  obtain ⟨kind, fragment, spelled⟩ := t
  obtain ⟨kind', fragment', spelled'⟩ := t'
  obtain ⟨hkind, -, hfragment, hexact⟩ := h
  obtain rfl : kind' = kind := hkind
  have hfragment : fragment.SpelledAt P fragment' := hfragment
  unfold Token.foldCase
  split
  · simp [hfragment.foldCase_eq]
  · next hword =>
    have htext : fragment'.text = fragment.text := hexact (by simpa using hword)
    cases hfragment <;> simp_all [Fragment.text]

theorem of_foldCase_eq (h : t.foldCase = t'.foldCase) : t.Respelled Places.all.likeness t' := by
  obtain ⟨kind, fragment, spelled⟩ := t
  obtain ⟨kind', fragment', spelled'⟩ := t'
  unfold Token.foldCase at h
  split at h <;> split at h
  · obtain ⟨rfl, hfragment⟩ := Token.mk.inj h
    exact at_place rfl (.of_foldCase_eq hfragment) fun hexact => by simp_all
  · obtain ⟨rfl, -⟩ := Token.mk.inj h
    contradiction
  · obtain ⟨rfl, -⟩ := Token.mk.inj h
    contradiction
  · obtain ⟨rfl, rfl⟩ := Token.mk.inj h
    exact at_place rfl (.of_foldCase_eq rfl) fun _ => rfl

end Token.Respelled

/-! ## The common spelling -/

theorem foldCase_eq_of_forall₂ {P : Places} {body body' : List Token}
    (h : List.Forall₂ (Token.Respelled P.likeness) body body') :
    body.map Token.foldCase = body'.map Token.foldCase := by
  induction h with
  | nil => rfl
  | cons h _ ih => simp [h.foldCase_eq, ih]

section

variable {P : Places}

mutual

theorem Expr.Respelled.foldCase_eq {e e' : Expr} (h : e.Respelled P.likeness e') :
    e.foldCase = e'.foldCase := by
  cases h with
  | intro hkind hfragment =>
    simp only [Expr.foldCase, ExprKind.Respelled.foldCase_eq hkind, hfragment.foldCase_eq]
termination_by sizeOf e

theorem ExprKind.Respelled.foldCase_eq {k k' : ExprKind} (h : k.Respelled P.likeness k') :
    k.foldCase = k'.foldCase := by
  cases h with
  | constant | defaultMarker | diagnostics => rfl
  | parameter h => rw [Likeness.foldMarker_injective h]
  | column h => simp only [ExprKind.foldCase, Likeness.foldCase_ref h (Likeness.binding_eq h)]
  | row h | values h => simp only [ExprKind.foldCase, Expr.Respelled.foldCase_eqs h]
  | pending _ h => simp only [ExprKind.foldCase, foldCase_eq_of_forall₂ h]
  | query _ h => simp only [ExprKind.foldCase, Plan.Respelled.foldCase_eq h]
  | unary _ h | isNull h _ => simp only [ExprKind.foldCase, Expr.Respelled.foldCase_eq h]
  | binary _ hl hr =>
    simp only [ExprKind.foldCase, Expr.Respelled.foldCase_eq hl, Expr.Respelled.foldCase_eq hr]
  | call hname _ h =>
    simp only [ExprKind.foldCase, P.likeness.foldCase_eq hname, Expr.Respelled.foldCase_eqs h]
termination_by sizeOf k

theorem Expr.Respelled.foldCase_eqs {es es' : List Expr}
    (h : List.Forall₂ (Expr.Respelled P.likeness) es es') :
    Expr.foldCaseOfList es = Expr.foldCaseOfList es' := by
  cases h with
  | nil => rfl
  | cons h hs =>
    simp only [Expr.foldCaseOfList, Expr.Respelled.foldCase_eq h, Expr.Respelled.foldCase_eqs hs]
termination_by sizeOf es

theorem Expr.Respelled.foldCase_eq? {e e' : Option Expr}
    (h : Option.Rel (Expr.Respelled P.likeness) e e') :
    Expr.foldCaseOfOption e = Expr.foldCaseOfOption e' := by
  cases h with
  | none => rfl
  | some h => simp only [Expr.foldCaseOfOption, Expr.Respelled.foldCase_eq h]
termination_by sizeOf e

theorem Plan.Respelled.foldCase_eq {p p' : Plan} (h : p.Respelled P.likeness p') :
    p.foldCase = p'.foldCase := by
  cases h with
  | select hcolumns hprojection hranges hcondition =>
    simp only [Plan.foldCase, foldCase_columns hcolumns, Expr.Respelled.foldCase_eqs hprojection,
      Range.Respelled.foldCase_eqs hranges, Expr.Respelled.foldCase_eq? hcondition]
  | values hcolumns hrows =>
    simp only [Plan.foldCase, foldCase_columns hcolumns, Expr.Respelled.foldCase_eq hrows]
termination_by sizeOf p

theorem Range.Respelled.foldCase_eq {r r' : Range} (h : r.Respelled P.likeness r') :
    r.foldCase = r'.foldCase := by
  cases h with
  | intro hid hname hsource hcolumns hjoin hfragment =>
    simp only [Range.foldCase, Likeness.Numbered.number_injective hid, P.likeness.foldCase_eq hname,
      RangeSource.Respelled.foldCase_eq hsource, foldCase_columns hcolumns,
      Expr.Respelled.foldCase_eq? hjoin, hfragment.foldCase_eq]
termination_by sizeOf r

theorem Range.Respelled.foldCase_eqs {rs rs' : List Range}
    (h : List.Forall₂ (Range.Respelled P.likeness) rs rs') :
    Range.foldCaseOfList rs = Range.foldCaseOfList rs' := by
  cases h with
  | nil => rfl
  | cons h hs =>
    simp only [Range.foldCaseOfList, Range.Respelled.foldCase_eq h, Range.Respelled.foldCase_eqs hs]
termination_by sizeOf rs

theorem RangeSource.Respelled.foldCase_eq {s s' : RangeSource} (h : s.Respelled P.likeness s') :
    s.foldCase = s'.foldCase := by
  cases h with
  | relation | routineVariables => rfl
  | derived h => simp only [RangeSource.foldCase, Plan.Respelled.foldCase_eq h]
termination_by sizeOf s

end

theorem Expr.Respelled.map_foldCase {es es' : List Expr}
    (h : List.Forall₂ (Expr.Respelled P.likeness) es es') :
    es.map Expr.foldCase = es'.map Expr.foldCase := by
  simpa using Expr.Respelled.foldCase_eqs h

theorem Expr.Respelled.map_foldCase? {e e' : Option Expr}
    (h : Option.Rel (Expr.Respelled P.likeness) e e') :
    e.map Expr.foldCase = e'.map Expr.foldCase := by
  simpa using Expr.Respelled.foldCase_eq? h

theorem Range.Respelled.map_foldCase {rs rs' : List Range}
    (h : List.Forall₂ (Range.Respelled P.likeness) rs rs') :
    rs.map Range.foldCase = rs'.map Range.foldCase := by
  simpa using Range.Respelled.foldCase_eqs h

end

end DataChange
