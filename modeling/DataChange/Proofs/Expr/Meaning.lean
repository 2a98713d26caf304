import DataChange.Proofs.Expr.Redirected

/-!
# The meaning of expressions

An `Evaluator` says what the nodes of expressions mean, given what their operands mean. A column is
read from a valuation of the columns of ranges, and the expressions of a subquery see rows of the
ranges of the subquery as well. A redirected expression means what it meant, if the valuation
before gives at the range that is redirected what the valuation after gives at the columns of the
target (`eval_redirect`); for this the ranges of subqueries must be neither of the two.
-/

namespace DataChange

/-- The values of the columns of ranges, by the id of the range and the ordinal of the column. -/
abbrev Valuation (V : Type) := Nat → Nat → V

/-- A node without its operands. -/
inductive NodeForm where
  | constant (value : Value)
  | defaultMarker
  | row
  | values
  | pending (shape : QueryShape) (body : List Token)
  | diagnostics (item : DiagnosticsItem)
  | unary (op : UnaryOp)
  | binary (op : BinaryOp)
  | isNull (negated : Bool)
  | call (name : String) (builtin : Option Builtin)

/-- What the expressions of a query give for one row of each of its ranges. -/
structure SelectValues (V : Type) where
  projection : List V
  joins : List (Option V)
  condition : Option V

/-- What the nodes of expressions mean. -/
structure Evaluator (V : Type) where
  /-- The value of a column that is not there. -/
  missing : V
  /-- The value of a parameter, by its index. -/
  parameter : Nat → V
  /-- The value of a node with a type, from those of its operands. -/
  node : NodeForm → Option SqlType → List V → V
  /-- The value of a subquery with some columns and ranges, from what its expressions give for
  all rows of its ranges. -/
  select : QueryShape → List Attribute → List Range → (Valuation V → SelectValues V) → V
  /-- The value of a subquery that lists its rows. -/
  values : QueryShape → List Attribute → V → V

variable {V : Type}

/-- The valuation that takes some ranges from another one. -/
def Valuation.under (ρ : Valuation V) (ids : List Nat) (rows : Valuation V) : Valuation V :=
  fun id => if id ∈ ids then rows id else ρ id

/-- The range without its join condition. -/
def Range.unjoined (r : Range) : Range :=
  { r with join := none }

mutual

/-- The value of an expression. -/
def Expr.eval (E : Evaluator V) : Expr → Valuation V → V
  | ⟨kind, _, type⟩, ρ => ExprKind.eval E kind type ρ

def ExprKind.eval (E : Evaluator V) : ExprKind → Option SqlType → Valuation V → V
  | .constant value, type, _ => E.node (.constant value) type []
  | .parameter marker, _, _ => E.parameter marker.index
  | .column ref, _, ρ =>
    match ref.binding with
    | some b => ρ b.range b.column
    | none => E.missing
  | .defaultMarker, type, _ => E.node .defaultMarker type []
  | .row items, type, ρ => E.node .row type (Expr.evalOfList E items ρ)
  | .values rows, type, ρ => E.node .values type (Expr.evalOfList E rows ρ)
  | .pending shape body, type, _ => E.node (.pending shape body) type []
  | .query shape plan, _, ρ => Plan.eval E plan shape ρ
  | .diagnostics item, type, _ => E.node (.diagnostics item) type []
  | .unary op operand, type, ρ => E.node (.unary op) type [Expr.eval E operand ρ]
  | .binary op left right, type, ρ =>
    E.node (.binary op) type [Expr.eval E left ρ, Expr.eval E right ρ]
  | .isNull operand negated, type, ρ => E.node (.isNull negated) type [Expr.eval E operand ρ]
  | .call name builtin arguments, type, ρ =>
    E.node (.call name builtin) type (Expr.evalOfList E arguments ρ)

def Expr.evalOfList (E : Evaluator V) : List Expr → Valuation V → List V
  | [], _ => []
  | e :: es, ρ => Expr.eval E e ρ :: Expr.evalOfList E es ρ

def Expr.evalOfOption (E : Evaluator V) : Option Expr → Valuation V → Option V
  | none, _ => none
  | some e, ρ => some (Expr.eval E e ρ)

/-- The value of a subquery. -/
def Plan.eval (E : Evaluator V) : Plan → QueryShape → Valuation V → V
  | .select columns projection ranges condition, shape, ρ =>
    E.select shape columns (ranges.map Range.unjoined) fun rows =>
      { projection := Expr.evalOfList E projection (ρ.under (ranges.map (·.id)) rows)
        joins := Range.evalOfList E ranges (ρ.under (ranges.map (·.id)) rows)
        condition := Expr.evalOfOption E condition (ρ.under (ranges.map (·.id)) rows) }
  | .values columns rows, shape, ρ => E.values shape columns (Expr.eval E rows ρ)

/-- The value of the join condition of a range. -/
def Range.eval (E : Evaluator V) : Range → Valuation V → Option V
  | ⟨_, _, _, _, _, join, _⟩, ρ => Expr.evalOfOption E join ρ

def Range.evalOfList (E : Evaluator V) : List Range → Valuation V → List (Option V)
  | [], _ => []
  | r :: rs, ρ => Range.eval E r ρ :: Range.evalOfList E rs ρ

end

variable {E : Evaluator V} {ρ ρ' : Valuation V}

/-! ## One node -/

namespace Expr

/-- Expressions that mean the same, one for one. -/
theorem evalOfList_congr {es es' : List Expr}
    (h : List.Forall₂ (fun e e' => e'.eval E ρ' = e.eval E ρ) es es') :
    evalOfList E es' ρ' = evalOfList E es ρ := by
  induction h with
  | nil => rfl
  | cons he _ ih => simp only [evalOfList, he, ih]

/-- A node of which only the operands are replaced means the same if they do. -/
theorem eval_withChildren {e : Expr} {cs : List Expr} (hk : e.isFixed = true)
    (h : List.Forall₂ (fun c c' => c'.eval E ρ' = c.eval E ρ) e.children cs) :
    (e.withChildren cs).eval E ρ' = e.eval E ρ := by
  obtain ⟨kind, fragment, type⟩ := e
  cases kind with
  | row | values | call =>
    simp only [withChildren, ExprKind.withChildren, eval, ExprKind.eval, evalOfList_congr h,
      children]
  | unary | isNull =>
    obtain _ | ⟨hc, _ | _⟩ := h
    simp only [withChildren, ExprKind.withChildren, eval, ExprKind.eval, hc]
  | binary op left right =>
    obtain _ | ⟨hl, _ | ⟨hr, _ | _⟩⟩ := h
    simp only [withChildren, ExprKind.withChildren, eval, ExprKind.eval, hl, hr]
  | column | query => cases hk
  | _ => rfl

theorem eval_column {ref : ColumnRef} {b : Binding} {fragment : Fragment} {type : Option SqlType}
    (h : ref.binding = some b) : eval E ⟨.column ref, fragment, type⟩ ρ = ρ b.range b.column := by
  simp only [eval, ExprKind.eval, h]

/-- Becoming the value of a column does not change what a parameter means. -/
@[simp] theorem eval_asColumn (e : Expr) (t : SqlType) (writeable : Bool) :
    (e.asColumn t writeable).eval E ρ = e.eval E ρ := by
  obtain ⟨kind, fragment, type⟩ := e
  cases kind <;> rfl

end Expr

/-! ## Redirected expressions -/

/-- The first valuation shows at the range `source` the columns of the range `target` in the second
one that the map leads to. Of all else that is visible the two give the same. -/
def Valuation.Shows (ρ ρ' : Valuation V) (source target : Nat) (columnMap : List Nat)
    (visible : List Heading) : Prop :=
  ∀ h ∈ visible, ∀ column < h.2.length,
    (h.1 = source → ∃ ordinal, columnMap[column]? = some ordinal ∧
      ρ source column = ρ' target ordinal) ∧
    (h.1 ≠ source → ρ h.1 column = ρ' h.1 column)

section

variable {I : Nat → Prop} {source : Nat} {target : Range} {columnMap : List Nat}

/-- Inside a subquery the rows of its ranges are visible too. -/
theorem Valuation.Shows.under {visible : List Heading} {ranges : List Range}
    (h : ρ.Shows ρ' source target.id columnMap visible) (hsource : ¬ I source)
    (htarget : ¬ I target.id) (hown : ∀ x ∈ ranges.map Range.heading, I x.1) (rows : Valuation V) :
    (ρ.under (ranges.map (·.id)) rows).Shows (ρ'.under (ranges.map (·.id)) rows) source target.id
      columnMap (ranges.map Range.heading ++ visible) := by
  have hids : ∀ id ∈ ranges.map (·.id), I id := by
    intro id hid
    obtain ⟨r, hr, rfl⟩ := List.mem_map.1 hid
    exact hown r.heading (List.mem_map_of_mem hr)
  have hs : source ∉ ranges.map (·.id) := fun hmem => hsource (hids _ hmem)
  have ht : target.id ∉ ranges.map (·.id) := fun hmem => htarget (hids _ hmem)
  intro x hx column hcolumn
  rcases List.mem_append.1 hx with hx | hx
  · have hmem : x.1 ∈ ranges.map (·.id) := by
      obtain ⟨r, hr, rfl⟩ := List.mem_map.1 hx
      exact List.mem_map_of_mem hr
    refine ⟨fun hsx => absurd (hsx ▸ hmem) hs, fun _ => ?_⟩
    simp only [Valuation.under, if_pos hmem]
  · obtain ⟨hat, hother⟩ := h x hx column hcolumn
    refine ⟨fun hsx => ?_, fun hne => ?_⟩
    · simpa only [Valuation.under, if_neg hs, if_neg ht] using hat hsx
    · by_cases hmem : x.1 ∈ ranges.map (·.id)
      · simp only [Valuation.under, if_pos hmem]
      · simpa only [Valuation.under, if_neg hmem] using hother hne

/-- A redirected column is read where the map leads. -/
theorem eval_redirect_column {visible : List Heading} {ref ref' : ColumnRef} {b : Binding}
    {fragment : Fragment} {type type' : Option SqlType}
    (hshows : ρ.Shows ρ' source target.id columnMap visible) (hb : ref.binding = some b)
    (hin : b.In visible) (h : ColumnRef.redirect source target columnMap ref type = some (ref', type')) :
    Expr.eval E ⟨.column ref', fragment, type'⟩ ρ' = Expr.eval E ⟨.column ref, fragment, type⟩ ρ := by
  obtain ⟨columns, column, hmem, hcolumn, -⟩ := hin
  obtain ⟨hat, hother⟩ := hshows _ hmem b.column (List.getElem?_eq_some_iff.1 hcolumn).1
  rw [Expr.eval_column hb]
  unfold ColumnRef.redirect at h
  rw [hb] at h
  dsimp only at h
  split at h
  · next hsource =>
    obtain ⟨ordinal, hordinal, hvalue⟩ := hat hsource
    rw [hordinal] at h
    dsimp only at h
    split at h
    · cases h
    · cases h
      rw [Expr.eval_column rfl, hsource, hvalue]
  · next hne =>
    cases h
    rw [Expr.eval_column hb, hother hne]

theorem Range.unjoined_moves {rs rs' : List Range} {change : ColumnChange}
    (h : List.Forall₂ (Range.Moves change) rs rs') :
    rs'.map Range.unjoined = rs.map Range.unjoined := by
  induction h with
  | nil => rfl
  | cons hr _ ih =>
    obtain ⟨join, -, rfl⟩ := hr
    simp only [List.map_cons, ih, Range.unjoined]

theorem evalOfOption_congr {e e' : Option Expr} {change : ColumnChange}
    (h : Expr.MovesOption change e e')
    (ih : ∀ c, e = some c → ∀ c', c.Moves change c' → c'.eval E ρ' = c.eval E ρ) :
    Expr.evalOfOption E e' ρ' = Expr.evalOfOption E e ρ := by
  cases h with
  | none => rfl
  | some h => simp only [Expr.evalOfOption, ih _ rfl _ h]

theorem Range.evalOfList_congr {rs rs' : List Range} {change : ColumnChange}
    (h : List.Forall₂ (Range.Moves change) rs rs')
    (ih : ∀ r ∈ rs, ∀ c, r.join = some c → ∀ c', c.Moves change c' → c'.eval E ρ' = c.eval E ρ) :
    Range.evalOfList E rs' ρ' = Range.evalOfList E rs ρ := by
  induction h with
  | nil => rfl
  | @cons r r' rs rs' hr _ ihs =>
    obtain ⟨join, hj, rfl⟩ := hr
    obtain ⟨id, name, kind, columns, used, join₀, fragment⟩ := r
    have hjoin := evalOfOption_congr hj (ih _ (by simp))
    simp only [Range.evalOfList, Range.eval, hjoin, ihs fun r hr => ih r (by simp [hr])]

/-- The operands, one for one. -/
theorem forall₂_moves {change : ColumnChange} {es es' : List Expr}
    (h : List.Forall₂ (Expr.Moves change) es es')
    (ih : ∀ e ∈ es, ∀ e', e.Moves change e' → e'.eval E ρ' = e.eval E ρ) :
    List.Forall₂ (fun e e' => e'.eval E ρ' = e.eval E ρ) es es' := by
  induction h with
  | nil => exact .nil
  | cons he _ ihs => exact .cons (ih _ (by simp) _ he) (ihs fun e he => ih e (by simp [he]))

theorem eval_moves (E : Evaluator V) (hsource : ¬ I source) (htarget : ¬ I target.id) :
    (∀ e : Expr, ∀ visible ρ ρ' e', ρ.Shows ρ' source target.id columnMap visible →
      e.Resolved I visible → e.Moves (ColumnRef.redirect source target columnMap) e' →
      e'.eval E ρ' = e.eval E ρ) ∧
    ∀ plan : Plan, ∀ visible ρ ρ' plan' shape, ρ.Shows ρ' source target.id columnMap visible →
      plan.Resolved I visible →
      plan.mapColumns (ColumnRef.redirect source target columnMap) = some plan' →
      plan'.eval E shape ρ' = plan.eval E shape ρ := by
  -- on expressions and plans at once: a subquery is evaluated under its own ranges as well
  refine deepInduct ⟨?_, ?_⟩
  · intro e hcs hp visible ρ ρ' e' hshows hr hm
    cases Expr.mapColumns_ok hm with
    | column hc =>
      obtain ⟨b, hb, hin, -⟩ := hr.node.column _ rfl
      exact eval_redirect_column hshows hb hin hc
    | query hq => exact hp _ _ rfl _ _ _ _ _ hshows (hr.subquery rfl) hq
    | node _ cs hk hn =>
      refine Expr.eval_withChildren hk (forall₂_moves hn fun c hc c' hcm => ?_)
      exact hcs c hc _ _ _ _ hshows (hr.children c hc) hcm
  · intro plan hes visible ρ ρ' plan' shape hshows hr hm
    cases Plan.mapColumns_ok hm with
    | values hrm =>
      have hrows := hr.throughout.exprs _ (List.mem_singleton_self _)
      simp only [Plan.eval, hes _ (List.mem_singleton_self _) _ _ _ _ hshows hrows hrm]
    | @select columns projection projection' ranges ranges' condition condition' hpm hrm hcm =>
      -- moving changes what the columns refer to, not which ranges the plan has
      have hids : ranges'.map (·.id) = ranges.map (·.id) := by
        have hheadings := congrArg (List.map Prod.fst) (Range.headings_moves hrm)
        simp only [List.map_map] at hheadings
        exact hheadings
      simp only [Plan.eval, hids, Range.unjoined_moves hrm]
      congr 1
      funext rows
      have heval : ∀ e ∈ Plan.exprs (.select columns projection ranges condition), ∀ e',
          e.Moves (ColumnRef.redirect source target columnMap) e' →
          e'.eval E (ρ'.under (ranges.map (·.id)) rows) =
            e.eval E (ρ.under (ranges.map (·.id)) rows) := fun e he e' hem =>
        hes e he _ _ _ _ (hshows.under hsource htarget hr.own rows)
          (hr.throughout.exprs e he) hem
      simp only [Plan.exprs, List.mem_append, List.mem_flatMap, Option.mem_toList] at heval
      congr 1
      · exact Expr.evalOfList_congr (forall₂_moves hpm fun e he => heval e (.inl (.inl he)))
      · exact Range.evalOfList_congr hrm fun r hr e he => heval e (.inl (.inr ⟨r, hr, he⟩))
      · exact evalOfOption_congr hcm fun e he => heval e (.inr he)

/-- A redirected expression means what it meant. -/
theorem Expr.eval_redirect {visible : List Heading} {e e' : Expr}
    (h : e.redirect source target columnMap = some e')
    (hshows : ρ.Shows ρ' source target.id columnMap visible) (he : e.Resolved I visible)
    (hsource : ¬ I source) (htarget : ¬ I target.id) : e'.eval E ρ' = e.eval E ρ :=
  (eval_moves E hsource htarget).1 e visible ρ ρ' e' hshows he h

end

end DataChange
