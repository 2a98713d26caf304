import DataChange.Expr.Columns
import DataChange.Proofs.Expr.Shape
import DataChange.Proofs.Expr.Tree

/-!
# Expressions with their columns changed

`mapColumns_ok` says what `mapColumns` does to one node: a column is changed, and the operands and
subqueries of any other node. So the nodes of what comes out are the changed nodes of what went in,
one for one and in the same order, in subqueries too (`nodes_mapColumns`).
-/

namespace DataChange

variable {change : ColumnChange}

/-! ## One node -/

namespace Expr

/-- The second expression is the first with its columns changed. -/
def Moves (change : ColumnChange) (e e' : Expr) : Prop :=
  e.mapColumns change = some e'

/-- Whether a change of columns passes the node itself by. -/
def isFixed (e : Expr) : Bool :=
  match e.kind with
  | .column _ | .query .. => false
  | _ => true

/-- What a change of columns does to one node. -/
inductive MovesNode (change : ColumnChange) : Expr → Expr → Prop
  | column {ref ref' : ColumnRef} {fragment : Fragment} {type type' : Option SqlType}
      (h : change ref type = some (ref', type')) :
      MovesNode change ⟨.column ref, fragment, type⟩ ⟨.column ref', fragment, type'⟩
  | query {shape : QueryShape} {plan plan' : Plan} {fragment : Fragment} {type : Option SqlType}
      (h : plan.mapColumns change = some plan') :
      MovesNode change ⟨.query shape plan, fragment, type⟩ ⟨.query shape plan', fragment, type⟩
  | node (e : Expr) (cs : List Expr) (hk : e.isFixed = true)
      (h : List.Forall₂ (Moves change) e.children cs) : MovesNode change e (e.withChildren cs)

theorem mapColumnsOfList_ok {es es' : List Expr} (h : mapColumnsOfList change es = some es') :
    List.Forall₂ (Moves change) es es' := by
  induction es generalizing es' with
  | nil =>
    cases h
    exact .nil
  | cons e es ih =>
    simp only [mapColumnsOfList] at h
    split at h
    · next e' es' he hes =>
      cases h
      exact .cons he (ih hes)
    · cases h

theorem mapColumns_ok {e e' : Expr} (h : e.mapColumns change = some e') :
    MovesNode change e e' := by
  obtain ⟨kind, fragment, type⟩ := e
  cases kind with
  | column ref =>
    simp only [mapColumns, Option.map_eq_some_iff] at h
    obtain ⟨⟨ref', type'⟩, hc, rfl⟩ := h
    exact .column hc
  | query shape plan =>
    simp only [mapColumns, Option.map_eq_some_iff] at h
    obtain ⟨plan', hp, rfl⟩ := h
    exact .query hp
  | row items | values items | call _ _ items =>
    simp only [mapColumns, Option.map_eq_some_iff] at h
    obtain ⟨items', hi, rfl⟩ := h
    exact .node _ items' rfl (mapColumnsOfList_ok hi)
  | unary op operand =>
    simp only [mapColumns, Option.map_eq_some_iff] at h
    obtain ⟨operand', ho, rfl⟩ := h
    exact .node ⟨.unary op operand, fragment, type⟩ [operand'] rfl (.cons ho .nil)
  | isNull operand negated =>
    simp only [mapColumns, Option.map_eq_some_iff] at h
    obtain ⟨operand', ho, rfl⟩ := h
    exact .node ⟨.isNull operand negated, fragment, type⟩ [operand'] rfl (.cons ho .nil)
  | binary op left right =>
    simp only [mapColumns] at h
    split at h
    · next left' right' hl hr =>
      cases h
      exact .node ⟨.binary op left right, fragment, type⟩ [left', right'] rfl
        (.cons hl (.cons hr .nil))
    · cases h
  | constant | parameter | defaultMarker | pending | diagnostics =>
    cases h
    exact .node _ [] rfl .nil

/-- The operands are changed one for one. -/
theorem Moves.children {e e' : Expr} (h : e.Moves change e') :
    List.Forall₂ (Moves change) e.children e'.children := by
  cases mapColumns_ok h with
  | column => exact .nil
  | query => exact .nil
  | node _ cs hk hcs =>
    rw [children_withChildren hcs.length_eq.symm]
    exact hcs

/-- A change of columns keeps the shape of an expression. -/
theorem Moves.alike {e e' : Expr} (h : e.Moves change e') : Alike e e' := by
  induction e using induct generalizing e' with
  | h e ih =>
    cases mapColumns_ok h with
    | column => exact .intro rfl .nil
    | @query shape => exact .intro (by cases shape <;> rfl) .nil
    | node _ cs hk hcs =>
      refine .withChildren (((List.forall₂_and_left _ _).2 ⟨fun c hc => hc, hcs⟩).imp ?_)
      rintro c c' ⟨hc, hm⟩
      exact ih c hc hm

theorem Moves.isUntypedParameter {e e' : Expr} (h : e.Moves change e') :
    e'.isUntypedParameter = e.isUntypedParameter := by
  cases mapColumns_ok h with
  | column => rfl
  | query => rfl
  | node _ cs => exact isUntypedParameter_withChildren e cs

end Expr

/-! ## Plans -/

/-- What a change of columns does to an expression that may be missing. -/
inductive Expr.MovesOption (change : ColumnChange) : Option Expr → Option Expr → Prop
  | none : MovesOption change none none
  | some {e e' : Expr} (h : e.Moves change e') : MovesOption change (some e) (some e')

/-- What a change of columns does to a range. -/
def Range.Moves (change : ColumnChange) (r r' : Range) : Prop :=
  ∃ join, Expr.MovesOption change r.join join ∧ r' = { r with join := join }

/-- What a change of columns does to a query. -/
inductive Plan.Moves (change : ColumnChange) : Plan → Plan → Prop
  | select {columns : List Attribute} {projection projection' : List Expr}
      {ranges ranges' : List Range} {condition condition' : Option Expr}
      (hp : List.Forall₂ (Expr.Moves change) projection projection')
      (hr : List.Forall₂ (Range.Moves change) ranges ranges')
      (hc : Expr.MovesOption change condition condition') :
      Plan.Moves change (.select columns projection ranges condition)
        (.select columns projection' ranges' condition')
  | values {columns : List Attribute} {rows rows' : Expr} (h : rows.Moves change rows') :
      Plan.Moves change (.values columns rows) (.values columns rows')

theorem Expr.mapColumnsOfOption_ok {e e' : Option Expr} (h : mapColumnsOfOption change e = some e') :
    MovesOption change e e' := by
  cases e with
  | none =>
    cases h
    exact .none
  | some e =>
    simp only [mapColumnsOfOption, Option.map_eq_some_iff] at h
    obtain ⟨e', he, rfl⟩ := h
    exact .some he

theorem Range.mapColumnsOfList_ok {rs rs' : List Range}
    (h : Range.mapColumnsOfList change rs = some rs') : List.Forall₂ (Range.Moves change) rs rs' := by
  induction rs generalizing rs' with
  | nil =>
    cases h
    exact .nil
  | cons r rs ih =>
    simp only [Range.mapColumnsOfList] at h
    split at h
    · next r' rs' hr hrs =>
      cases h
      refine .cons ?_ (ih hrs)
      obtain ⟨id, name, source, columns, used, join, fragment⟩ := r
      simp only [Range.mapColumns, Option.map_eq_some_iff] at hr
      obtain ⟨join', hj, rfl⟩ := hr
      exact ⟨join', Expr.mapColumnsOfOption_ok hj, rfl⟩
    · cases h

theorem Plan.mapColumns_ok {p p' : Plan} (h : p.mapColumns change = some p') :
    p.Moves change p' := by
  cases p with
  | select columns projection ranges condition =>
    simp only [Plan.mapColumns] at h
    split at h
    · next projection' ranges' condition' hp hr hc =>
      cases h
      exact .select (Expr.mapColumnsOfList_ok hp) (Range.mapColumnsOfList_ok hr)
        (Expr.mapColumnsOfOption_ok hc)
    · cases h
  | values columns rows =>
    simp only [Plan.mapColumns, Option.map_eq_some_iff] at h
    obtain ⟨rows', hr, rfl⟩ := h
    exact .values hr

theorem Expr.MovesOption.forall₂ {o o' : Option Expr} (h : MovesOption change o o') :
    List.Forall₂ (Moves change) o.toList o'.toList := by
  cases h with
  | none => exact .nil
  | some h => exact .cons h .nil

theorem Range.forall₂_joins {rs rs' : List Range} (h : List.Forall₂ (Range.Moves change) rs rs') :
    List.Forall₂ (Expr.Moves change) (rs.flatMap (·.join.toList)) (rs'.flatMap (·.join.toList)) := by
  induction h with
  | nil => exact .nil
  | cons hr _ ih =>
    obtain ⟨join, hj, rfl⟩ := hr
    exact List.rel_append hj.forall₂ ih

/-- Ranges with their join conditions changed have the same headings. -/
theorem Range.headings_moves {rs rs' : List Range} (h : List.Forall₂ (Range.Moves change) rs rs') :
    rs'.map Range.heading = rs.map Range.heading := by
  induction h with
  | nil => rfl
  | cons hr _ ih =>
    obtain ⟨join, -, rfl⟩ := hr
    simp [ih, Range.heading]

namespace Plan

variable {plan plan' : Plan}

/-- The expressions of a query are changed one for one. -/
theorem Moves.exprs (h : plan.Moves change plan') :
    List.Forall₂ (Expr.Moves change) plan.exprs plan'.exprs := by
  cases h with
  | select hp hr hc =>
    exact List.rel_append (List.rel_append hp (Range.forall₂_joins hr)) hc.forall₂
  | values h => exact .cons h .nil

theorem Moves.columns (h : plan.Moves change plan') : plan'.columns = plan.columns := by
  cases h <;> rfl

theorem Moves.headings (h : plan.Moves change plan') : plan'.headings = plan.headings := by
  cases h with
  | select _ hr _ => exact Range.headings_moves hr
  | values _ => rfl

end Plan

/-! ## All nodes -/

/-- What is moved node by node is moved expression by expression. -/
theorem Expr.forall₂_nodes {es es' : List Expr} (h : List.Forall₂ (Expr.Moves change) es es')
    (ih : ∀ e ∈ es, ∀ e', e.Moves change e' → List.Forall₂ (Expr.Moves change) e.nodes e'.nodes) :
    List.Forall₂ (Expr.Moves change) (es.flatMap nodes) (es'.flatMap nodes) := by
  induction h with
  | nil => exact .nil
  | cons he _ ihs =>
    simp only [List.flatMap_cons]
    exact List.rel_append (ih _ (by simp) _ he) (ihs fun e he => ih e (by simp [he]))

theorem nodes_moves :
    (∀ e e' : Expr, e.Moves change e' → List.Forall₂ (Expr.Moves change) e.nodes e'.nodes) ∧
    ∀ p p' : Plan, p.mapColumns change = some p' →
      List.Forall₂ (Expr.Moves change) p.nodes p'.nodes := by
  refine deepInduct ⟨?_, ?_⟩
  · intro e hcs hp e' h
    have hself : List.Forall₂ (Expr.Moves change) [e] [e'] := .cons h .nil
    rw [Expr.nodes_eq, Expr.nodes_eq]
    cases Expr.mapColumns_ok h with
    | column => exact hself
    | query hq => exact List.rel_append (hp _ _ rfl _ hq) hself
    | node _ cs hk hn =>
      have hplan : e.planNodes = [] := by
        unfold Expr.planNodes
        unfold Expr.isFixed at hk
        split at hk <;> simp_all
      rw [Expr.children_withChildren hn.length_eq.symm, Expr.planNodes_withChildren, hplan]
      exact List.rel_append (List.rel_append (Expr.forall₂_nodes hn hcs) .nil) hself
  · intro p hes p' h
    rw [Plan.nodes_eq, Plan.nodes_eq]
    exact Expr.forall₂_nodes (Plan.mapColumns_ok h).exprs hes

theorem Expr.nodes_mapColumns {e e' : Expr} (h : e.mapColumns change = some e') :
    List.Forall₂ (Expr.Moves change) e.nodes e'.nodes :=
  nodes_moves.1 e e' h

end DataChange
