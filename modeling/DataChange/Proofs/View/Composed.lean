import DataChange.Proofs.Expr.Moved
import DataChange.Proofs.View.Refused

/-!
# Columns redirected layer by layer

The filter of a view is moved over to the base of the view, then to the base of that, one layer
after the other; an expression of the statement is moved once, along the composed column map. Both
come to the same expression (`Expr.redirect_redirect`), since two changes of columns in a row are
one change in every node, in subqueries too (`mapColumns_mapColumns`). Nothing but column references
is changed on the way: `Expr.Rebound` says so node by node, whatever it is that changes them
(`rebound_of_moves`).
-/

namespace DataChange

/-! ## One change after another -/

section

variable {first second both change : ColumnChange}

/-- On the column references among some nodes, the first change and then the second do what `both`
does. -/
def ColumnChange.Composes (first second both : ColumnChange) (nodes : List Expr) : Prop :=
  ∀ n ∈ nodes, ∀ ref ref' type', n.kind = .column ref →
    first ref n.type? = some (ref', type') → second ref' type' = both ref n.type?

theorem ColumnChange.Composes.of_subset {nodes nodes' : List Expr}
    (h : Composes first second both nodes) (hsub : nodes' ⊆ nodes) :
    Composes first second both nodes' :=
  fun n hn => h n (hsub hn)

namespace Expr

theorem withChildren_children (e : Expr) : e.withChildren e.children = e := by
  obtain ⟨kind, fragment, type⟩ := e
  cases kind <;> rfl

/-- A node that is passed by keeps what it is and gets the changed operands. -/
theorem mapColumns_withChildren {e : Expr} {cs : List Expr} (hk : e.isFixed = true)
    (hcs : cs.length = e.children.length) :
    (e.withChildren cs).mapColumns change =
      (mapColumnsOfList change cs).map e.withChildren := by
  obtain ⟨kind, fragment, type⟩ := e
  cases kind with
  | column | query => cases hk
  | row | values | call => simp [withChildren, ExprKind.withChildren, mapColumns]; rfl
  | unary | isNull =>
    obtain ⟨c, rfl⟩ := List.length_eq_one_iff.1 hcs
    cases h : c.mapColumns change <;>
      simp [withChildren, ExprKind.withChildren, mapColumns, mapColumnsOfList, h]
  | binary =>
    obtain ⟨c, d, rfl⟩ := List.length_eq_two.1 hcs
    cases hc : c.mapColumns change <;> cases hd : d.mapColumns change <;>
      simp [withChildren, ExprKind.withChildren, mapColumns, mapColumnsOfList, hc, hd]
  | constant | parameter | defaultMarker | pending | diagnostics =>
    obtain rfl := List.length_eq_zero_iff.1 hcs
    rfl

/-- Expressions that are changed alike one by one are changed alike as a list. -/
theorem mapColumnsOfList_congr {es es' : List Expr}
    (h : List.Forall₂ (fun e e' => e'.mapColumns second = e.mapColumns both) es es') :
    mapColumnsOfList second es' = mapColumnsOfList both es := by
  induction h with
  | nil => rfl
  | cons he _ ih => simp only [mapColumnsOfList, he, ih]

end Expr

theorem Range.mapColumnsOfList_congr {rs rs' : List Range}
    (h : List.Forall₂ (fun r r' => r'.mapColumns second = r.mapColumns both) rs rs') :
    mapColumnsOfList second rs' = mapColumnsOfList both rs := by
  induction h with
  | nil => rfl
  | cons hr _ ih => simp only [mapColumnsOfList, hr, ih]

theorem Expr.MovesOption.composes {o o' : Option Expr} (h : MovesOption first o o')
    (ih : ∀ e ∈ o, ∀ e', e.Moves first e' → e'.mapColumns second = e.mapColumns both) :
    mapColumnsOfOption second o' = mapColumnsOfOption both o := by
  cases h with
  | none => rfl
  | some h => simp only [mapColumnsOfOption, ih _ rfl _ h]

theorem Range.Moves.composes {r r' : Range} (h : r.Moves first r')
    (ih : ∀ e ∈ r.join, ∀ e', e.Moves first e' → e'.mapColumns second = e.mapColumns both) :
    r'.mapColumns second = r.mapColumns both := by
  obtain ⟨id, name, source, columns, used, join, fragment⟩ := r
  obtain ⟨join', hj, rfl⟩ := h
  simp only [mapColumns, hj.composes ih]

/-- Two changes in a row do what one change does that does the same on every reference. -/
theorem mapColumns_mapColumns :
    (∀ e e' : Expr, e.Moves first e' → first.Composes second both e.nodes →
      e'.mapColumns second = e.mapColumns both) ∧
    ∀ p p' : Plan, p.mapColumns first = some p' → first.Composes second both p.nodes →
      p'.mapColumns second = p.mapColumns both := by
  -- on expressions and plans at once, since a subquery holds expressions again
  refine deepInduct ⟨?_, ?_⟩
  · intro e hcs hp e' h hcomp
    cases Expr.mapColumns_ok h with
    | @column ref ref' fragment type type' hc =>
      have hnode := hcomp _ (Expr.self_mem_nodes _) ref ref' type' rfl hc
      simp only [Expr.mapColumns, hnode]
    | @query shape plan plan' fragment type hq =>
      have hplan := hp shape plan rfl plan' hq
        (hcomp.of_subset fun n hn => Expr.mem_nodes.2 (.inr (.inl ⟨shape, plan, rfl, hn⟩)))
      simp only [Expr.mapColumns, hplan]
    | node _ cs hk hn =>
      have hsame := Expr.mapColumnsOfList_congr <| forall₂_imp_mem hn fun c hc c' _ hm =>
        hcs c hc c' hm (hcomp.of_subset fun n hn => Expr.mem_nodes.2 (.inl ⟨c, hc, hn⟩))
      rw [Expr.mapColumns_withChildren hk hn.length_eq.symm, hsame,
        ← Expr.mapColumns_withChildren hk rfl, Expr.withChildren_children]
  · intro p hes p' h hcomp
    rw [Plan.nodes_eq] at hcomp
    have hexpr : ∀ e ∈ p.exprs, ∀ e', e.Moves first e' →
        e'.mapColumns second = e.mapColumns both := fun e he e' hm =>
      hes e he e' hm (hcomp.of_subset fun n hn => List.mem_flatMap.2 ⟨e, he, hn⟩)
    cases Plan.mapColumns_ok h with
    | @select columns projection projection' ranges ranges' condition condition' hp hr hc =>
      have hprojection := Expr.mapColumnsOfList_congr <| forall₂_imp_mem hp fun e he e' _ =>
        hexpr e (by simp [Plan.exprs, he]) e'
      have hranges := Range.mapColumnsOfList_congr <|
        forall₂_imp_mem hr fun r hr r' _ hm => hm.composes fun e he => hexpr e (by
          simp only [Plan.exprs, List.mem_append, List.mem_flatMap, Option.mem_toList]
          exact .inl (.inr ⟨r, hr, he⟩))
      have hcondition := hc.composes fun e he =>
        hexpr e (by simp [Plan.exprs, Option.mem_def.1 he])
      simp only [Plan.mapColumns, hprojection, hranges, hcondition]
    | values hrows => simp only [Plan.mapColumns, hexpr _ (List.mem_singleton_self _) _ hrows]

end

/-! ## What is not changed -/

mutual

/-- Two expressions that differ in their column references only, where each reference and its type are
related to those in the same place. All other nodes, the types of these, the fragments of all nodes
and the queries around them are the same. -/
inductive Expr.Rebound (R : ColumnRef × Option SqlType → ColumnRef × Option SqlType → Prop) :
    Expr → Expr → Prop
  | column {ref ref' : ColumnRef} {type type' : Option SqlType} (fragment : Fragment)
      (h : R (ref, type) (ref', type')) :
      Expr.Rebound R ⟨.column ref, fragment, type⟩ ⟨.column ref', fragment, type'⟩
  | node {kind kind' : ExprKind} (fragment : Fragment) (type : Option SqlType)
      (h : ExprKind.Rebound R kind kind') :
      Expr.Rebound R ⟨kind, fragment, type⟩ ⟨kind', fragment, type⟩

inductive ExprKind.Rebound (R : ColumnRef × Option SqlType → ColumnRef × Option SqlType → Prop) :
    ExprKind → ExprKind → Prop
  | constant (value : Value) : ExprKind.Rebound R (.constant value) (.constant value)
  | parameter (marker : Marker) : ExprKind.Rebound R (.parameter marker) (.parameter marker)
  | defaultMarker : ExprKind.Rebound R .defaultMarker .defaultMarker
  | row {items items' : List Expr} (h : List.Forall₂ (Expr.Rebound R) items items') :
      ExprKind.Rebound R (.row items) (.row items')
  | values {rows rows' : List Expr} (h : List.Forall₂ (Expr.Rebound R) rows rows') :
      ExprKind.Rebound R (.values rows) (.values rows')
  | pending (shape : QueryShape) (body : List Token) :
      ExprKind.Rebound R (.pending shape body) (.pending shape body)
  | query (shape : QueryShape) {plan plan' : Plan} (h : Plan.Rebound R plan plan') :
      ExprKind.Rebound R (.query shape plan) (.query shape plan')
  | diagnostics (item : DiagnosticsItem) :
      ExprKind.Rebound R (.diagnostics item) (.diagnostics item)
  | unary (op : UnaryOp) {operand operand' : Expr} (h : Expr.Rebound R operand operand') :
      ExprKind.Rebound R (.unary op operand) (.unary op operand')
  | binary (op : BinaryOp) {left left' right right' : Expr} (hl : Expr.Rebound R left left')
      (hr : Expr.Rebound R right right') :
      ExprKind.Rebound R (.binary op left right) (.binary op left' right')
  | isNull {operand operand' : Expr} (h : Expr.Rebound R operand operand') (negated : Bool) :
      ExprKind.Rebound R (.isNull operand negated) (.isNull operand' negated)
  | call (name : String) (builtin : Option Builtin) {arguments arguments' : List Expr}
      (h : List.Forall₂ (Expr.Rebound R) arguments arguments') :
      ExprKind.Rebound R (.call name builtin arguments) (.call name builtin arguments')

/-- A query with other references in its projection, its condition and its joins. -/
inductive Plan.Rebound (R : ColumnRef × Option SqlType → ColumnRef × Option SqlType → Prop) :
    Plan → Plan → Prop
  | select (columns : List Attribute) {projection projection' : List Expr}
      {ranges ranges' : List Range} {condition condition' : Option Expr}
      (hprojection : List.Forall₂ (Expr.Rebound R) projection projection')
      (hranges : List.Forall₂ (Range.Rebound R) ranges ranges')
      (hcondition : Option.Rel (Expr.Rebound R) condition condition') :
      Plan.Rebound R (.select columns projection ranges condition)
        (.select columns projection' ranges' condition')
  | values (columns : List Attribute) {rows rows' : Expr} (h : Expr.Rebound R rows rows') :
      Plan.Rebound R (.values columns rows) (.values columns rows')

/-- A range that is joined on a condition with other references. -/
inductive Range.Rebound (R : ColumnRef × Option SqlType → ColumnRef × Option SqlType → Prop) :
    Range → Range → Prop
  | join (r : Range) {join' : Option Expr} (h : Option.Rel (Expr.Rebound R) r.join join') :
      Range.Rebound R r { r with join := join' }

end

section

variable {change : ColumnChange} {R : ColumnRef × Option SqlType → ColumnRef × Option SqlType → Prop}

/-- What a change of columns does to the references among some nodes is in `R`. -/
def ColumnChange.Within (change : ColumnChange)
    (R : ColumnRef × Option SqlType → ColumnRef × Option SqlType → Prop) (nodes : List Expr) : Prop :=
  ∀ n ∈ nodes, ∀ ref new, n.kind = .column ref → change ref n.type? = some new →
    R (ref, n.type?) new

theorem ColumnChange.Within.of_subset {nodes nodes' : List Expr} (h : change.Within R nodes)
    (hsub : nodes' ⊆ nodes) : change.Within R nodes' :=
  fun n hn => h n (hsub hn)

theorem Expr.Rebound.withChildren {e : Expr} {cs : List Expr} (hk : e.isFixed = true)
    (h : List.Forall₂ (Expr.Rebound R) e.children cs) : e.Rebound R (e.withChildren cs) := by
  obtain ⟨kind, fragment, type⟩ := e
  refine .node fragment type ?_
  cases kind with
  | column | query => cases hk
  | row => exact .row h
  | values => exact .values h
  | call => exact .call _ _ h
  | unary op operand =>
    obtain ⟨c, rfl⟩ := List.length_eq_one_iff.1 h.length_eq.symm
    exact .unary op (List.forall₂_cons.1 h).1
  | isNull operand negated =>
    obtain ⟨c, rfl⟩ := List.length_eq_one_iff.1 h.length_eq.symm
    exact .isNull (List.forall₂_cons.1 h).1 negated
  | binary op left right =>
    obtain ⟨c, d, rfl⟩ := List.length_eq_two.1 h.length_eq.symm
    obtain ⟨hl, hr⟩ := List.forall₂_cons.1 h
    exact .binary op hl (List.forall₂_cons.1 hr).1
  | constant value => exact .constant value
  | parameter marker => exact .parameter marker
  | defaultMarker => exact .defaultMarker
  | pending shape body => exact .pending shape body
  | diagnostics item => exact .diagnostics item

theorem Expr.MovesOption.rebound {o o' : Option Expr} (h : MovesOption change o o')
    (ih : ∀ e ∈ o, ∀ e', e.Moves change e' → e.Rebound R e') : Option.Rel (Expr.Rebound R) o o' := by
  cases h with
  | none => exact .none
  | some h => exact .some (ih _ rfl _ h)

/-- A change of columns changes column references only, and each of them as it says. -/
theorem rebound_of_moves :
    (∀ e e' : Expr, e.Moves change e' → change.Within R e.nodes → e.Rebound R e') ∧
    ∀ p p' : Plan, p.mapColumns change = some p' → change.Within R p.nodes → p.Rebound R p' := by
  refine deepInduct ⟨?_, ?_⟩
  · intro e hcs hp e' h hwithin
    cases Expr.mapColumns_ok h with
    | column hc => exact .column _ (hwithin _ (Expr.self_mem_nodes _) _ _ rfl hc)
    | @query shape plan plan' fragment type hq =>
      refine .node _ _ (.query shape (hp shape plan rfl plan' hq (hwithin.of_subset fun n hn => ?_)))
      exact Expr.mem_nodes.2 (.inr (.inl ⟨shape, plan, rfl, hn⟩))
    | node _ cs hk hn =>
      refine .withChildren hk (forall₂_imp_mem hn fun c hc c' _ hm => ?_)
      exact hcs c hc c' hm (hwithin.of_subset fun n hn => Expr.mem_nodes.2 (.inl ⟨c, hc, hn⟩))
  · intro p hes p' h hwithin
    -- each expression of the plan has nodes among those of the plan
    rw [Plan.nodes_eq] at hwithin
    have hexpr : ∀ e ∈ p.exprs, ∀ e', e.Moves change e' → e.Rebound R e' := fun e he e' hm =>
      hes e he e' hm (hwithin.of_subset fun n hn => List.mem_flatMap.2 ⟨e, he, hn⟩)
    cases Plan.mapColumns_ok h with
    | @select columns projection projection' ranges ranges' condition condition' hp hr hc =>
      refine .select columns (forall₂_imp_mem hp fun e he e' _ => hexpr e (by simp [Plan.exprs, he]) e') ?_
        (hc.rebound fun e he => hexpr e (by simp [Plan.exprs, Option.mem_def.1 he]))
      refine forall₂_imp_mem hr fun r hr r' _ hm => ?_
      obtain ⟨join', hj, rfl⟩ := hm
      refine .join r (hj.rebound fun e he => hexpr e ?_)
      simp only [Plan.exprs, List.mem_append, List.mem_flatMap, Option.mem_toList]
      exact .inl (.inr ⟨r, hr, he⟩)
    | values hrows => exact .values _ (hexpr _ (List.mem_singleton_self _) _ hrows)

end

namespace Expr

/-- The column references of an expression with their types, those of its subqueries too. -/
def typedReferences (e : Expr) : List (ColumnRef × Option SqlType) :=
  e.nodes.filterMap fun n =>
    match n.kind with
    | .column ref => some (ref, n.type?)
    | _ => none

/-- What becomes of a reference when the range `source` is redirected to the columns of `target`. -/
inductive Redirected (source : Nat) (target : Range) (columnMap : List Nat) :
    ColumnRef × Option SqlType → ColumnRef × Option SqlType → Prop
  | moved {ref : ColumnRef} {type : Option SqlType} {b : Binding} {ordinal : Nat}
      {column : Attribute} (bound : ref.binding = some b) (range : b.range = source)
      (mapped : columnMap[b.column]? = some ordinal)
      (found : target.columns[ordinal]? = some column) :
      Redirected source target columnMap (ref, type)
        (⟨ref.qualifier.map fun _ => target.name, column.name,
          some ⟨target.id, ordinal, column.type, false⟩⟩, some column.type)
  | kept {ref : ColumnRef} {type : Option SqlType}
      (other : ∀ b, ref.binding = some b → b.range ≠ source) :
      Redirected source target columnMap (ref, type) (ref, type)

section

variable {change : ColumnChange} {e e' : Expr}

/-- A change of columns changes the references one for one. -/
theorem Moves.typedReferences (h : e.Moves change e') :
    List.Forall₂ (fun old new => change old.1 old.2 = some new) e.typedReferences
      e'.typedReferences := by
  have hnodes := nodes_mapColumns h
  unfold Expr.typedReferences
  generalize e.nodes = nodes, e'.nodes = nodes' at hnodes
  induction hnodes with
  | nil => exact .nil
  | @cons n n' ns ns' hn _ ih =>
    cases mapColumns_ok hn with
    | column hc => exact .cons hc ih
    | query => exact ih
    | node _ cs hk hcs =>
      have hnone : ∀ ref, n.kind ≠ .column ref := by
        rintro ref hkind
        simp [isFixed, hkind] at hk
      have hnone' : ∀ ref, (n.withChildren cs).kind ≠ .column ref := by
        simpa [withChildren] using hnone
      rw [List.filterMap_cons_none (by split <;> simp_all),
        List.filterMap_cons_none (by split <;> simp_all)]
      exact ih

end

/-! ## Redirecting twice -/

section

variable {e e' : Expr} {source : Nat} {target middle base : Range}
  {columnMap upper lower composed : List Nat}

theorem mem_typedReferences {r : ColumnRef × Option SqlType} (h : r ∈ e.typedReferences) :
    ∃ n ∈ e.nodes, n.kind = .column r.1 ∧ n.type? = r.2 := by
  obtain ⟨n, hn, h⟩ := List.mem_filterMap.1 h
  split at h
  · next ref hkind =>
    cases h
    exact ⟨n, hn, hkind, rfl⟩
  · cases h

/-- Redirecting moves the references to one range and keeps all others. -/
theorem redirect_within {nodes : List Expr}
    (hmapped : ∀ n ∈ nodes, ∀ b ∈ n.binding?, b.range = source → b.column < columnMap.length) :
    (ColumnRef.redirect source target columnMap).Within (Redirected source target columnMap) nodes := by
  intro n hn ref new hkind hchange
  unfold ColumnRef.redirect at hchange
  split at hchange
  · next hnone =>
    cases hchange
    exact .kept (by simp [hnone])
  · next b hb =>
    split at hchange
    · next hrange =>
      have hlt := hmapped n hn b (by simp [binding?, hkind, hb]) hrange
      rw [List.getElem?_eq_getElem hlt] at hchange
      dsimp only at hchange
      split at hchange
      · cases hchange
      · next column hcolumn =>
        cases hchange
        exact .moved hb hrange (List.getElem?_eq_getElem hlt) hcolumn
    · next hrange =>
      cases hchange
      exact .kept (by simpa [hb] using hrange)

/-- The references of an expression are changed in the order in which they stand. -/
theorem Moves.typedReferences_within {change : ColumnChange}
    {R : ColumnRef × Option SqlType → ColumnRef × Option SqlType → Prop} (h : e.Moves change e')
    (hwithin : change.Within R e.nodes) : List.Forall₂ R e.typedReferences e'.typedReferences := by
  refine forall₂_imp_mem (Moves.typedReferences h) ?_
  rintro ⟨ref, type⟩ hmem new - hchange
  obtain ⟨n, hn, hkind, rfl⟩ := mem_typedReferences hmem
  exact hwithin n hn ref new hkind hchange

/-- Redirecting to the range in the middle and from there to the base is redirecting to the base
along the composed map, if the range in the middle is new to the expression. -/
theorem redirect_redirect (hcomposed : (upper.mapM fun i => lower[i]?) = some composed)
    (hfree : e.refersTo middle.id = false) {m : Expr}
    (h : e.redirect source middle upper = some m) :
    m.redirect middle.id base lower = e.redirect source base composed := by
  refine mapColumns_mapColumns.1 e m h fun n hn ref ref' type' hkind hfirst => ?_
  have hother : ∀ b, ref.binding = some b → b.range ≠ middle.id := by
    intro b hb hrange
    refine absurd hfree (Bool.ne_false_iff.2 (List.any_eq_true.2 ⟨n, hn, ?_⟩))
    simp [binding?, hkind, hb, hrange]
  unfold ColumnRef.redirect at hfirst ⊢
  cases hb : ref.binding with
  | none =>
    simp only [hb] at hfirst
    cases hfirst
    simp only [hb]
  | some b =>
    simp only [hb] at hfirst
    by_cases hrange : b.range = source
    · simp only [hrange, if_true] at hfirst ⊢
      -- `source` is redirected: through a view column that has an ordinal, or one that has none
      cases hi : upper[b.column]? with
      | none =>
        have hnone : composed[b.column]? = none := by
          rw [List.getElem?_eq_none_iff, ColumnMap.mapM_some_length hcomposed]
          exact List.getElem?_eq_none_iff.1 hi
        simp only [hi] at hfirst
        cases hfirst
        simp [hb, hother b hb, hnone]
      | some i =>
        obtain ⟨ordinal, hlower, hordinal⟩ := getElem?_mapM hcomposed hi
        simp only [hi] at hfirst
        cases hc : middle.columns[i]? with
        | none => simp [hc] at hfirst
        | some column =>
          simp only [hc] at hfirst
          cases hfirst
          simp [hlower, hordinal, Function.comp_def]
    -- no reference is to the range in between, so one to another range is moved by neither step
    · simp only [hrange, if_false] at hfirst ⊢
      cases hfirst
      simp [hb, hother b hb]

/-- Layer by layer or at once, the references to a range come to the same columns of the base: both
ways succeed and give the same expression, which differs from the first one in its references to
this range only: each of these is redirected, and nothing else changes. The ranges need not be
distinct. -/
theorem redirect_layers (hfree : e.refersTo middle.id = false)
    (hmapped : ∀ n ∈ e.nodes, ∀ b ∈ n.binding?, b.range = source → b.column < upper.length)
    (hupper : ∀ i ∈ upper, i < middle.columns.length ∧ i < lower.length)
    (hlower : ∀ i ∈ lower, i < base.columns.length) :
    ∃ composed e', (upper.mapM fun i => lower[i]?) = some composed ∧
      ((e.redirect source middle upper).bind fun m => m.redirect middle.id base lower) = some e' ∧
      e.redirect source base composed = some e' ∧
      e.Rebound (Redirected source base composed) e' ∧
      List.Forall₂ (Redirected source base composed) e.typedReferences e'.typedReferences := by
  obtain ⟨composed, hcomposed⟩ := Option.isSome_iff_exists.1
    (ColumnMap.mapM_isSome fun i hi => (hupper i hi).2)
  have hwithin : ∀ i ∈ composed, i < base.columns.length :=
    fun i hi => hlower i (ColumnMap.mem_of_mapM hcomposed hi)
  obtain ⟨m, hm⟩ := Option.isSome_iff_exists.1
    (redirect_isSome (fun i hi => (hupper i hi).1) source e)
  obtain ⟨e', he'⟩ := Option.isSome_iff_exists.1 (redirect_isSome hwithin source e)
  have hwithin : (ColumnRef.redirect source base composed).Within (Redirected source base composed)
      e.nodes :=
    redirect_within (ColumnMap.mapM_some_length hcomposed ▸ hmapped)
  refine ⟨composed, e', hcomposed, ?_, he', rebound_of_moves.1 e e' he' hwithin,
    Moves.typedReferences_within he' hwithin⟩
  rw [hm, Option.bind_some, redirect_redirect hcomposed hfree hm, he']

/-- `v.x = (SELECT v.y)` over the view `v` with id 2. -/
def overView : Expr :=
  ⟨.binary .equal (boundColumn (some "v") ⟨"x", .integer⟩ 2 0 false .absent)
    ⟨.query .scalar (.select [⟨"y", .bigint⟩]
      [boundColumn (some "v") ⟨"y", .bigint⟩ 2 1 false .absent] [] none), .absent, some .bigint⟩,
    .absent, some .boolean⟩

/-- Both ways lead from the view over another one, with columns `p`, `q` and `r`, to the columns
`c` and `a` of a table. -/
theorem redirect_layers_overView :
    let inner := Range.fresh 1 "w" .routineVariables
      [⟨"p", .bigint⟩, ⟨"q", .integer⟩, ⟨"r", .bigint⟩] .absent
    let table := Range.fresh 0 "t" .routineVariables
      [⟨"a", .bigint⟩, ⟨"b", .bigint⟩, ⟨"c", .integer⟩] .absent
    ∃ e', ((overView.redirect 2 inner [1, 2]).bind fun m =>
        m.redirect 1 table [1, 2, 0]) = some e' ∧
      overView.redirect 2 table [2, 0] = some e' ∧
      e'.typedReferences.map (fun r => r.1.name) = ["c", "a"] := by
  intro inner table
  have hfree : overView.refersTo inner.id = false := by decide +kernel
  have hmapped : ∀ n ∈ overView.nodes, ∀ b ∈ n.binding?, b.range = 2 →
      b.column < [1, 2].length := by decide +kernel
  have hupper : ∀ i ∈ [1, 2], i < inner.columns.length ∧ i < [1, 2, 0].length := by
    decide +kernel
  have hlower : ∀ i ∈ [1, 2, 0], i < table.columns.length := by decide +kernel
  obtain ⟨composed, e', hcomposed, htwice, honce, -, -⟩ :=
    redirect_layers hfree hmapped hupper hlower
  obtain rfl : [2, 0] = composed := by simpa using hcomposed
  refine ⟨e', htwice, honce, ?_⟩
  have h : (overView.redirect 2 table [2, 0]).map
      (fun e => e.typedReferences.map fun r => r.1.name) = some ["c", "a"] := by
    decide +kernel
  simpa [honce] using h

end

end Expr

/-! ## The views that a statement passes -/

/-- Moves an expression down some layers, from each range to the next one. -/
def Layer.redirectAll : Nat → List Layer → Expr → Option Expr
  | _, [], e => some e
  | source, layer :: layers, e =>
    (e.redirect source layer.range layer.base.columnMap).bind
      (redirectAll layer.range.id layers)

/-- What is moved down all layers is moved to where the statement lands, along its column map. -/
theorem ViewTarget.Descends.redirect_eq {env : Environment} {operation : Operation}
    {state state' : Descent} {s t : CompilerState} {layers : List Layer}
    (h : Descends env operation state s layers state' t) {source : Nat} {e m m' : Expr}
    (hfree : ∀ id ∈ state.range.id :: layers.map (·.range.id), e.refersTo id = false)
    (hm : e.redirect source state.range state.columnMap = some m)
    (hm' : Layer.redirectAll state.range.id layers m = some m') :
    e.redirect source state'.range state'.columnMap = some m' := by
  induction h generalizing m with
  | done =>
    cases hm'
    exact hm
  | @pass state _ _ _ _ _ base _ range _ _ columnMap _ _ _ _ _ _ _ hmap _ ih =>
    obtain ⟨mid, hmid, hrest⟩ := Option.bind_eq_some_iff.1 hm'
    have honce : m.redirect state.range.id range base.columnMap
        = e.redirect source range columnMap :=
      Expr.redirect_redirect hmap (hfree _ (by simp)) hm
    exact ih (fun id hid => hfree id (List.mem_cons_of_mem _ hid)) (honce.symm.trans hmid) hrest

end DataChange
