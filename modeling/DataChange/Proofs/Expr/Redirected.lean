import DataChange.Proofs.Expr.Conforms
import DataChange.Proofs.Expr.Moved
import DataChange.Proofs.Expr.Resolved

/-!
# Expressions with their columns redirected

A change of columns keeps an expression resolved, in subqueries too, if it takes a binding that is
visible to one that is visible (`Moves.resolved`). Redirecting the columns of one range to another
does so if its map reaches all columns of the first (`redirect_takes`).

An expression of which every node conforms to the rules of types still does so after a change that
takes each of its columns to one of the same type (`Conforming.moves`). Redirecting is such a change
if every column of the range and the one behind it have the same type (`Resolved.keptBy`).
-/

namespace DataChange

section

variable {change : ColumnChange} {I : Nat → Prop} {visible visible' : List Heading}

/-- The change takes a visible binding to a visible one, whatever ranges of subqueries are visible
besides. -/
structure Takes (change : ColumnChange) (I : Nat → Prop) (visible visible' : List Heading) : Prop where
  keeps : change.KeepsBound
  binding : ∀ own : List Heading, (∀ h ∈ own, I h.1) → ∀ ref b ref' type',
    ref.binding = some b → b.In (own ++ visible) → change ref (some b.type) = some (ref', type') →
    ∃ b', ref'.binding = some b' ∧ b'.In (own ++ visible') ∧ type' = some b'.type

theorem ResolvedNode.moves {own : List Heading} (hchange : Takes change I visible visible')
    (hown : ∀ h ∈ own, I h.1) {n n' : Expr} (h : n.Moves change n')
    (hn : ResolvedNode I (own ++ visible) n) : ResolvedNode I (own ++ visible') n' := by
  refine ⟨fun ref' hk => ?_, fun shape plan' hk => ?_, hn.settled.moves hchange.keeps h⟩
  · cases Expr.mapColumns_ok h with
    | column hc =>
      cases hk
      obtain ⟨b, hb, hin, ht⟩ := hn.column _ rfl
      subst ht
      exact hchange.binding own hown _ b _ _ hb hin hc
    | query => cases hk
    | node _ cs hfixed =>
      have hk : n.kind = .column ref' := by simpa [Expr.withChildren] using hk
      simp [Expr.isFixed, hk] at hfixed
  · cases Expr.mapColumns_ok h with
    | column => cases hk
    | query hq =>
      cases hk
      rw [(Plan.mapColumns_ok hq).headings]
      exact hn.own _ _ rfl
    | node _ cs hfixed =>
      have hk : n.kind = .query shape plan' := by simpa [Expr.withChildren] using hk
      simp [Expr.isFixed, hk] at hfixed

theorem moves_resolved (hchange : Takes change I visible visible') :
    (∀ e : Expr, ∀ own e', (∀ h ∈ own, I h.1) → e.Moves change e' →
      e.Resolved I (own ++ visible) → e'.Resolved I (own ++ visible')) ∧
    ∀ plan : Plan, ∀ own plan', (∀ h ∈ own, I h.1) → plan.mapColumns change = some plan' →
      plan.Resolved I (own ++ visible) → plan'.Resolved I (own ++ visible') := by
  refine deepInduct ⟨?_, ?_⟩
  · intro e hcs hp own e' hown hm h
    have hnode := h.node.moves hchange hown hm
    cases Expr.mapColumns_ok hm with
    | column => exact .intro hnode (by simp [Expr.children]) (by simp)
    | query hq =>
      refine .intro hnode (by simp [Expr.children]) ?_
      intro shape plan' hk
      cases hk
      exact (hp _ _ rfl _ _ hown hq (h.subquery rfl)).throughout
    | node _ cs hk hcs' =>
      refine .intro hnode (fun c' hc' => ?_) fun shape plan hkind => ?_
      · rw [Expr.children_withChildren hcs'.length_eq.symm] at hc'
        obtain ⟨c, hc, hcm⟩ := forall₂_exists_left hcs' hc'
        exact hcs c hc _ _ hown hcm (h.children c hc)
      · have hkind : e.kind = .query shape plan := by simpa [Expr.withChildren] using hkind
        simp [Expr.isFixed, hkind] at hk
  · intro plan hes own plan' hown hm h
    have hmoves := Plan.mapColumns_ok hm
    -- within the plan its ranges are own ranges too
    have hown' : ∀ x ∈ plan.headings ++ own, I x.1 := by
      intro x hx
      rcases List.mem_append.1 hx with hx | hx
      · exact h.own x hx
      · exact hown x hx
    refine ⟨hmoves.headings ▸ h.own, hmoves.settled hchange.keeps h.settled,
      .intro fun e' he' => ?_⟩
    obtain ⟨e, he, hem⟩ := forall₂_exists_left hmoves.exprs he'
    have hr := h.throughout.exprs e he
    rw [← List.append_assoc] at hr
    rw [hmoves.headings, ← List.append_assoc]
    exact hes e he _ _ hown' hem hr

theorem Expr.Moves.resolved {e e' : Expr} (h : e.Moves change e')
    (hchange : Takes change I visible visible') (he : e.Resolved I visible) :
    e'.Resolved I visible' :=
  (moves_resolved hchange).1 e [] e' (by simp) h he

/-! ## Redirecting -/

variable {source : Nat} {target : Range} {columnMap : List Nat}

/-- What is visible before and after the columns of a range are redirected. -/
structure Redirects (source : Nat) (target : Range) (columnMap : List Nat) (I : Nat → Prop)
    (visible visible' : List Heading) : Prop where
  /-- The range is not one of a subquery. -/
  outside : ¬ I source
  /-- The map reaches all its columns. -/
  reaches : ∀ columns, (source, columns) ∈ visible → columns.length ≤ columnMap.length
  others : ∀ h ∈ visible, h.1 ≠ source → h ∈ visible'
  target : target.heading ∈ visible'

theorem redirect_takes (h : Redirects source target columnMap I visible visible') :
    Takes (ColumnRef.redirect source target columnMap) I visible visible' := by
  refine ⟨ColumnRef.redirect_keepsBound .., fun own hown ref b ref' type' hb hin hc => ?_⟩
  obtain ⟨columns, column, hmem, hcolumn, htype⟩ := hin
  unfold ColumnRef.redirect at hc
  rw [hb] at hc
  dsimp only at hc
  split at hc
  · next hsource =>
    -- the ranges of subqueries have other ids, so this is the range that is redirected
    have hvisible : (source, columns) ∈ visible := by
      rw [hsource] at hmem
      rcases List.mem_append.1 hmem with hmem | hmem
      · exact absurd (hown _ hmem) h.outside
      · exact hmem
    have hlt := (List.getElem?_eq_some_iff.1 hcolumn).1
    have hreach := h.reaches columns hvisible
    split at hc
    · next hnone =>
      rw [List.getElem?_eq_none_iff] at hnone
      omega
    · next ordinal _ =>
      split at hc
      · cases hc
      · next found hfound =>
        cases hc
        exact ⟨_, rfl, ⟨target.columns, found, List.mem_append_right _ h.target, hfound, rfl⟩, rfl⟩
  · next hne =>
    cases hc
    refine ⟨b, hb, ⟨columns, column, ?_, hcolumn, htype⟩, rfl⟩
    rcases List.mem_append.1 hmem with hmem | hmem
    · exact List.mem_append_left _ hmem
    · exact List.mem_append_right _ (h.others _ hmem hne)

end

/-! ## Changes that keep types -/

theorem forall₂_singleton {α β : Type} {R : α → β → Prop} {a : α} {bs : List β}
    (h : List.Forall₂ R [a] bs) : ∃ b, R a b ∧ bs = [b] := by
  obtain ⟨b, rest, hab, hrest, rfl⟩ := List.forall₂_cons_left_iff.1 h
  obtain rfl := List.forall₂_nil_left_iff.1 hrest
  exact ⟨b, hab, rfl⟩

/-- The change takes the references with this binding to columns of its type. -/
def ColumnChange.KeepsType (change : ColumnChange) (b : Binding) : Prop :=
  ∀ ref ref' type', ref.binding = some b → change ref (some b.type) = some (ref', type') →
    ∃ b', ref'.binding = some b' ∧ b'.type = b.type ∧ type' = some b.type

namespace Expr

variable {change : ColumnChange} {e e' : Expr} {t : SqlType}

/-- The change takes each column of the expression to one of its type. -/
def KeptBy (change : ColumnChange) (e : Expr) : Prop :=
  ∀ n ∈ e.nodes, ∀ b, n.binding? = some b → change.KeepsType b

theorem KeptBy.node {n : Expr} (h : e.KeptBy change) (hn : n ∈ e.nodes) : n.KeptBy change :=
  fun m hm => h m (nodes_trans.1 e n hn hm)

theorem HasType.moves (h : e.Moves change e') (he : e.Conforms) (hkept : e.KeptBy change)
    (ht : e.HasType t) : e'.HasType t := by
  refine ⟨h.alike.shape.trans ht.scalar, ?_⟩
  rw [← ht.type]
  cases mapColumns_ok h with
  | column hc =>
    cases he with
    | column hb =>
      obtain ⟨-, -, -, htype⟩ := hkept _ (self_mem_nodes _) _ hb _ _ _ hb hc
      exact htype
  | query => rfl
  | node => rfl

/-- What conforms is moved to what conforms, if the types of its operands are kept. -/
theorem Conforms.moves (h : e.Moves change e') (he : e.Conforms)
    (hself : ∀ b, e.binding? = some b → change.KeepsType b)
    (hcs : ∀ c ∈ e.children, ∀ c', c.Moves change c' → ∀ t, c.HasType t → c'.HasType t) :
    e'.Conforms := by
  cases mapColumns_ok h with
  | column hc =>
    cases he with
    | column hb =>
      obtain ⟨b', hb', hsame, rfl⟩ := hself _ hb _ _ _ hb hc
      exact hsame ▸ .column hb' _
  | query hq =>
    have hcolumns := (Plan.mapColumns_ok hq).columns
    cases he with
    | scalarQuery hc => exact .scalarQuery (hcolumns.trans hc) _
    | rowQuery degree => exact .rowQuery degree _ _
  | node _ cs hk hmoves =>
    -- a node of any other kind is typed by its children, which keep their types
    cases he with
    | constant | parameter | defaultMarker | rowCount | more =>
      cases hmoves
      constructor
    | column | scalarQuery | rowQuery => cases hk
    | row => exact .row cs _
    | values => exact .values cs _
    | not ho ht fragment =>
      obtain ⟨c, hm, rfl⟩ := forall₂_singleton hmoves
      exact .not (hcs _ (by simp [children]) _ hm _ ho) ht fragment
    | sign hop ho ht fragment =>
      obtain ⟨c, hm, rfl⟩ := forall₂_singleton hmoves
      exact .sign hop (hcs _ (by simp [children]) _ hm _ ho) ht fragment
    | isNull ho negated fragment =>
      obtain ⟨c, hm, rfl⟩ := forall₂_singleton hmoves
      exact .isNull (hcs _ (by simp [children]) _ hm _ ho) negated fragment
    | binary hl hr ht =>
      obtain ⟨left', rest, hml, hrest, rfl⟩ := List.forall₂_cons_left_iff.1 hmoves
      obtain ⟨right', hmr, rfl⟩ := forall₂_singleton hrest
      exact .binary (hcs _ (by simp [children]) _ hml _ hl) (hcs _ (by simp [children]) _ hmr _ hr) ht
    | coalesce hone hall name fragment =>
      refine .coalesce ?_ (fun c' hc' => ?_) name fragment
      · obtain ⟨c, hc, ht⟩ := hone
        obtain ⟨c', hc', hm⟩ := forall₂_exists_right hmoves hc
        exact ⟨c', hc', hcs c hc c' hm _ ht⟩
      · obtain ⟨c, hc, hm⟩ := forall₂_exists_left hmoves hc'
        obtain ⟨u, hu, habsorbs⟩ := hall c hc
        exact ⟨u, hcs c hc c' hm u hu, habsorbs⟩
    | abs ha ht name fragment =>
      obtain ⟨c, hm, rfl⟩ := forall₂_singleton hmoves
      exact .abs (hcs _ (by simp [children]) _ hm _ ha) ht name fragment
    | length ha ht name fragment =>
      obtain ⟨c, hm, rfl⟩ := forall₂_singleton hmoves
      exact .length (hcs _ (by simp [children]) _ hm _ ha) ht name fragment
    | letters hb ha ht name fragment =>
      obtain ⟨c, hm, rfl⟩ := forall₂_singleton hmoves
      exact .letters hb (hcs _ (by simp [children]) _ hm _ ha) ht name fragment

/-- A change that keeps the types of columns keeps an expression conforming. -/
theorem Conforming.moves (he : e.Conforming) (h : e.Moves change e') (hkept : e.KeptBy change) :
    e'.Conforming := by
  intro n' hn'
  obtain ⟨n, hn, hm⟩ := forall₂_exists_left (nodes_mapColumns h) hn'
  refine (he n hn).moves hm (fun b hb => hkept n hn b hb) fun c hc c' hmc t ht => ?_
  have hmem := nodes_trans.1 e n hn (mem_nodes_of_mem_children hc)
  exact ht.moves hmc (he c hmem) (hkept.node hmem)

theorem IsCondition.moves (he : e.IsCondition) (h : e.Moves change e') (hkept : e.KeptBy change) :
    e'.IsCondition := by
  obtain ⟨t, ht, hlogical⟩ := he.logical
  exact ⟨he.conforming.moves h hkept, t, ht.moves h he.conforming.node hkept, hlogical⟩

end Expr

/-! ### Redirecting -/

/-- The map leads from each of some columns to one of its type. -/
def ColumnMap.KeepsTypes (columnMap : List Nat) (columns base : List Attribute) : Prop :=
  ∀ (i : Nat) (column : Attribute), columns[i]? = some column → ∃ ordinal found,
    columnMap[i]? = some ordinal ∧ base[ordinal]? = some found ∧ found.type = column.type

theorem ColumnMap.KeepsTypes.length_le {columnMap : List Nat} {columns base : List Attribute}
    (h : KeepsTypes columnMap columns base) : columns.length ≤ columnMap.length := by
  by_contra hlt
  obtain ⟨ordinal, -, hordinal, -⟩ := h columnMap.length columns[columnMap.length] (by simp)
  simp at hordinal

section

variable {I : Nat → Prop} {visible : List Heading} {source : Nat} {target : Range}
  {columnMap : List Nat}

theorem redirect_keepsType {b : Binding} (hb : b.In visible)
    (hmap : ∀ columns, (source, columns) ∈ visible →
      ColumnMap.KeepsTypes columnMap columns target.columns) :
    ColumnChange.KeepsType (ColumnRef.redirect source target columnMap) b := by
  intro ref ref' type' href hchange
  obtain ⟨columns, column, hmem, hcolumn, htype⟩ := hb
  unfold ColumnRef.redirect at hchange
  rw [href] at hchange
  dsimp only at hchange
  split at hchange
  · next hsource =>
    obtain ⟨ordinal, found, hordinal, hfound, hsame⟩ := hmap columns (hsource ▸ hmem) _ _ hcolumn
    simp only [hordinal, hfound, Option.some.injEq, Prod.mk.injEq] at hchange
    obtain ⟨rfl, rfl⟩ := hchange
    exact ⟨_, rfl, hsame.trans htype, congrArg some (hsame.trans htype)⟩
  · cases hchange
    exact ⟨b, href, rfl, rfl⟩

/-- Redirecting a range keeps the types of a resolved expression, if its map does. -/
theorem Expr.Resolved.keptBy {e : Expr} (he : e.Resolved I visible) (houtside : ¬ I source)
    (hmap : ∀ columns, (source, columns) ∈ visible →
      ColumnMap.KeepsTypes columnMap columns target.columns) :
    e.KeptBy (ColumnRef.redirect source target columnMap) := by
  intro n hn b hb
  obtain ⟨own, hown, hnode⟩ := resolved_nodes.1 e visible he n hn
  refine redirect_keepsType (hnode.binding_in hb) fun columns hmem => ?_
  -- the ranges of subqueries have other ids, so this is a range of the expression
  rcases List.mem_append.1 hmem with hmem | hmem
  · exact absurd (hown _ hmem) houtside
  · exact hmap columns hmem

/-- Redirecting the only range with its id keeps an expression resolved and conforming. -/
theorem Expr.Resolved.redirect {e m : Expr} {columns : List Attribute} (he : e.Resolved I visible)
    (houtside : ¬ I source)
    (hone : ∀ columns', (source, columns') ∈ visible → columns' = columns)
    (hmap : ColumnMap.KeepsTypes columnMap columns target.columns)
    (hm : e.redirect source target columnMap = some m) :
    m.Resolved I (target.heading :: visible) ∧ (e.Conforming → m.Conforming) := by
  refine ⟨Expr.Moves.resolved hm (redirect_takes ⟨houtside, fun columns' hmem => ?_,
    fun x hx _ => List.mem_cons_of_mem _ hx, by simp⟩) he, fun hconforming => ?_⟩
  · rw [hone columns' hmem]
    exact hmap.length_le
  · refine hconforming.moves hm (he.keptBy houtside fun columns' hmem => ?_)
    rw [hone columns' hmem]
    exact hmap

end

end DataChange
