import DataChange.Proofs.Expr.Moved
import DataChange.Proofs.Expr.Typed
import DataChange.Proofs.Statement.Held

/-!
# Settled expressions

In a settled node all is bound and typed, but it may be a parameter of which nothing tells the type.
Such a parameter is never an operand, a cell of a list of rows or a whole expression of a subquery.
So all that is left for it is to be the whole expression, or an item of a row that is itself the
whole expression or an item of a row.
-/

namespace DataChange

/-- A list of rows, or an expression with a type. -/
def Expr.IsProduced (e : Expr) : Prop :=
  e.type?.isSome = true ∨ e.shape = .rows

/-- A query over relations whose expressions have types, but for lists of rows. -/
structure Plan.Settled (plan : Plan) : Prop where
  produced : ∀ e ∈ plan.exprs, e.IsProduced
  sources : plan.sources = []

namespace Expr

/-- A node that is bound and typed, unless it is a parameter. -/
structure SettledNode (n : Expr) : Prop where
  resolved : n.nodeIsResolved = true ∨ n.isUntypedParameter = true
  typed : n.isUntypedParameter = false → (n.type?.isSome = true ↔ n.shape = .scalar)
  operands : n.isOperation = true →
    ∀ c ∈ n.children, c.shape = .scalar ∧ c.isUntypedParameter = false
  cells : n.shape = .rows → ∀ row ∈ n.children, row.isRow = true ∧
    ∀ c ∈ row.children, c.isUntypedParameter = false
  plan : ∀ shape plan, n.kind = .query shape plan → plan.columns.length = shape.degree ∧ plan.Settled

/-- An expression with settled nodes, in subqueries too. -/
def Settled (e : Expr) : Prop :=
  ∀ n ∈ e.nodes, n.SettledNode

variable {e e' n : Expr}

/-- A node without operands that is no subquery. -/
theorem SettledNode.leaf (hr : e.nodeIsResolved = true) (ht : e.type?.isSome = true ↔ e.shape = .scalar)
    (hcs : e.children = []) (hk : ∀ shape plan, e.kind ≠ .query shape plan) : e.SettledNode :=
  ⟨.inl hr, fun _ => ht, by simp [hcs], by simp [hcs], fun shape plan h => absurd h (hk shape plan)⟩

theorem SettledNode.row (items : List Expr) (fragment : Fragment) :
    SettledNode ⟨.row items, fragment, none⟩ :=
  ⟨.inl rfl, fun _ => by simp [shape], by simp [isOperation], by simp [shape], by simp⟩

/-- A row has no type. -/
theorem SettledNode.type_row {items : List Expr} (h : e.SettledNode) (hk : e.kind = .row items) :
    e.type? = none := by
  obtain ⟨kind, fragment, type⟩ := e
  obtain rfl : kind = .row items := hk
  have htype := h.typed rfl
  simpa [shape] using htype

/-- A settled subquery for a row is compiled. -/
theorem SettledNode.kind_query {degree : Nat} (h : e.SettledNode) (hs : e.shape = .query degree) :
    ∃ plan, e.kind = .query (.row degree) plan := by
  obtain ⟨kind, fragment, type⟩ := e
  cases kind with
  | query queryShape plan =>
    cases queryShape with
    | scalar => cases hs
    | row length =>
      cases hs
      exact ⟨plan, rfl⟩
  | pending => rcases h.resolved with h | h <;> cases h
  | _ => cases hs

theorem SettledNode.asColumn (h : e.SettledNode) (t : SqlType) (writeable : Bool) :
    (e.asColumn t writeable).SettledNode := by
  obtain ⟨kind, fragment, type⟩ := e
  cases kind with
  | parameter marker =>
    exact .leaf rfl (by simp [Expr.asColumn, shape]) rfl (by simp [Expr.asColumn])
  | _ => exact h

theorem SettledNode.and {left right : Expr}
    (hl : left.shape = .scalar ∧ left.isUntypedParameter = false)
    (hr : right.shape = .scalar ∧ right.isUntypedParameter = false) :
    (and left right).SettledNode := by
  refine ⟨.inl rfl, fun _ => by simp [Expr.and, shape], fun _ c hc => ?_, by simp [Expr.and, shape],
    by simp [Expr.and]⟩
  simp only [Expr.and, children, List.mem_cons, List.not_mem_nil, or_false] at hc
  rcases hc with rfl | rfl
  · exact hl
  · exact hr

namespace Settled

theorem node (h : e.Settled) : e.SettledNode :=
  h e (self_mem_nodes e)

theorem children (h : e.Settled) : ∀ c ∈ e.children, c.Settled :=
  fun c hc n hn => h n (mem_nodes.2 (.inl ⟨c, hc, hn⟩))

theorem plan (h : e.Settled) {shape : QueryShape} {plan : Plan} (hk : e.kind = .query shape plan) :
    ∀ n ∈ plan.nodes, n.SettledNode :=
  fun n hn => h n (mem_nodes.2 (.inr (.inl ⟨shape, plan, hk, hn⟩)))

theorem intro (hnode : e.SettledNode) (hcs : ∀ c ∈ e.children, c.Settled)
    (hplan : ∀ shape plan, e.kind = .query shape plan → ∀ n ∈ plan.nodes, n.SettledNode) :
    e.Settled := by
  intro n hn
  rcases mem_nodes.1 hn with ⟨c, hc, hn⟩ | ⟨shape, plan, hk, hn⟩ | rfl
  · exact hcs c hc n hn
  · exact hplan shape plan hk n hn
  · exact hnode

/-- A row with other items. -/
theorem withItems {items items' : List Expr} (he : e.Settled) (hk : e.kind = .row items)
    (h : ∀ c ∈ items', c.Settled) : Settled { e with kind := .row items' } := by
  have hnone := he.node.type_row hk
  obtain ⟨kind, fragment, type⟩ := e
  obtain rfl : type = none := hnone
  exact .intro (.row items' fragment) h (by simp)

theorem asColumn (h : e.Settled) (t : SqlType) (writeable : Bool) :
    (e.asColumn t writeable).Settled := by
  have hnode := h.node.asColumn t writeable
  obtain ⟨kind, fragment, type⟩ := e
  cases kind with
  | parameter marker =>
    exact .intro hnode (by simp [Expr.asColumn, Expr.children]) (by simp [Expr.asColumn])
  | _ => exact h

end Settled

/-! ## Where parameters are left -/

/-- A row that is an item of another row of some nodes. -/
def NestedRow (nodes : List Expr) (row : Expr) : Prop :=
  row ∈ nodes ∧ row.isRow = true ∧ ∃ around ∈ nodes, around.isRow = true ∧ row ∈ around.children

theorem NestedRow.mono {nodes nodes' : List Expr} {row : Expr} (h : NestedRow nodes row)
    (hsub : nodes ⊆ nodes') : NestedRow nodes' row := by
  obtain ⟨hrow, hk, around, haround, hnested⟩ := h
  exact ⟨hsub hrow, hk, around, hsub haround, hnested⟩

/-- The place of a parameter of which nothing tells the type: it is all, or an item of a row that
is all, or an item of a row in a row. -/
inductive UntypedPlace (e n : Expr) : Prop
  | whole (h : n = e)
  | item (hrow : e.isRow = true) (h : n ∈ e.children)
  | nested {row : Expr} (hrow : NestedRow e.nodes row) (h : n ∈ row.children)

/-- What has operands is an operation, a row or a list of rows. -/
theorem of_mem_children {c : Expr} (h : c ∈ e.children) :
    e.isOperation = true ∨ e.isRow = true ∨ e.shape = .rows := by
  obtain ⟨kind, fragment, type⟩ := e
  cases kind <;> simp_all [children, isOperation, isRow, shape]

/-- A parameter keeps its place as far as the node above is settled. -/
theorem UntypedPlace.under {c : Expr} (hnode : e.SettledNode) (hc : c ∈ e.children)
    (hn : n.isUntypedParameter = true) (h : UntypedPlace c n) : UntypedPlace e n := by
  have hsub : c.nodes ⊆ e.nodes := fun m hm => mem_nodes.2 (.inl ⟨c, hc, hm⟩)
  cases h with
  | whole h =>
    subst h
    rcases of_mem_children hc with hop | hrow | hrows
    · simp [(hnode.operands hop n hc).2] at hn
    · exact .item hrow hc
    · obtain ⟨length, hlength⟩ := isRow_iff.1 (hnode.cells hrows n hc).1
      simp [shape_of_isUntypedParameter hn] at hlength
  | item hrow h =>
    rcases of_mem_children hc with hop | haround | hrows
    · obtain ⟨length, hlength⟩ := isRow_iff.1 hrow
      simp [(hnode.operands hop c hc).1] at hlength
    · exact .nested ⟨hsub (self_mem_nodes c), hrow, e, self_mem_nodes e, haround, hc⟩ h
    · simp [(hnode.cells hrows c hc).2 n h] at hn
  | nested hrow h => exact .nested (hrow.mono hsub) h

/-- What a query produces is no parameter without a type, and no row. -/
theorem UntypedPlace.produced (hnode : e.SettledNode) (he : e.IsProduced)
    (hn : n.isUntypedParameter = true) (h : UntypedPlace e n) :
    ∃ row, NestedRow e.nodes row ∧ n ∈ row.children := by
  cases h with
  | whole h =>
    subst h
    rcases he with he | he
    · simp [isUntypedParameter_of_type he] at hn
    · simp [shape_of_isUntypedParameter hn] at he
  | item hrow h =>
    obtain ⟨length, hlength⟩ := isRow_iff.1 hrow
    rcases he with he | he
    · have hscalar := (hnode.typed (isUntypedParameter_of_type he)).1 he
      simp [hscalar] at hlength
    · simp [he] at hlength
  | nested hrow h => exact ⟨_, hrow, h⟩

theorem untypedPlace :
    (∀ e : Expr, e.Settled → ∀ n ∈ e.nodes, n.isUntypedParameter = true → UntypedPlace e n) ∧
    ∀ plan : Plan, (∀ n ∈ plan.nodes, n.SettledNode) → plan.Settled →
      ∀ n ∈ plan.nodes, n.isUntypedParameter = true →
      ∃ row, NestedRow plan.nodes row ∧ n ∈ row.children := by
  refine deepInduct ⟨?_, ?_⟩
  · intro e hcs hp h n hn huntyped
    rcases mem_nodes.1 hn with ⟨c, hc, hn⟩ | ⟨shape, plan, hk, hn⟩ | rfl
    · exact (hcs c hc (h.children c hc) n hn huntyped).under h.node hc huntyped
    · obtain ⟨row, hrow, hmem⟩ := hp shape plan hk (h.plan hk) (h.node.plan shape plan hk).2 n hn
        huntyped
      exact .nested (hrow.mono fun m hm => mem_nodes.2 (.inr (.inl ⟨shape, plan, hk, hm⟩))) hmem
    · exact .whole rfl
  · intro plan hes h hplan n hn huntyped
    have hnodes := plan.nodes_eq
    rw [hnodes] at hn
    obtain ⟨e, he, hn⟩ := List.mem_flatMap.1 hn
    have hsub : e.nodes ⊆ plan.nodes := fun m hm => hnodes ▸ List.mem_flatMap.2 ⟨e, he, hm⟩
    have hsettled : e.Settled := fun m hm => h m (hsub hm)
    obtain ⟨row, hrow, hmem⟩ :=
      (hes e he hsettled n hn huntyped).produced hsettled.node
        (hplan.produced e he) huntyped
    exact ⟨row, hrow.mono hsub, hmem⟩

/-! ## Changed columns -/

end Expr

/-- A change that leaves bound columns bound and typed ones typed. -/
structure ColumnChange.KeepsBound (change : ColumnChange) : Prop where
  binding : ∀ {ref type ref' type'}, change ref type = some (ref', type') →
    ref.binding.isSome = true → ref'.binding.isSome = true
  type : ∀ {ref type ref' type'}, change ref type = some (ref', type') →
    type.isSome = true → type'.isSome = true

theorem ColumnRef.redirect_keepsBound (source : Nat) (target : Range) (columnMap : List Nat) :
    ColumnChange.KeepsBound (redirect source target columnMap) := by
  -- a reference is kept as it is, or is bound to a column of the target, which has a type
  have hcases : ∀ {ref type ref' type'},
      redirect source target columnMap ref type = some (ref', type') →
      (ref' = ref ∧ type' = type) ∨ ref'.binding.isSome = true ∧ type'.isSome = true := by
    intro ref type ref' type' h
    unfold redirect at h
    split at h
    · cases h
      exact .inl ⟨rfl, rfl⟩
    · split at h
      · split at h
        · cases h
          exact .inl ⟨rfl, rfl⟩
        · split at h
          · cases h
          · cases h
            exact .inr ⟨rfl, rfl⟩
      · cases h
        exact .inl ⟨rfl, rfl⟩
  constructor
  · intro ref type ref' type' h hb
    rcases hcases h with ⟨rfl, -⟩ | ⟨hb', -⟩
    · exact hb
    · exact hb'
  · intro ref type ref' type' h ht
    rcases hcases h with ⟨-, rfl⟩ | ⟨-, ht'⟩
    · exact ht
    · exact ht'

variable {change : ColumnChange} {e e' : Expr}

namespace Expr

theorem Moves.isSome_type (hkeeps : change.KeepsBound) (h : e.Moves change e')
    (ht : e.type?.isSome = true) : e'.type?.isSome = true := by
  cases mapColumns_ok h with
  | column hc => exact hkeeps.type hc ht
  | query => exact ht
  | node => exact ht

theorem Moves.isRow (h : e.Moves change e') : e'.isRow = e.isRow := by
  rw [Bool.eq_iff_iff, isRow_iff, isRow_iff, h.alike.shape]

theorem Moves.isOperation (h : e.Moves change e') : e'.isOperation = e.isOperation := by
  cases mapColumns_ok h with
  | column => rfl
  | query => rfl
  | node _ cs => exact isOperation_withChildren e cs

theorem Moves.isProduced (hkeeps : change.KeepsBound) (h : e.Moves change e') (he : e.IsProduced) :
    e'.IsProduced := by
  rcases he with he | he
  · exact .inl (h.isSome_type hkeeps he)
  · exact .inr (h.alike.shape.trans he)

end Expr

/-- A change of columns leaves what the ranges of a query are over. -/
theorem Plan.Moves.sources {plan plan' : Plan} (h : plan.Moves change plan') :
    plan'.sources = plan.sources := by
  cases h with
  | select _ hr _ =>
    induction hr with
    | nil => rfl
    | cons hr _ ih =>
      obtain ⟨join, -, rfl⟩ := hr
      simpa [Plan.sources, Range.plans] using ih
  | values => rfl

theorem Plan.Moves.settled {plan plan' : Plan} (hkeeps : change.KeepsBound)
    (h : plan.Moves change plan') (hplan : plan.Settled) : plan'.Settled := by
  refine ⟨fun e' he' => ?_, h.sources.trans hplan.sources⟩
  obtain ⟨e, he, hm⟩ := forall₂_exists_left h.exprs he'
  exact hm.isProduced hkeeps (hplan.produced e he)

namespace Expr

theorem Moves.nodeIsResolved (hkeeps : change.KeepsBound) (h : e.Moves change e')
    (he : e.nodeIsResolved = true) : e'.nodeIsResolved = true := by
  cases mapColumns_ok h with
  | column hc =>
    simp only [Expr.nodeIsResolved, Bool.and_eq_true] at he ⊢
    exact ⟨hkeeps.binding hc he.1, hkeeps.type hc he.2⟩
  | query => rfl
  | node _ cs => rwa [nodeIsResolved_withChildren]

theorem SettledNode.moves (hkeeps : change.KeepsBound) (h : e.Moves change e') (hn : e.SettledNode) :
    e'.SettledNode := by
  refine ⟨?_, ?_, ?_, ?_, ?_⟩
  · rw [h.isUntypedParameter]
    exact hn.resolved.imp_left (h.nodeIsResolved hkeeps)
  · rw [h.isUntypedParameter, h.alike.shape]
    intro huntyped
    have ht := hn.typed huntyped
    -- only a column can have its type changed, and one that is bound keeps having one
    cases mapColumns_ok h with
    | column hc => exact ⟨fun _ => rfl, fun _ => hkeeps.type hc (ht.2 rfl)⟩
    | query => exact ht
    | node => exact ht
  · rw [h.isOperation]
    intro hop c' hc'
    obtain ⟨c, hc, hm⟩ := forall₂_exists_left h.children hc'
    rw [hm.alike.shape, hm.isUntypedParameter]
    exact hn.operands hop c hc
  · rw [h.alike.shape]
    intro hrows row' hrow'
    obtain ⟨row, hrow, hm⟩ := forall₂_exists_left h.children hrow'
    obtain ⟨hk, hcells⟩ := hn.cells hrows row hrow
    refine ⟨hm.isRow.trans hk, fun c' hc' => ?_⟩
    obtain ⟨c, hc, hmc⟩ := forall₂_exists_left hm.children hc'
    exact hmc.isUntypedParameter.trans (hcells c hc)
  · intro shape plan' hk'
    cases mapColumns_ok h with
    | column => cases hk'
    | query hq =>
      cases hk'
      obtain ⟨hlen, hplan⟩ := hn.plan shape _ rfl
      have hmoves := Plan.mapColumns_ok hq
      exact ⟨hmoves.columns ▸ hlen, hmoves.settled hkeeps hplan⟩
    | node _ cs hfixed =>
      have hk : e.kind = .query shape plan' := by simpa [withChildren] using hk'
      simp [isFixed, hk] at hfixed

/-- A change that keeps columns bound keeps expressions settled. -/
theorem Settled.moves (hkeeps : change.KeepsBound) (he : e.Settled) (h : e.Moves change e') :
    e'.Settled := by
  intro n' hn'
  obtain ⟨n, hn, hm⟩ := forall₂_exists_left (nodes_mapColumns h) hn'
  exact (he n hn).moves hkeeps hm

/-! ## Typed expressions -/

/-- A settled expression with a type. -/
structure Definite (e : Expr) : Prop where
  settled : e.Settled
  typed : e.type?.isSome = true

theorem Definite.isSingle (h : e.Definite) : e.shape = .scalar ∧ e.isUntypedParameter = false := by
  have huntyped := isUntypedParameter_of_type h.typed
  exact ⟨(h.settled.node.typed huntyped).1 h.typed, huntyped⟩

theorem Definite.isProduced (h : e.Definite) : e.IsProduced :=
  .inl h.typed

theorem Definite.moves (hkeeps : change.KeepsBound) (he : e.Definite) (h : e.Moves change e') :
    e'.Definite :=
  ⟨he.settled.moves hkeeps h, h.isSome_type hkeeps he.typed⟩

/-- A conjunction is definite if its sides are. -/
theorem conjunctive_definite : Conjunctive Definite where
  split {left right fragment type} h := by
    have hside : ∀ c ∈ [left, right], c.Definite := by
      intro c hc
      obtain ⟨hshape, huntyped⟩ := h.settled.node.operands rfl c hc
      have hc := h.settled.children c hc
      exact ⟨hc, (hc.node.typed huntyped).2 hshape⟩
    exact ⟨hside left (by simp), hside right (by simp)⟩
  join {left right} hl hr := by
    refine ⟨.intro (.and hl.isSingle hr.isSingle) ?_ (by simp [and]), rfl⟩
    simpa [and, children] using ⟨hl.settled, hr.settled⟩

end Expr

end DataChange
