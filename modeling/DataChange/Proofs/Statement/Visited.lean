import DataChange.Proofs.Catalog
import DataChange.Proofs.Expr.Settled
import DataChange.Proofs.Statement.CompileRuns
import DataChange.Proofs.Statement.Settled

/-!
# What a pass over a statement visits

`Expr.Contains` and `Plan.Contains` say what stands in an expression and in a query, without an
order: an expression itself, its operands and its subquery, and of a query its expressions and
those of the queries that its ranges are over. `nodes` lists just these where no range of a
subquery is over a query itself (`contains_iff`), and every node after all that stands in it
(`OperandsFirst`).

`Statement.nodes` is the pass over the expressions of a statement. `Statement.Part` names the parts of
statements where expressions stand, and `HoldsAt` says what stands in each. Of a compiled statement
the pass visits what stands in some of the parts (`visited`), and nothing else (`nodes_visited`): it
leaves out the keys and the bounds of a slice and the query that a MERGE is over. The condition of a
MERGE it visits by its conjuncts.
-/

namespace DataChange

/-! ## What stands in an expression -/

mutual

/-- A node stands in an expression. -/
inductive Expr.Contains : Expr → Expr → Prop
  | self {e : Expr} : Expr.Contains e e
  | operand {e c n : Expr} (hc : c ∈ e.children) (h : Expr.Contains c n) : Expr.Contains e n
  | subquery {e n : Expr} {shape : QueryShape} {plan : Plan} (hk : e.kind = .query shape plan)
      (h : Plan.Contains plan n) : Expr.Contains e n

/-- A node stands in a query. -/
inductive Plan.Contains : Plan → Expr → Prop
  | expr {plan : Plan} {e n : Expr} (he : e ∈ plan.exprs) (h : Expr.Contains e n) :
      Plan.Contains plan n
  | source {plan source : Plan} {n : Expr} (hs : source ∈ plan.sources)
      (h : Plan.Contains source n) : Plan.Contains plan n

end

theorem contains_iff :
    (∀ e : Expr, e.Settled → ∀ n, e.Contains n ↔ n ∈ e.nodes) ∧
    ∀ plan : Plan, (∀ m ∈ plan.nodes, m.SettledNode) → plan.Settled →
      ∀ n, plan.Contains n ↔ n ∈ plan.nodes := by
  refine deepInduct ⟨?_, ?_⟩
  · intro e hcs hp h n
    rw [Expr.mem_nodes]
    constructor
    · intro hn
      cases hn with
      | self => exact .inr (.inr rfl)
      | operand hc hn => exact .inl ⟨_, hc, (hcs _ hc (h.children _ hc) n).1 hn⟩
      | subquery hk hn =>
        exact .inr (.inl ⟨_, _, hk, (hp _ _ hk (h.plan hk) (h.node.plan _ _ hk).2 n).1 hn⟩)
    · rintro (⟨c, hc, hn⟩ | ⟨shape, plan, hk, hn⟩ | rfl)
      · exact .operand hc ((hcs c hc (h.children c hc) n).2 hn)
      · exact .subquery hk ((hp shape plan hk (h.plan hk) (h.node.plan _ _ hk).2 n).2 hn)
      · exact .self
  -- no relation in a settled plan has a plan of its own
  · intro plan hes h hplan n
    have hsettled : ∀ e ∈ plan.exprs, e.Settled := fun e he m hm =>
      h m (plan.nodes_eq ▸ List.mem_flatMap.2 ⟨e, he, hm⟩)
    rw [plan.nodes_eq, List.mem_flatMap]
    constructor
    · intro hn
      cases hn with
      | expr he hn => exact ⟨_, he, (hes _ he (hsettled _ he) n).1 hn⟩
      | source hs => simp [hplan.sources] at hs
    · rintro ⟨e, he, hn⟩
      exact .expr he ((hes e he (hsettled e he) n).2 hn)

/-! ## The order of nodes -/

/-- In a list of nodes, those of each node stand right before it, in the order of `nodes`. -/
def OperandsFirst (nodes : List Expr) : Prop :=
  ∀ before n after, nodes = before ++ n :: after → n.nodes <:+ before ++ [n]

namespace OperandsFirst

theorem nil : OperandsFirst [] := by
  intro before n after h
  simp at h

theorem append {xs ys : List Expr} (hxs : OperandsFirst xs) (hys : OperandsFirst ys) :
    OperandsFirst (xs ++ ys) := by
  intro before n after h
  rcases List.append_eq_append_iff.1 h with ⟨more, rfl, hys'⟩ | ⟨more, hxs', hafter⟩
  · rw [List.append_assoc]
    exact (hys more n after hys').trans (List.suffix_append _ _)
  · cases more with
    | nil =>
      obtain rfl : xs = before := by simpa using hxs'
      exact (hys [] n after hafter.symm).trans ⟨xs, rfl⟩
    | cons m more =>
      obtain ⟨rfl, -⟩ := List.cons.inj hafter
      exact hxs before n more hxs'

theorem flatMap {α : Type} {f : α → List Expr} {xs : List α} (h : ∀ x ∈ xs, OperandsFirst (f x)) :
    OperandsFirst (xs.flatMap f) := by
  induction xs with
  | nil => exact nil
  | cons x xs ih =>
    exact (h x (by simp)).append (ih fun y hy => h y (List.mem_cons_of_mem x hy))

end OperandsFirst

theorem operandsFirst_nodes :
    (∀ e : Expr, OperandsFirst e.nodes) ∧ ∀ plan : Plan, OperandsFirst plan.nodes := by
  refine deepInduct ⟨?_, ?_⟩
  · intro e hcs hp
    have hbelow : OperandsFirst (e.children.flatMap Expr.nodes ++ e.planNodes) := by
      refine .append (.flatMap hcs) ?_
      unfold Expr.planNodes
      split
      · next shape plan hk => exact hp shape plan hk
      · exact .nil
    intro before n after h
    rw [Expr.nodes_eq] at h
    rcases List.eq_nil_or_concat after with rfl | ⟨after, last, rfl⟩
    · obtain ⟨rfl, hn⟩ := List.append_inj' h rfl
      obtain rfl : e = n := by simpa using hn
      exact ⟨[], by rw [List.nil_append, e.nodes_eq]⟩
    · rw [List.concat_eq_append, ← List.cons_append, ← List.append_assoc] at h
      exact hbelow before n after (List.append_inj' h rfl).1
  · intro plan hes
    rw [plan.nodes_eq]
    exact .flatMap hes

/-! ## Parts of statements -/

namespace Statement

/-- The parts of statements where expressions stand. -/
inductive Part where
  /-- The rows of an INSERT. -/
  | rows
  /-- The query of an INSERT. -/
  | query
  /-- The values that an INSERT assigns to a row with the same key. -/
  | upsert
  /-- The values after SET. -/
  | assigned
  /-- The condition after WHERE or ON. -/
  | condition
  /-- What the ranges are joined on. -/
  | join
  /-- The conditions of the branches of a MERGE. -/
  | updateGuard | deleteGuard | insertGuard
  /-- The row that a MERGE inserts. -/
  | insertedRow
  | sortKey
  /-- What is after LIMIT or OFFSET. -/
  | bound
  /-- The arguments of a routine, or the expression that is called. -/
  | argument
  /-- The query that a range is over. -/
  | source
  deriving DecidableEq, Repr

/-- The expressions that a part of a statement has. -/
def exprsAt : Statement → Part → List Expr
  | insert s, .rows => s.source.exprs
  | insert s, .upsert => s.onDuplicate.toList.flatMap (·.values)
  | update s, .assigned => s.assignments.values
  | update s, .condition => s.condition.toList
  | update s, .join => Range.joins s.ranges
  | update s, .sortKey => Slice.keys? s.slice
  | update s, .bound => Slice.bounds? s.slice
  | delete s, .condition => s.condition.toList
  | delete s, .join => Range.joins s.ranges
  | delete s, .sortKey => Slice.keys? s.slice
  | delete s, .bound => Slice.bounds? s.slice
  | merge s, .condition => [s.condition]
  | merge s, .join => Range.joins s.ranges
  | merge s, .assigned => s.update.toList.flatMap (·.assignments.values)
  | merge s, .updateGuard => s.update.toList.map (·.guard)
  | merge s, .deleteGuard => s.delete.toList
  | merge s, .insertGuard => s.insert.toList.map (·.guard)
  | merge s, .insertedRow => s.insert.toList.map (·.row)
  | call ⟨.routine _ arguments, _⟩, .argument => arguments
  | call ⟨.expression e, _⟩, .argument => [e]
  | _, _ => []

/-- The queries that a part of a statement has. -/
def plansAt : Statement → Part → List Plan
  | insert s, .query => s.source.plans
  | update s, .source => s.ranges.flatMap Range.plans
  | delete s, .source => s.ranges.flatMap Range.plans
  | merge s, .source => s.ranges.flatMap Range.plans
  | _, _ => []

/-- A node stands in a part of a statement. -/
def HoldsAt (s : Statement) (part : Part) (n : Expr) : Prop :=
  (∃ e ∈ s.exprsAt part, e.Contains n) ∨ ∃ plan ∈ s.plansAt part, plan.Contains n

/-- The parts that the pass over a statement comes to, in their order. -/
def visited : Statement → List Part
  | insert _ => [.rows, .query, .upsert]
  | update _ => [.join, .assigned, .condition]
  | delete _ => [.join, .condition]
  | merge _ => [.join, .updateGuard, .assigned, .deleteGuard, .insertGuard, .insertedRow]
  | truncate _ => []
  | call _ => [.argument]

/-- The nodes of a part. -/
def nodesAt (s : Statement) (part : Part) : List Expr :=
  (s.exprsAt part).flatMap Expr.nodes ++ (s.plansAt part).flatMap Plan.nodes

variable {s : Statement} {n : Expr}

theorem nodesOfList_joins (ranges : List Range) :
    Range.nodesOfList ranges = (Range.joins ranges).flatMap Expr.nodes := by
  rw [Range.nodesOfList_eq, Range.joins, List.flatMap_assoc]

/-- The pass over a statement goes from part to part. -/
theorem nodes_eq (s : Statement) : s.nodes = s.visited.flatMap s.nodesAt := by
  cases s with
  | insert s =>
    obtain ⟨target, mode, columnMap, checkList, source, overrideIndex, onDuplicate,
      tables⟩ := s
    cases source <;> cases onDuplicate <;>
      simp [nodes, visited, nodesAt, exprsAt, plansAt, InsertSource.nodes, InsertSource.exprs,
        InsertSource.plans, Assignments.nodes, Expr.nodesOfList_eq]
  | update s | delete s =>
    simp [nodes, visited, nodesAt, exprsAt, plansAt, Assignments.nodes, Expr.nodesOfList_eq,
      Expr.nodesOfOption_eq, nodesOfList_joins]
  | merge s =>
    obtain ⟨target, ranges, condition, update, delete, insert, deleteFirst, tables⟩ := s
    cases update <;> cases delete <;> cases insert <;>
      simp [nodes, MergeStatement.nodes, visited, nodesAt, exprsAt, plansAt, Assignments.nodes,
        Expr.nodesOfList_eq, nodesOfList_joins]
  | truncate s => rfl
  | call s =>
    obtain ⟨target, tables⟩ := s
    cases target <;> simp [nodes, visited, nodesAt, exprsAt, plansAt, Expr.nodesOfList_eq]

/-- The expressions of any part are stored by the statement. -/
theorem exprsAt_subset (part : Part) : s.exprsAt part ⊆ s.exprs := by
  have hslice : ∀ slice, Slice.keys? slice ⊆ Slice.exprs? slice ∧
      Slice.bounds? slice ⊆ Slice.exprs? slice := by
    intro slice
    cases slice <;> simp [Slice.keys?, Slice.bounds?, Slice.exprs?, Slice.exprs]
  intro e he
  cases s with
  | insert s => cases part <;> simp_all [exprsAt, exprs]
  | update s =>
    cases part <;> simp only [exprsAt, List.not_mem_nil] at he
    case sortKey => simp [exprs, (hslice _).1 he]
    case bound => simp [exprs, (hslice _).2 he]
    all_goals simp [exprs, he]
  | delete s =>
    cases part <;> simp only [exprsAt, List.not_mem_nil] at he
    case sortKey => simp [exprs, (hslice _).1 he]
    case bound => simp [exprs, (hslice _).2 he]
    all_goals simp [exprs, he]
  | merge s =>
    obtain ⟨target, ranges, condition, update, delete, insert, deleteFirst, tables⟩ := s
    cases part <;> cases update <;> cases delete <;> cases insert <;>
      simp_all [exprsAt, exprs, MergeStatement.branchExprs, MergeUpdate.exprs, MergeInsert.exprs]
  | truncate s => cases he
  | call s =>
    obtain ⟨target, tables⟩ := s
    cases target <;> cases part <;> simp_all [exprsAt, exprs]

/-- The queries that a pass comes to are stored by the statement. -/
theorem plansAt_subset {part : Part} (hpart : part ∈ s.visited) : s.plansAt part ⊆ s.plans := by
  cases s with
  | _ => cases part <;> simp_all [visited, plansAt, plans]

/-- Whatever stands in a statement stands in a part that is visited, in a slice or in the query of a
range, or it is the condition of a MERGE. -/
theorem HoldsAt.part {part : Part} (h : s.HoldsAt part n) : part ∈ s.visited ∨
    part ∈ [.sortKey, .bound, .source] ∨ part = .condition ∧ ∃ m, s = .merge m := by
  have hsome : s.exprsAt part ≠ [] ∨ s.plansAt part ≠ [] := by
    rcases h with ⟨e, he, -⟩ | ⟨plan, hplan, -⟩
    · exact .inl (List.ne_nil_of_mem he)
    · exact .inr (List.ne_nil_of_mem hplan)
  cases s with
  | call s =>
    obtain ⟨target, tables⟩ := s
    cases target <;> cases part <;> simp_all [exprsAt, plansAt, visited]
  | _ => cases part <;> simp_all [exprsAt, plansAt, visited]

end Statement

/-! ## Conjuncts -/

namespace Expr

theorem conjuncts_subset_nodes (e : Expr) : e.conjuncts ⊆ e.nodes := by
  induction e using induct with
  | h e ih =>
    obtain ⟨kind, fragment, type⟩ := e
    have hself : Expr.conjuncts ⟨kind, fragment, type⟩ = [⟨kind, fragment, type⟩] →
        Expr.conjuncts ⟨kind, fragment, type⟩ ⊆ Expr.nodes ⟨kind, fragment, type⟩ := by
      intro h
      simpa [h] using self_mem_nodes _
    cases kind with
    | binary op left right =>
      cases op
      case and =>
        intro c hc
        rw [Expr.conjuncts, Expr.kindConjuncts] at hc
        rcases List.mem_append.1 hc with hc | hc
        · exact mem_nodes.2 (.inl ⟨left, by simp [children], ih left (by simp [children]) hc⟩)
        · exact mem_nodes.2 (.inl ⟨right, by simp [children], ih right (by simp [children]) hc⟩)
      all_goals exact hself rfl
    | _ => exact hself rfl

theorem nodes_subset_and? {n : Expr} (whole e : Option Expr)
    (h : (∃ c ∈ whole, n ∈ c.nodes) ∨ ∃ c ∈ e, n ∈ c.nodes) :
    ∃ c ∈ and? whole e, n ∈ c.nodes := by
  cases whole <;> cases e <;> simp_all [and?, and, nodes, ExprKind.nodes]
  rcases h with h | h <;> simp [h]

/-- The nodes of some conditions are nodes of their conjunction. -/
theorem mem_nodes_conjoin {es : List Expr} {e n : Expr} (he : e ∈ es) (hn : n ∈ e.nodes) :
    ∃ c ∈ conjoin es, n ∈ c.nodes := by
  have hfold : ∀ (es : List Expr) (whole : Option Expr),
      (∃ c ∈ whole, n ∈ c.nodes) ∨ (∃ c ∈ es, n ∈ c.nodes) →
      ∃ c ∈ es.foldl (fun whole e => and? whole (some e)) whole, n ∈ c.nodes := by
    intro es
    induction es with
    | nil => simp
    | cons e es ih =>
      intro whole h
      refine ih _ ?_
      rcases h with h | ⟨c, hc, hn⟩
      · exact .inl (nodes_subset_and? _ _ (.inl h))
      · rcases List.mem_cons.1 hc with rfl | hc
        · exact .inl (nodes_subset_and? _ _ (.inr ⟨c, rfl, hn⟩))
        · exact .inr ⟨c, hc, hn⟩
  exact hfold es none (.inr ⟨e, he, hn⟩)

end Expr

namespace JoinCondition

theorem lastReferenced?_lt {e : Expr} {ranges : List Range} {i : Nat}
    (h : lastReferenced? e ranges = some i) : i < ranges.length := by
  induction ranges generalizing i with
  | nil => cases h
  | cons r ranges ih =>
    unfold lastReferenced? at h
    split at h
    · next j hj =>
      obtain rfl := Option.some.inj h
      exact Nat.succ_lt_succ (ih hj)
    · split at h
      · obtain rfl := Option.some.inj h
        exact Nat.succ_pos _
      · cases h

/-- Every conjunct is placed on some range. -/
theorem mem_joins_distribute {ranges : List Range} {c n : Expr} (hc : c ∈ conjuncts ranges)
    (hn : n ∈ c.nodes) : ∃ e ∈ Range.joins (distribute ranges), n ∈ e.nodes := by
  have hplace : place ranges c < ranges.length := by
    unfold place
    cases hlast : lastReferenced? c ranges with
    | none =>
      obtain ⟨r, hr, -⟩ := List.mem_flatMap.1 hc
      exact List.length_pos_of_mem hr
    | some i => exact lastReferenced?_lt hlast
  have hplaced : c ∈ (conjuncts ranges).filter fun e => place ranges e = place ranges c := by
    simp [hc]
  obtain ⟨e, he, hn⟩ := Expr.mem_nodes_conjoin hplaced hn
  refine ⟨e, List.mem_flatMap.2 ⟨_, List.mem_mapIdx.2 ⟨place ranges c, hplace, rfl⟩, ?_⟩, hn⟩
  simpa using he

end JoinCondition

variable {env : Environment} {s t : CompilerState} {statement : Statement}

/-- The conjuncts of a condition are on the ranges. -/
theorem Moved.conjuncts_joined {w : Written} {beside : List Range} {next : Nat}
    (h : Moved env s w beside next statement) {e c n : Expr} (he : e ∈ statement.condition?)
    (hc : c ∈ e.conjuncts) (hn : n ∈ c.nodes) :
    ∃ j ∈ Range.joins statement.ranges, n ∈ j.nodes := by
  obtain ⟨values, hranges⟩ := h.ranges
  rw [hranges]
  refine JoinCondition.mem_joins_distribute (List.mem_flatMap.2
    ⟨_, List.mem_append_right _ (List.mem_singleton.2 rfl), ?_⟩) hn
  obtain ⟨-, -, -, hjoin⟩ := w.target.rangeFor_fields values statement.condition?
  rw [hjoin, h.unjoined.2]
  simpa [Expr.and?, Option.mem_def.1 he] using hc

/-! ## Compiled statements -/

namespace Statement

/-- All nodes that a compiled statement stores are settled. -/
theorem compileHead_settled (h : compileHead env s = .ok statement t) :
    (∀ e ∈ statement.exprs, e.Settled) ∧
      ∀ plan ∈ statement.plans, plan.Settled ∧ ∀ m ∈ plan.nodes, m.SettledNode := by
  refine ⟨fun e he => (compileHead_stores h e he).settled, fun plan hplan => ?_⟩
  obtain ⟨I, visible, hr⟩ := compileHead_plans h plan hplan
  exact ⟨hr.settled, hr.settledNodes⟩

/-- A statement with a condition changes rows, and its ranges are joined on the conjuncts. -/
theorem condition_parts {e : Expr} (he : e ∈ statement.exprsAt .condition) :
    statement.changesRows = true ∧ e ∈ statement.condition? ∧ e ∈ statement.exprs ∧
      .join ∈ statement.visited ∧ statement.exprsAt .join = Range.joins statement.ranges := by
  cases statement with
  | call s => simp [exprsAt] at he
  | _ => simp_all [exprsAt, changesRows, condition?, exprs, visited, ranges]

/-- Of a compiled statement the pass visits what stands in the parts that it comes to, a node after
all that stands in the node. All else that stands in the statement are keys and bounds of a slice,
the query that a range is over, and the condition of a MERGE, of which it visits the conjuncts. -/
theorem nodes_visited {text : String} (h : compile env text s = .ok statement t) :
    (∀ n, n ∈ statement.nodes ↔ ∃ part ∈ statement.visited, statement.HoldsAt part n) ∧
    (∀ part n, statement.HoldsAt part n → part ∈ statement.visited ∨
      part ∈ [.sortKey, .bound, .source] ∨ part = .condition ∧ ∃ m, statement = .merge m) ∧
    (∀ e ∈ statement.exprsAt .condition, ∀ c ∈ e.conjuncts, ∀ n, c.Contains n →
      n ∈ statement.nodes) ∧
    ∀ before n after, statement.nodes = before ++ n :: after →
      n.nodes <:+ before ++ [n] ∧ ∀ m, n.Contains m ↔ m ∈ n.nodes := by
  obtain ⟨tokens, u, c, -, hhead, -⟩ := compile_ok h
  obtain ⟨hexprs, hplans⟩ := compileHead_settled hhead
  have hnodes : ∀ n, n ∈ statement.nodes ↔
      ∃ part ∈ statement.visited, statement.HoldsAt part n := by
    intro n
    rw [nodes_eq, List.mem_flatMap]
    refine exists_congr fun part => and_congr_right fun hpart => ?_
    simp only [nodesAt, HoldsAt, List.mem_append, List.mem_flatMap]
    refine or_congr (exists_congr fun e => and_congr_right fun he => ?_)
      (exists_congr fun plan => and_congr_right fun hplan => ?_)
    · exact (contains_iff.1 e (hexprs e (exprsAt_subset part he)) n).symm
    · obtain ⟨hsettled, hnodes⟩ := hplans plan (plansAt_subset hpart hplan)
      exact (contains_iff.2 plan hnodes hsettled n).symm
  have hsettled : ∀ n ∈ statement.nodes, n.Settled := by
    intro n hn m hm
    rw [nodes_eq, List.mem_flatMap] at hn
    obtain ⟨part, hpart, hn⟩ := hn
    rcases List.mem_append.1 hn with hn | hn
    · obtain ⟨e, he, hn⟩ := List.mem_flatMap.1 hn
      exact hexprs e (exprsAt_subset part he) m (nodes_trans.1 e n hn hm)
    · obtain ⟨plan, hplan, hn⟩ := List.mem_flatMap.1 hn
      exact (hplans plan (plansAt_subset hpart hplan)).2 m (nodes_trans.2 plan n hn hm)
  -- a conjunct of the condition is a conjunct of a join, and the joins are visited
  refine ⟨hnodes, fun part n hn => hn.part, fun e he c hc n hn => ?_, ?_⟩
  · obtain ⟨hkind, hcondition, hstored, hvisited, hjoins⟩ := condition_parts he
    obtain ⟨w, beside, -, hmoved⟩ := compileHead_writes hhead hkind
    have hsettled : c.Settled := fun m hm =>
      hexprs e hstored m (nodes_trans.1 e c (e.conjuncts_subset_nodes hc) hm)
    obtain ⟨j, hj, hn⟩ := hmoved.conjuncts_joined hcondition hc ((contains_iff.1 c hsettled n).1 hn)
    rw [nodes_eq, List.mem_flatMap]
    refine ⟨.join, hvisited, List.mem_append_left _ (List.mem_flatMap.2 ⟨j, ?_, hn⟩)⟩
    rwa [hjoins]
  · intro before n after hsplit
    have hn : n ∈ statement.nodes := by simp [hsplit]
    refine ⟨?_, fun m => contains_iff.1 n (hsettled n hn) m⟩
    rw [nodes_eq] at hsplit
    refine (OperandsFirst.flatMap fun part _ => ?_) before n after hsplit
    exact .append (.flatMap fun e _ => operandsFirst_nodes.1 e)
      (.flatMap fun plan _ => operandsFirst_nodes.2 plan)

/-- A MERGE with a query as its source and a condition of two conjuncts. -/
def mergeOfQuery : String :=
  "MERGE INTO t USING (SELECT id FROM t) AS x ON t.id = x.id AND a > 1 WHEN MATCHED THEN DELETE"

set_option maxRecDepth 10000 in
theorem nodes_visited_merge :
    ∃ statement t, compile .bank mergeOfQuery .initial = .ok statement t ∧
      statement.nodes.length = 8 ∧ statement.plansAt .source ≠ [] ∧
      (∀ n, n ∈ statement.nodes ↔ ∃ part ∈ statement.visited, statement.HoldsAt part n) ∧
      ∀ e ∈ statement.exprsAt .condition, ∀ c ∈ e.conjuncts, ∀ n, c.Contains n →
        n ∈ statement.nodes := by
  obtain ⟨statement, t, hcompile, hcheck⟩ := exists_compile .bank mergeOfQuery
    (fun statement => statement.nodes.length = 8 ∧ (statement.plansAt .source).length = 1)
    rfl (by decide +kernel)
  obtain ⟨hlength, hsource⟩ := of_decide_eq_true hcheck
  obtain ⟨hnodes, -, hconjuncts, -⟩ := nodes_visited hcompile
  exact ⟨statement, t, hcompile, hlength, List.ne_nil_of_length_pos (by omega), hnodes, hconjuncts⟩

set_option maxRecDepth 10000 in
/-- The keys of a slice are not visited. -/
theorem sortKey_not_visited :
    ∃ statement t n, compile .bank "DELETE FROM t ORDER BY b LIMIT 1" .initial = .ok statement t ∧
      statement.HoldsAt .sortKey n ∧ n ∉ statement.nodes := by
  obtain ⟨statement, t, hcompile, hcheck⟩ := exists_compile .bank "DELETE FROM t ORDER BY b LIMIT 1"
    (fun statement => (statement.exprsAt .sortKey).length = 1 ∧ statement.nodes.length = 0)
    rfl (by decide +kernel)
  obtain ⟨hkeys, hnodes⟩ := of_decide_eq_true hcheck
  obtain ⟨key, hkey⟩ := List.length_eq_one_iff.1 hkeys
  rw [List.length_eq_zero_iff] at hnodes
  exact ⟨statement, t, key, hcompile, .inl ⟨key, by simp [hkey], .self⟩, by simp [hnodes]⟩

end Statement

end DataChange
