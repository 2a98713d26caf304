import DataChange.Proofs.Expr.Tree
import DataChange.Statement.Update

/-!
# What a statement holds

`Statement.exprs` lists all expressions that a statement stores, those of its slice and of its
ranges included, and `Statement.plans` the queries that are not inside an expression.

A condition is stored twice: as it is, and split into conjuncts on the ranges. What is
`Conjunctive` passes from the one to the other (`distribute_joins`).
-/

namespace DataChange

/-! ## Expressions and plans -/

/-- The keys and the bounds of a slice. -/
def Slice.exprs (s : Slice) : List Expr :=
  s.orderBy.map (·.key) ++ s.limit :: s.offset.toList

/-- The expressions of a slice that may be missing. -/
def Slice.exprs? (s : Option Slice) : List Expr :=
  s.toList.flatMap Slice.exprs

def InsertSource.exprs : InsertSource → List Expr
  | values rows => [rows]
  | query _ => []

def InsertSource.plans : InsertSource → List Plan
  | values _ => []
  | query plan => [plan]

/-- The query that a range is over. -/
def Range.plans (r : Range) : List Plan :=
  match r.source with
  | .derived plan => [plan]
  | _ => []

/-- The queries that the ranges of a query are over. -/
def Plan.sources : Plan → List Plan
  | .select _ _ ranges _ => ranges.flatMap Range.plans
  | .values .. => []

/-- The conditions on which ranges are joined. -/
def Range.joins (rs : List Range) : List Expr :=
  rs.flatMap (·.join.toList)

def MergeUpdate.exprs (u : MergeUpdate) : List Expr :=
  u.guard :: u.assignments.values

def MergeInsert.exprs (i : MergeInsert) : List Expr :=
  [i.guard, i.row]

/-- The branches of a MERGE. -/
def MergeStatement.branchExprs (m : MergeStatement) : List Expr :=
  m.update.toList.flatMap MergeUpdate.exprs ++ m.delete.toList ++
    m.insert.toList.flatMap MergeInsert.exprs

namespace Statement

/-- The expressions that a statement stores. -/
def exprs : Statement → List Expr
  | insert s => s.source.exprs ++ s.onDuplicate.toList.flatMap (·.values)
  | update s =>
    s.assignments.values ++ s.condition.toList ++ Slice.exprs? s.slice ++ Range.joins s.ranges
  | delete s => s.condition.toList ++ Slice.exprs? s.slice ++ Range.joins s.ranges
  | merge s => s.condition :: s.branchExprs ++ Range.joins s.ranges
  | truncate _ => []
  | call ⟨.routine _ arguments, _⟩ => arguments
  | call ⟨.expression e, _⟩ => [e]

/-- The queries that a statement stores outside of expressions. -/
def plans : Statement → List Plan
  | insert s => s.source.plans
  | merge s => s.ranges.flatMap Range.plans
  | _ => []

/-- All nodes of all expressions that a statement stores. -/
def heldNodes (s : Statement) : List Expr :=
  s.exprs.flatMap Expr.nodes ++ s.plans.flatMap Plan.nodes

end Statement

/-! ## Conjunctions -/

namespace Expr

/-- What holds of a conjunction if and only if it holds of both sides. -/
structure Conjunctive (P : Expr → Prop) : Prop where
  split : ∀ {left right : Expr} {fragment : Fragment} {type : Option SqlType},
    P ⟨.binary .and left right, fragment, type⟩ → P left ∧ P right
  join : ∀ {left right : Expr}, P left → P right → P (and left right)

namespace Conjunctive

variable {P : Expr → Prop}

theorem and? (hP : Conjunctive P) {e f : Option Expr} (he : ∀ c ∈ e, P c) (hf : ∀ c ∈ f, P c) :
    ∀ c ∈ Expr.and? e f, P c := by
  cases e with
  | none => exact hf
  | some left =>
    cases f with
    | none => exact he
    | some right =>
      intro c hc
      obtain rfl : Expr.and left right = c := by simpa [Expr.and?] using hc
      exact hP.join (he left rfl) (hf right rfl)

theorem conjuncts (hP : Conjunctive P) (e : Expr) (he : P e) : ∀ c ∈ e.conjuncts, P c := by
  induction e using induct with
  | h e ih =>
    obtain ⟨kind, fragment, type⟩ := e
    have hself : Expr.conjuncts ⟨kind, fragment, type⟩ = [⟨kind, fragment, type⟩] →
        ∀ c ∈ Expr.conjuncts ⟨kind, fragment, type⟩, P c := by
      intro h c hc
      rw [h, List.mem_singleton] at hc
      exact hc ▸ he
    cases kind with
    | binary op left right =>
      cases op
      case and =>
        obtain ⟨hl, hr⟩ := hP.split he
        intro c hc
        rw [Expr.conjuncts, Expr.kindConjuncts] at hc
        rcases List.mem_append.1 hc with hc | hc
        · exact ih left (by simp [children]) hl c hc
        · exact ih right (by simp [children]) hr c hc
      all_goals exact hself rfl
    | _ => exact hself rfl

theorem conjoin (hP : Conjunctive P) {es : List Expr} (h : ∀ e ∈ es, P e) :
    ∀ e ∈ Expr.conjoin es, P e := by
  have hfold : ∀ (es : List Expr) (whole : Option Expr), (∀ e ∈ whole, P e) → (∀ e ∈ es, P e) →
      ∀ e ∈ es.foldl (fun whole e => Expr.and? whole (some e)) whole, P e := by
    intro es
    induction es with
    | nil => exact fun _ hw _ => hw
    | cons e es ih =>
      intro whole hw hes
      refine ih _ (hP.and? hw ?_) fun c hc => hes c (by simp [hc])
      simpa using hes e (by simp)
  exact hfold es none (by simp) h

/-- Placing conjuncts on ranges keeps what is conjunctive. -/
theorem distribute_joins (hP : Conjunctive P) {ranges : List Range}
    (h : ∀ e ∈ Range.joins ranges, P e) :
    ∀ e ∈ Range.joins (JoinCondition.distribute ranges), P e := by
  have hconjuncts : ∀ e ∈ JoinCondition.conjuncts ranges, P e := by
    intro e he
    obtain ⟨r, hr, he⟩ := List.mem_flatMap.1 he
    cases hj : r.join with
    | none => simp [hj] at he
    | some condition =>
      refine hP.conjuncts condition (h condition ?_) e (by simpa [hj] using he)
      exact List.mem_flatMap.2 ⟨r, hr, by simp [hj]⟩
  intro e he
  obtain ⟨r, hr, he⟩ := List.mem_flatMap.1 he
  obtain ⟨i, hi, rfl⟩ := List.mem_mapIdx.1 hr
  refine hP.conjoin (fun c hc => ?_) e (by simpa using he)
  exact hconjuncts c (List.mem_filter.1 hc).1

end Conjunctive

end Expr

/-! ## The changed range -/

theorem Range.plans_distribute (ranges : List Range) :
    (JoinCondition.distribute ranges).flatMap Range.plans = ranges.flatMap Range.plans := by
  have h : (JoinCondition.distribute ranges).map Range.plans = ranges.map Range.plans := by
    refine List.ext_getElem (by simp [JoinCondition.distribute]) fun i hi hi' => ?_
    simp [JoinCondition.distribute, Range.plans]
  rw [List.flatMap_def, h, ← List.flatMap_def]

namespace ViewTarget

theorem markUsed_fields (values : List Expr) (r : Range) :
    (values.foldl Range.markUsed r).id = r.id ∧
      (values.foldl Range.markUsed r).source = r.source ∧
      (values.foldl Range.markUsed r).columns = r.columns ∧
      (values.foldl Range.markUsed r).join = r.join := by
  induction values generalizing r with
  | nil => exact ⟨rfl, rfl, rfl, rfl⟩
  | cons e values ih => exact ih (r.markUsed e)

/-- The changed range has the condition of the statement to join on. -/
theorem rangeFor_fields (target : ViewTarget) (values : List Expr) (condition : Option Expr) :
    (target.rangeFor values condition).id = target.range.id ∧
      (target.rangeFor values condition).source = target.range.source ∧
      (target.rangeFor values condition).columns = target.range.columns ∧
      (target.rangeFor values condition).join = Expr.and? target.range.join condition := by
  obtain ⟨hid, hsource, hcolumns, hjoin⟩ := markUsed_fields values target.range
  cases condition with
  | none =>
    refine ⟨hid, hsource, hcolumns, hjoin.trans ?_⟩
    cases target.range.join <;> rfl
  | some condition =>
    exact ⟨hid, hsource, hcolumns, by simp [rangeFor, Range.addJoin, Range.markUsed, hjoin]⟩

theorem plans_rangeFor (target : ViewTarget) (values : List Expr) (condition : Option Expr) :
    (target.rangeFor values condition).plans = target.range.plans := by
  obtain ⟨-, hsource, -⟩ := target.rangeFor_fields values condition
  simp [Range.plans, hsource]

end ViewTarget

/-- What is conjunctive passes from the condition of a statement to its ranges. -/
theorem Expr.Conjunctive.rangeFor_joins {P : Expr → Prop} (hP : Conjunctive P) {target : ViewTarget}
    (hjoin : target.range.join = none) (values : List Expr) {condition : Option Expr}
    {before : List Range} (hbefore : Range.joins before = []) (h : ∀ e ∈ condition, P e) :
    ∀ e ∈ Range.joins (JoinCondition.distribute (before ++ [target.rangeFor values condition])),
      P e := by
  obtain ⟨-, -, -, hj⟩ := target.rangeFor_fields values condition
  have hjoins : Range.joins (before ++ [target.rangeFor values condition]) = condition.toList := by
    rw [Range.joins, List.flatMap_append, ← Range.joins, hbefore]
    simp [hj, hjoin, Expr.and?]
  refine hP.distribute_joins ?_
  rw [hjoins]
  exact fun e he => h e (by simpa using he)

end DataChange
