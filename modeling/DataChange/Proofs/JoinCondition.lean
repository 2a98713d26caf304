import DataChange.Proofs.View.Written

/-!
# Where conjuncts are placed

Placing conjuncts on ranges moves them about and does nothing else. No conjunct is lost, doubled or
changed (`conjuncts_distribute`), each ends up on the last range that it refers to
(`Placed.place`), and once placed it stays (`distribute_distribute`). So the ranges of a statement
hold its condition and nothing besides. What the conjuncts of a condition are, and when one refers to
a range, is said by relations: `Expr.Splits` and `Expr.Mentions`.
-/

namespace DataChange

/-! ## Conjuncts and conjunctions -/

namespace Expr

@[simp]
theorem conjuncts_and (left right : Expr) :
    (and left right).conjuncts = left.conjuncts ++ right.conjuncts := by
  simp [and, conjuncts, kindConjuncts]

/-- An expression is taken apart at the ANDs at its top, from left to right. -/
inductive Splits : Expr → List Expr → Prop
  | both {left right : Expr} {ls rs : List Expr} {fragment : Fragment} {type : Option SqlType}
      (hl : Splits left ls) (hr : Splits right rs) :
      Splits ⟨.binary .and left right, fragment, type⟩ (ls ++ rs)
  | single {e : Expr} (h : ∀ left right, e.kind ≠ .binary .and left right) : Splits e [e]

theorem splits_iff {e : Expr} {es : List Expr} : e.Splits es ↔ e.conjuncts = es := by
  constructor
  · intro h
    induction h with
    | both _ _ ihl ihr => rw [conjuncts, kindConjuncts, ihl, ihr]
    | @single e h =>
      obtain ⟨kind, fragment, type⟩ := e
      have hnone : kindConjuncts kind = none := by
        unfold kindConjuncts
        split
        · exact absurd rfl (h _ _)
        · rfl
      rw [conjuncts, hnone]
  -- on the tree: the conjuncts of AND are those of its two sides, any other node is one itself
  · rintro rfl
    induction e using induct with
    | h e ih =>
      obtain ⟨kind, fragment, type⟩ := e
      rw [conjuncts]
      unfold kindConjuncts
      split
      · next hsome =>
        split at hsome
        · obtain rfl := Option.some.inj hsome
          exact .both (ih _ (by simp [children])) (ih _ (by simp [children]))
        · cases hsome
      · next hnone =>
        split at hnone
        · cases hnone
        · next hother => exact .single fun left right hand => hother left right hand

/-- An expression refers to a range: some node of it, within subqueries too, is one of its
columns. -/
def Mentions (e : Expr) (range : Nat) : Prop :=
  ∃ node ∈ e.nodes, ∃ binding ∈ node.binding?, binding.range = range

/-- A conjunct is not taken apart further. -/
theorem conjuncts_of_mem (e : Expr) : ∀ c ∈ e.conjuncts, c.conjuncts = [c] := by
  induction e using induct with
  | h e ih =>
    obtain ⟨kind, fragment, type⟩ := e
    have hself : conjuncts ⟨kind, fragment, type⟩ = [⟨kind, fragment, type⟩] →
        ∀ c ∈ conjuncts ⟨kind, fragment, type⟩, c.conjuncts = [c] := by
      intro h c hc
      rw [h, List.mem_singleton] at hc
      exact hc ▸ h
    cases kind with
    | binary op left right =>
      cases op
      case and =>
        intro c hc
        rw [conjuncts, kindConjuncts] at hc
        rcases List.mem_append.1 hc with hc | hc
        · exact ih left (by simp [children]) c hc
        · exact ih right (by simp [children]) c hc
      all_goals exact hself rfl
    | _ => exact hself rfl

/-- The conjuncts of a condition that may be missing. -/
def conjuncts? (condition : Option Expr) : List Expr :=
  condition.toList.flatMap conjuncts

/-- A condition that may be missing is taken apart. -/
inductive SplitsCondition : Option Expr → List Expr → Prop
  | none : SplitsCondition none []
  | some {e : Expr} {es : List Expr} (h : e.Splits es) : SplitsCondition (some e) es

theorem splitsCondition_iff {condition : Option Expr} {es : List Expr} :
    SplitsCondition condition es ↔ conjuncts? condition = es := by
  cases condition with
  | none => exact ⟨fun | .none => rfl, fun h => h ▸ .none⟩
  | some e =>
    simp only [conjuncts?, Option.toList_some, List.flatMap_singleton]
    exact ⟨fun | .some h => splits_iff.1 h, fun h => .some (splits_iff.2 h)⟩

theorem conjuncts?_and? (left right : Option Expr) :
    conjuncts? (and? left right) = conjuncts? left ++ conjuncts? right := by
  cases left <;> cases right <;> simp [conjuncts?, and?]

theorem conjuncts?_conjoin (es : List Expr) :
    conjuncts? (conjoin es) = es.flatMap conjuncts := by
  have hfold : ∀ (es : List Expr) (whole : Option Expr),
      conjuncts? (es.foldl (fun whole e => and? whole (some e)) whole) =
        conjuncts? whole ++ es.flatMap conjuncts := by
    intro es
    induction es with
    | nil => simp
    | cons e es ih =>
      intro whole
      rw [List.foldl_cons, ih, conjuncts?_and?]
      simp [conjuncts?]
  exact hfold es none

/-- What cannot be taken apart is found again in the conjunction. -/
theorem conjuncts?_conjoin_of_single {es : List Expr} (h : ∀ e ∈ es, e.conjuncts = [e]) :
    conjuncts? (conjoin es) = es := by
  rw [conjuncts?_conjoin, List.flatMap_congr h, List.flatMap_singleton']

theorem refersTo_iff {e : Expr} {id : Nat} : e.refersTo id = true ↔ e.Mentions id := by
  simp [refersTo, Mentions, Option.any_eq_true]

/-- The referenced ranges are those that are mentioned. -/
theorem mem_referencedRanges {e : Expr} {id : Nat} : id ∈ e.referencedRanges ↔ e.Mentions id := by
  have hfold : ∀ (mentions ids : List Nat),
      id ∈ mentions.foldl (fun ids id => if id ∈ ids then ids else ids ++ [id]) ids ↔
        id ∈ ids ∨ id ∈ mentions := by
    intro mentions
    induction mentions with
    | nil => simp
    | cons m mentions ih =>
      intro ids
      rw [List.foldl_cons, ih]
      split
      · rename_i hm
        simp only [List.mem_cons]
        grind
      · simp [or_assoc]
  rw [referencedRanges, hfold]
  simp [Mentions, List.mem_filterMap]

end Expr

/-! ## Buckets -/

/-- Sorted into buckets by a number below a bound, a list keeps its elements. -/
theorem buckets_perm {α : Type} (key : α → Nat) {n : Nat} {xs : List α} (h : ∀ x ∈ xs, key x < n) :
    ((List.range n).flatMap fun i => xs.filter (key · = i)).Perm xs := by
  have hbelow : ∀ m, ((List.range m).flatMap fun i => xs.filter (key · = i)).Perm
      (xs.filter (key · < m)) := by
    intro m
    induction m with
    | zero => simp
    | succ m ih =>
      rw [List.range_succ, List.flatMap_append, List.flatMap_singleton]
      refine (ih.append_right _).trans ?_
      have hsplit := List.filter_append_perm (key · < m) (xs.filter (key · < m + 1))
      simp only [List.filter_filter] at hsplit
      refine .trans (.of_eq ?_) hsplit
      congr 1 <;>
      · refine List.filter_congr fun x _ => Bool.eq_iff_iff.2 ?_
        simp
        omega
  refine (hbelow n).trans (.of_eq (List.filter_eq_self.2 fun x hx => ?_))
  simpa using h x hx

/-- Of the elements in the buckets, those for one bucket are those in it. -/
theorem filter_buckets {α : Type} (key : α → Nat) (xs : List α) {n i : Nat} (h : i < n) :
    ((List.range n).flatMap fun k => xs.filter (key · = k)).filter (key · = i) =
      xs.filter (key · = i) := by
  have hother : ∀ k, k ≠ i → (xs.filter (key · = k)).filter (key · = i) = [] := by
    intro k hk
    rw [List.filter_eq_nil_iff]
    intro x hx
    have hx : key x = k := by simpa using (List.mem_filter.1 hx).2
    simpa [hx] using hk
  induction n with
  | zero => omega
  | succ n ih =>
    rw [List.range_succ, List.flatMap_append, List.flatMap_singleton, List.filter_append]
    by_cases hi : i = n
    · subst hi
      have hbefore : ((List.range i).flatMap fun k => xs.filter (key · = k)).filter
          (key · = i) = [] := by
        rw [List.filter_flatMap, List.flatMap_eq_nil_iff]
        exact fun k hk => hother k (by simp at hk; omega)
      rw [hbefore, List.nil_append, List.filter_filter]
      simp
    · rw [ih (by omega), hother n (Ne.symm hi), List.append_nil]

namespace JoinCondition

/-! ## Places -/

/-- The last of some ranges that an expression refers to. -/
def IsLast (ranges : List Range) (e : Expr) (i : Nat) : Prop :=
  (∃ r ∈ ranges[i]?, e.Mentions r.id) ∧
    ∀ j, ∀ r ∈ ranges[j]?, e.Mentions r.id → j ≤ i

theorem lastReferenced?_none {e : Expr} {ranges : List Range}
    (h : lastReferenced? e ranges = none) : ∀ r ∈ ranges, ¬ e.Mentions r.id := by
  induction ranges with
  | nil => simp
  | cons r rs ih =>
    rw [lastReferenced?] at h
    split at h
    · cases h
    · rename_i hrest
      split at h
      · cases h
      · rename_i hr
        intro r' hr'
        rcases List.mem_cons.1 hr' with rfl | hr'
        · exact fun hmem => hr (Expr.refersTo_iff.2 hmem)
        · exact ih hrest r' hr'

theorem lastReferenced?_some {e : Expr} {ranges : List Range} {i : Nat}
    (h : lastReferenced? e ranges = some i) : IsLast ranges e i := by
  induction ranges generalizing i with
  | nil => cases h
  -- from the last range on: the head counts only when no range behind it is referred to
  | cons r rs ih =>
    rw [lastReferenced?] at h
    split at h
    · rename_i k hk
      cases h
      obtain ⟨hrefers, hlater⟩ := ih hk
      refine ⟨by simpa using hrefers, fun j r' hr' hmem => ?_⟩
      cases j with
      | zero => omega
      | succ j =>
        have := hlater j r' (by simpa using hr') hmem
        omega
    · rename_i hnone
      split at h
      · rename_i hr
        cases h
        refine ⟨⟨r, by simp, Expr.refersTo_iff.1 hr⟩, fun j r' hr' hmem => ?_⟩
        cases j with
        | zero => omega
        | succ j =>
          have hr' : r' ∈ rs := List.mem_of_getElem? (by simpa using hr')
          exact absurd hmem (lastReferenced?_none hnone r' hr')
      · cases h

/-- Where a conjunct is placed. -/
theorem place_spec (ranges : List Range) (e : Expr) :
    IsLast ranges e (place ranges e) ∨
      place ranges e = 0 ∧ ∀ r ∈ ranges, ¬ e.Mentions r.id := by
  unfold place
  cases h : lastReferenced? e ranges with
  | none => exact .inr ⟨rfl, lastReferenced?_none h⟩
  | some i => exact .inl (lastReferenced?_some h)

theorem place_lt {ranges : List Range} (h : ranges ≠ []) (e : Expr) :
    place ranges e < ranges.length := by
  rcases place_spec ranges e with ⟨⟨r, hr, -⟩, -⟩ | ⟨hzero, -⟩
  · exact (List.getElem?_eq_some_iff.1 hr).1
  · exact hzero ▸ List.length_pos_iff.2 h

/-! ## Placed conjuncts -/

theorem conjuncts_eq (ranges : List Range) :
    conjuncts ranges = ranges.flatMap fun r => Expr.conjuncts? r.join := by
  refine List.flatMap_congr fun r _ => ?_
  cases r.join <;> simp [Expr.conjuncts?]

/-- The conjuncts of ranges are those of their conditions. -/
theorem conjuncts_joins (ranges : List Range) :
    conjuncts ranges = (Range.joins ranges).flatMap Expr.conjuncts := by
  rw [conjuncts_eq, Range.joins, List.flatMap_assoc]
  rfl

theorem conjuncts_of_mem {ranges : List Range} {e : Expr} (h : e ∈ conjuncts ranges) :
    e.conjuncts = [e] := by
  rw [conjuncts_joins, List.mem_flatMap] at h
  obtain ⟨condition, -, he⟩ := h
  exact condition.conjuncts_of_mem e he

/-- The conjuncts of the conditions of some ranges, range by range. -/
inductive Operands : List Range → List Expr → Prop
  | nil : Operands [] []
  | cons {r : Range} {rs : List Range} {own es : List Expr}
      (hr : Expr.SplitsCondition r.join own) (hrest : Operands rs es) :
      Operands (r :: rs) (own ++ es)

theorem operands_iff {ranges : List Range} {es : List Expr} :
    Operands ranges es ↔ conjuncts ranges = es := by
  rw [conjuncts_eq]
  constructor
  · intro h
    induction h with
    | nil => rfl
    | cons hr _ ih => rw [List.flatMap_cons, Expr.splitsCondition_iff.1 hr, ih]
  · rintro rfl
    induction ranges with
    | nil => exact .nil
    | cons r rs ih => exact .cons (Expr.splitsCondition_iff.2 rfl) ih

/-- The conjuncts for one position. -/
def placedAt (ranges : List Range) (i : Nat) : List Expr :=
  (conjuncts ranges).filter fun e => place ranges e = i

theorem distribute_eq (ranges : List Range) :
    distribute ranges = ranges.mapIdx fun i r => { r with join := Expr.conjoin (placedAt ranges i) } :=
  rfl

theorem conjuncts?_placedAt (ranges : List Range) (i : Nat) :
    Expr.conjuncts? (Expr.conjoin (placedAt ranges i)) = placedAt ranges i :=
  Expr.conjuncts?_conjoin_of_single fun _ he => conjuncts_of_mem (List.mem_filter.1 he).1

theorem conjuncts_distribute_eq (ranges : List Range) :
    conjuncts (distribute ranges) = (List.range ranges.length).flatMap (placedAt ranges) := by
  have hmap : (distribute ranges).map (fun r => Expr.conjuncts? r.join) =
      (List.range ranges.length).map (placedAt ranges) := by
    refine List.ext_getElem (by simp [distribute]) fun i hi hi' => ?_
    simp [distribute_eq, conjuncts?_placedAt]
  rw [conjuncts_eq, List.flatMap_def, hmap, ← List.flatMap_def]

/-- No conjunct is lost, doubled or changed. -/
theorem conjuncts_distribute {ranges : List Range} (h : ranges ≠ []) :
    (conjuncts (distribute ranges)).Perm (conjuncts ranges) := by
  rw [conjuncts_distribute_eq]
  exact buckets_perm (place ranges) fun e _ => place_lt h e

theorem lastReferenced?_congr {e : Expr} {ranges ranges' : List Range}
    (h : ranges.map (·.id) = ranges'.map (·.id)) :
    lastReferenced? e ranges = lastReferenced? e ranges' := by
  induction ranges generalizing ranges' with
  | nil =>
    obtain rfl : ranges' = [] := by simpa using h.symm
    rfl
  | cons r rs ih =>
    cases ranges' with
    | nil => cases h
    | cons r' rs' =>
      obtain ⟨hid, hrest⟩ := List.cons.inj h
      simp only [lastReferenced?, ih hrest, hid]

theorem place_distribute (ranges : List Range) (e : Expr) :
    place (distribute ranges) e = place ranges e := by
  have hids : (distribute ranges).map (·.id) = ranges.map (·.id) := by
    refine List.ext_getElem (by simp [distribute]) fun i hi hi' => ?_
    simp [distribute]
  rw [place, place, lastReferenced?_congr hids]

/-- Conjuncts that are placed stay where they are. -/
theorem distribute_distribute (ranges : List Range) :
    distribute (distribute ranges) = distribute ranges := by
  have hplaced : ∀ i < ranges.length, placedAt (distribute ranges) i = placedAt ranges i := by
    intro i hi
    rw [placedAt, conjuncts_distribute_eq]
    simp only [place_distribute]
    exact filter_buckets (place ranges) (conjuncts ranges) hi
  refine List.ext_getElem (by simp [distribute]) fun i hi hi' => ?_
  have hi : i < ranges.length := by simpa [distribute] using hi
  have hagain := hplaced i hi
  rw [distribute_eq] at hagain
  simp [distribute_eq, hagain]

/-- What becomes of the range at a position when the conjuncts of all ranges are placed: `own` are
those that are placed on it. -/
structure Placed (ranges : List Range) (i : Nat) (r placed : Range) (all own : List Expr) :
    Prop where
  operands : Operands [placed] own
  /-- The order of the conjuncts is kept. -/
  inOrder : own.Sublist all
  /-- All that a conjunct refers to is at hand. -/
  place : ∀ e ∈ own, IsLast ranges e i ∨ i = 0 ∧ ∀ r ∈ ranges, ¬ e.Mentions r.id
  earlier : ∀ e ∈ own, ∀ j, ∀ r ∈ ranges[j]?, e.Mentions r.id → j ≤ i
  /-- Without a conjunct there is no condition. -/
  empty : own = [] → placed.join = none
  frame : placed = { r with join := placed.join }

theorem distribute_placed (ranges : List Range) {i : Nat} {r : Range} (hr : ranges[i]? = some r) :
    ∃ placed, (distribute ranges)[i]? = some placed ∧
      Placed ranges i r placed (conjuncts ranges) (placedAt ranges i) := by
  have hplace : ∀ e ∈ placedAt ranges i,
      IsLast ranges e i ∨ i = 0 ∧ ∀ r ∈ ranges, ¬ e.Mentions r.id := by
    intro e he
    obtain rfl : JoinCondition.place ranges e = i := by simpa using (List.mem_filter.1 he).2
    exact place_spec ranges e
  refine ⟨{ r with join := Expr.conjoin (placedAt ranges i) }, by simp [distribute_eq, hr], ?_⟩
  exact {
    operands := operands_iff.2 <| by
      rw [conjuncts_eq, List.flatMap_singleton, conjuncts?_placedAt]
    inOrder := List.filter_sublist
    place := hplace
    earlier := fun e he j r' hr' hmem => by
      rcases hplace e he with ⟨-, hlast⟩ | ⟨-, hnone⟩
      · exact hlast j r' hr' hmem
      · exact absurd hmem (hnone r' (List.mem_of_getElem? hr'))
    empty := fun h => by rw [h]; rfl
    frame := rfl }

end JoinCondition

/-! ## The ranges of a statement -/

/-- The ranges of a statement hold the conjuncts of its condition. -/
theorem Moved.conjuncts_ranges {env : Environment} {s : CompilerState} {w : Written}
    {beside : List Range} {next : Nat} {statement : Statement}
    (h : Moved env s w beside next statement) :
    (JoinCondition.conjuncts statement.ranges).Perm (Expr.conjuncts? statement.condition?) := by
  obtain ⟨values, hranges⟩ := h.ranges
  obtain ⟨hbeside, hjoin⟩ := h.unjoined
  have hjoins : Range.joins (beside ++ [w.target.rangeFor values statement.condition?]) =
      statement.condition?.toList := by
    obtain ⟨-, -, -, hcondition⟩ := w.target.rangeFor_fields values statement.condition?
    rw [Range.joins, List.flatMap_append, ← Range.joins, hbeside]
    simp [hcondition, hjoin, Expr.and?]
  rw [hranges]
  refine (JoinCondition.conjuncts_distribute (by simp)).trans (.of_eq ?_)
  rw [JoinCondition.conjuncts_joins, hjoins]
  rfl

namespace JoinCondition

/-- Placing conjuncts on ranges permutes them: each comes to the last range that it refers to, or
to the first if it refers to none, in the order that they had, and the rest of every range stays as
it is. Placed once more they stay where they are. The ranges of a compiled statement hold in this
way the conjuncts of its condition. -/
theorem distribute_permutes :
    (∀ ranges : List Range, ranges ≠ [] → ∃ all after,
      Operands ranges all ∧ Operands (distribute ranges) after ∧ after.Perm all ∧
      (distribute ranges).length = ranges.length ∧
      (∀ i, ∀ r ∈ ranges[i]?, ∃ placed ∈ (distribute ranges)[i]?, ∃ own,
        Placed ranges i r placed all own) ∧
      distribute (distribute ranges) = distribute ranges) ∧
    ∀ (env : Environment) (s t : CompilerState) (text : String) (statement : Statement),
      Statement.compile env text s = .ok statement t → statement.changesRows = true →
        ∃ whole placed, Expr.SplitsCondition statement.condition? whole ∧
          Operands statement.ranges placed ∧ placed.Perm whole := by
  refine ⟨fun ranges hranges => ⟨conjuncts ranges, conjuncts (distribute ranges),
    operands_iff.2 rfl, operands_iff.2 rfl, ?_⟩, fun env s t text statement h hkind => ?_⟩
  · refine ⟨conjuncts_distribute hranges, by simp [distribute], fun i r hr => ?_,
      distribute_distribute ranges⟩
    obtain ⟨placed, hplaced, hspec⟩ := distribute_placed ranges hr
    exact ⟨placed, hplaced, _, hspec⟩
  · obtain ⟨tokens, u, c, -, hhead, -, -⟩ := Statement.compile_ok h
    obtain ⟨w, beside, -, hmoved⟩ := Statement.compileHead_writes hhead hkind
    exact ⟨Expr.conjuncts? statement.condition?, conjuncts statement.ranges,
      Expr.splitsCondition_iff.2 rfl, operands_iff.2 rfl, hmoved.conjuncts_ranges⟩

/-- A MERGE of which one conjunct needs the source only. -/
def mergeOnTwo : String :=
  "MERGE INTO active_account v USING staging s ON v.id = s.id AND s.balance > 0 " ++
    "WHEN MATCHED THEN DELETE"

set_option maxRecDepth 10000 in
/-- The filter of the view and the comparison of keys wait for the target. -/
theorem distribute_permutes_merge :
    ∃ statement t, Statement.compile .bank mergeOnTwo .initial = .ok statement t ∧
      statement.ranges ≠ [] ∧ statement.ranges.map (fun r => (conjuncts [r]).length) = [1, 2] ∧
      (∃ whole placed, Expr.SplitsCondition statement.condition? whole ∧
        Operands statement.ranges placed ∧ placed.Perm whole) ∧
      ∃ all after, Operands statement.ranges all ∧
        Operands (distribute statement.ranges) after ∧ after.Perm all := by
  obtain ⟨statement, t, hcompile, hcheck⟩ := Statement.exists_compile .bank mergeOnTwo
    (fun statement => statement.changesRows &&
      statement.ranges.map (fun r => (conjuncts [r]).length) = [1, 2])
    (append_eq_ofList rfl rfl) (by decide +kernel)
  simp only [Bool.and_eq_true, decide_eq_true_eq] at hcheck
  have hranges : statement.ranges ≠ [] := by
    intro h
    simp [h] at hcheck
  obtain ⟨all, after, hall, hafter, hperm, -⟩ := distribute_permutes.1 statement.ranges hranges
  exact ⟨statement, t, hcompile, hranges, hcheck.2,
    distribute_permutes.2 .bank .initial t mergeOnTwo statement hcompile hcheck.1, all, after, hall,
    hafter, hperm⟩

end JoinCondition

end DataChange
