import DataChange.Proofs.Statement.CompileRuns
import DataChange.Proofs.Statement.Resolved
import DataChange.Proofs.View.Descent

/-!
# What is written and what is changed

A statement is resolved over the range that it names and then moved to the range that it changes.
`Written` holds what it says before it is moved, and `Writes` ties this to the compiled statement.
`Moved` lists what the compiler does on the way: every expression is moved by the target of the
statement, and before that each sees the range named by the statement and the ranges around it.
-/

namespace DataChange

/-- What a statement says of the range that it names. -/
structure Written where
  /-- The range that the statement names. -/
  range : Range
  /-- The views passed from there. -/
  layers : List Layer
  /-- Where the statement lands. -/
  target : ViewTarget
  /-- The condition after WHERE or ON. -/
  condition : Option Expr
  /-- The values after SET, the guards and the keys after ORDER BY. -/
  exprs : List Expr

/-- The keys of a slice that may be missing. -/
def Slice.keys? (slice : Option Slice) : List Expr :=
  slice.toList.flatMap fun slice => slice.orderBy.map (·.key)

/-- The bounds of a slice that may be missing. -/
def Slice.bounds? (slice : Option Slice) : List Expr :=
  slice.toList.flatMap fun slice => slice.limit :: slice.offset.toList

/-- Where a target is found from the range that a statement names. -/
def ViewTarget.descent (target : ViewTarget) : Descent :=
  ⟨target.range, target.columnMap, target.filter⟩

namespace Merge

/-- The guard and the values of an updating branch, before they are moved. -/
def resolveUpdating (env : Environment) (scope : Scope) (branch : UpdateBranch) :
    Compiler (List Expr) := do
  let guard ← resolveGuard env scope branch.guard
  let values ← branch.clause.values.mapM fun value => value.resolve env scope
  return guard :: values

/-- What a branch that may be missing says before it is moved. -/
def resolveBranch {α : Type} (step : α → Compiler (List Expr)) : Option α → Compiler (List Expr)
  | none => return []
  | some branch => step branch

end Merge

namespace Statement

/-- The values after SET, the guards and the keys after ORDER BY, as compiled. -/
def changing : Statement → List Expr
  | update u => u.assignments.values ++ Slice.keys? u.slice
  | delete d => Slice.keys? d.slice
  | merge m => m.update.toList.flatMap MergeUpdate.exprs ++ m.delete.toList
  | _ => []

/-- The expressions that do not see the range that a statement names: the bounds of a slice, and
what is inserted. -/
def unmoved : Statement → List Expr
  | update u => Slice.bounds? u.slice
  | delete d => Slice.bounds? d.slice
  | merge m => m.insert.toList.flatMap MergeInsert.exprs
  | _ => []

/-- The ranges of a statement. -/
def ranges : Statement → List Range
  | update u => u.ranges
  | delete d => d.ranges
  | merge m => m.ranges
  | _ => []

/-- Whether the statement changes rows that are there already. -/
def changesRows : Statement → Bool
  | update _ | delete _ | merge _ => true
  | _ => false

/-- What a statement that changes rows stores. -/
theorem mem_exprs {statement : Statement} (hkind : statement.changesRows = true) {e : Expr}
    (he : e ∈ statement.exprs) :
    e ∈ statement.condition? ∨ e ∈ statement.changing ∨ e ∈ statement.unmoved ∨
      e ∈ Range.joins statement.ranges := by
  have hslice : ∀ {slice : Option Slice}, e ∈ Slice.exprs? slice →
      e ∈ Slice.keys? slice ∨ e ∈ Slice.bounds? slice := by
    intro slice he
    cases slice <;> simp_all [Slice.exprs?, Slice.exprs, Slice.keys?, Slice.bounds?]
  cases statement with
  | update u =>
    simp only [exprs, List.mem_append, Option.mem_toList] at he
    rcases he with ((he | he) | he) | he
    · exact .inr (.inl (List.mem_append_left _ he))
    · exact .inl he
    · rcases hslice he with he | he
      · exact .inr (.inl (List.mem_append_right _ he))
      · exact .inr (.inr (.inl he))
    · exact .inr (.inr (.inr he))
  | delete d =>
    simp only [exprs, List.mem_append, Option.mem_toList] at he
    rcases he with (he | he) | he
    · exact .inl he
    · rcases hslice he with he | he
      · exact .inr (.inl he)
      · exact .inr (.inr (.inl he))
    · exact .inr (.inr (.inr he))
  | merge m =>
    simp only [exprs, MergeStatement.branchExprs, List.mem_append, List.mem_cons] at he
    rcases he with (rfl | (he | he) | he) | he
    · exact .inl rfl
    · exact .inr (.inl (List.mem_append_left _ he))
    · exact .inr (.inl (List.mem_append_right _ he))
    · exact .inr (.inr (.inl he))
    · exact .inr (.inr (.inr he))
  | insert | truncate | call => cases hkind

/-- What a statement says before it is moved to the range that it changes. -/
inductive Writes (env : Environment) (s t : CompilerState) : Statement → Written → Prop
  | update {u : UpdateStatement} (run : Update.Run env s u t) {layers : List Layer}
      (h : ViewTarget.Descends env .update (ViewTarget.start run.written) run.s₈ layers
        run.target.descent t) :
      Writes env s t (.update u) ⟨run.written, layers, run.target, run.condition₁,
        run.values₁ ++ Slice.keys? run.slice₀⟩
  | delete {d : DeleteStatement} (run : Delete.Run env s d t) {layers : List Layer}
      (h : ViewTarget.Descends env .delete (ViewTarget.start run.written) run.s₆ layers
        run.target.descent t) :
      Writes env s t (.delete d) ⟨run.written, layers, run.target, run.condition₁,
        Slice.keys? run.slice₀⟩
  | merge {m : MergeStatement} (run : Merge.Run env s m t) {layers : List Layer}
      {updating deleting : List Expr}
      (h : ViewTarget.Descends env .merge (ViewTarget.start run.written) run.s₉ layers
        run.target.descent run.s₁₀)
      (hupdate : Merge.resolveBranch
        (Merge.resolveUpdating env ⟨[run.source, run.written], run.s₇.outer⟩) run.branches.update
        run.s₁₀ = .ok updating run.s₁₁)
      (hdelete : Merge.resolveBranch (fun guard => do
          return [← Merge.resolveGuard env ⟨[run.source, run.written], run.s₇.outer⟩ guard])
        run.branches.delete run.s₁₁ = .ok deleting run.s₁₂) :
      Writes env s t (.merge m) ⟨run.written, layers, run.target, some run.on₁,
        updating ++ deleting⟩

end Statement

/-- The ids of the range that a statement names and of those over the bases of the views. -/
def Written.past (w : Written) : List Nat :=
  Layer.past w.layers [w.range.id]

/-- The context of a statement: all ranges around it have ids that were handed out before. -/
def CompilerState.OuterIssued (s : CompilerState) : Prop :=
  ∀ group ∈ s.outer, ∀ r ∈ group, r.id < s.nextRange

theorem CompilerState.OuterIssued.headings {s : CompilerState} (h : s.OuterIssued) :
    ∀ x ∈ s.outer.flatten.map Range.heading, x.1 < s.nextRange := by
  intro x hx
  obtain ⟨r, hr, rfl⟩ := List.mem_map.1 hx
  obtain ⟨group, hgroup, hr⟩ := List.mem_flatten.1 hr
  exact h group hgroup r hr

theorem CompilerState.initial_outerIssued : CompilerState.initial.OuterIssued := by
  simp [OuterIssued, initial]

/-- How what is written becomes what is compiled, from the state `s` on. The expressions see the
range that the statement names, the ranges `beside` it and those around the statement. -/
structure Moved (env : Environment) (s : CompilerState) (w : Written) (beside : List Range)
    (next : Nat) (statement : Statement) : Prop where
  descends : ∃ operation a b, ViewTarget.Descends env operation (ViewTarget.start w.range) a w.layers
    w.target.descent b ∧ w.range.id < a.nextRange ∧ b.nextRange ≤ next
  written : w.target.written = w.range
  known : w.range.Over env
  condition : ∃ c, w.condition.mapM w.target.moved = some c ∧
    statement.condition? = Expr.and? w.target.filter c
  exprs : List.Forall₂ (fun e e' => ∃ m, w.target.moved e = some m ∧ (e' = m ∨ m.AssignedValue e'))
    w.exprs statement.changing
  ranges : ∃ values, statement.ranges =
    JoinCondition.distribute (beside ++ [w.target.rangeFor values statement.condition?])
  unjoined : Range.joins beside = [] ∧ w.target.range.join = none
  typed : ∀ e ∈ w.condition, e.Typed (ViewTarget.Aside next w.past)
    (w.range.heading :: Scope.headings ⟨beside, s.outer⟩)
  resolved : ∀ e ∈ w.exprs, e.Resolved (ViewTarget.Aside next w.past)
    (w.range.heading :: Scope.headings ⟨beside, s.outer⟩)
  unmoved : ∀ e ∈ statement.unmoved, e.Resolved (ViewTarget.Aside next w.past)
    (Scope.headings ⟨beside, s.outer⟩)
  plans : ∀ plan ∈ statement.plans, plan.Resolved (ViewTarget.Aside next w.past)
    (s.outer.flatten.map Range.heading)
  apart : s.OuterIssued → ∀ h ∈ Scope.headings ⟨beside, s.outer⟩, h.1 ∉ w.past

section

variable {env : Environment} {s t : CompilerState}

/-- Ids handed out before or after the views are followed are none of theirs. -/
theorem ViewTarget.Descends.aside {operation : Operation} {state state' : Descent}
    {layers : List Layer} {a b : CompilerState} {lo hi next id : Nat}
    (h : Descends env operation state a layers state' b) (hid : id < lo) (hnext : hi ≤ next)
    (hside : hi ≤ a.nextRange ∨ b.nextRange ≤ lo) :
    ∀ x, Issued lo hi x → Aside next (Layer.past layers [id]) x := by
  intro x hx
  refine ⟨Nat.lt_of_lt_of_le hx.2 hnext, fun hmem => ?_⟩
  obtain ⟨hlo, hhi⟩ := hx
  simp only [Layer.past, List.mem_append, List.mem_reverse, List.mem_map, List.mem_singleton] at hmem
  rcases hmem with ⟨l, hl, rfl⟩ | rfl
  · have := h.ids l hl
    unfold Issued at this
    omega
  · omega

/-- An id from before the views are followed is none of theirs. -/
theorem ViewTarget.Descends.not_past {operation : Operation} {state state' : Descent}
    {layers : List Layer} {a b : CompilerState} {x id : Nat}
    (h : Descends env operation state a layers state' b) (hx : x < a.nextRange) (hne : x ≠ id) :
    x ∉ Layer.past layers [id] := by
  intro hmem
  simp only [Layer.past, List.mem_append, List.mem_reverse, List.mem_map, List.mem_singleton] at hmem
  rcases hmem with ⟨l, hl, rfl⟩ | rfl
  · have := (h.ids l hl).1
    omega
  · exact hne rfl

section

variable {w : Written} {beside : List Range} {next : Nat} {statement : Statement}

/-- A statement that passes no view stays where it is. Otherwise what it says is redirected from
the range that it names to another one. -/
theorem Moved.lands (h : Moved env s w beside next statement) :
    (w.layers = [] ∧ w.target.descent = ViewTarget.start w.range ∧
      ∀ e, w.target.moved e = some e) ∨
    w.target.range.id ∈ w.past ∧ w.target.range.id ≠ w.range.id ∧
      ∀ e, w.target.moved e = e.redirect w.range.id w.target.range w.target.columnMap := by
  obtain ⟨operation, a, b, hdescends, hlt, -⟩ := h.descends
  rcases hdescends.last with ⟨hnil, hsame⟩ | ⟨l, hl, hlast⟩
  · have hrange : w.target.range = w.range := congrArg ViewTarget.Descent.range hsame
    refine .inl ⟨hnil, hsame, fun e => ?_⟩
    simp [ViewTarget.moved, ViewTarget.isMoved, h.written, hrange]
  · have hlast : w.target.range.id = l.range.id := hlast
    have hid := (hdescends.ids l hl).1
    have hne : w.target.range.id ≠ w.range.id := by omega
    refine .inr ⟨?_, hne, fun e => ?_⟩
    · rw [hlast]
      simp only [Written.past, Layer.past, List.mem_append, List.mem_reverse]
      exact .inl (List.mem_map_of_mem hl)
    · simp [ViewTarget.moved, ViewTarget.isMoved, h.written, hne.symm]

/-- A statement starts without a filter. -/
theorem Moved.starts (h : Moved env s w beside next statement) {a : CompilerState}
    (hs : w.range.id < a.nextRange) :
    ViewTarget.Descent.Inv env (ViewTarget.start w.range) a [w.range.id] :=
  ⟨h.known, by simp [ViewTarget.start], by simpa using hs, by simp [ViewTarget.start]⟩

end

/-- What reading the range that a statement names tells of it. -/
structure Names (env : Environment) (s : CompilerState) (written : Range) (t : CompilerState) :
    Prop where
  keeps : Keeps s t
  known : written.Over env
  lower : s.nextRange ≤ written.id
  next : t.nextRange = written.id + 1
  join : written.join = none
  plans : written.plans = []

theorem Range.readTarget_names {operation : Operation} {written : Range}
    (h : readTarget env operation s = .ok written t) : Names env s written t := by
  obtain ⟨-, -, hkeeps, -⟩ := readTarget_scan h
  obtain ⟨name, fragment, s₁, asName, s₂, relation, hname, has, hrelation, rfl, -, rfl⟩ :=
    readTarget_ok h
  refine ⟨hkeeps, over_ofRelation hrelation, ?_, rfl, rfl, rfl⟩
  rcases has with ⟨-, -, rfl⟩ | has
  · exact (reader_keeps hname).ranges
  · exact ((reader_keeps hname).trans (reader_keeps has)).ranges

theorem Slice.keys_moved {target : ViewTarget} {slice slice' : Option Slice}
    (h : target.MovedSlice slice slice') :
    List.Forall₂ (fun e e' => target.moved e = some e') (Slice.keys? slice) (Slice.keys? slice') := by
  cases h with
  | none => exact .nil
  | some h =>
    simp only [Slice.keys?, Option.toList_some, List.flatMap_cons, List.flatMap_nil, List.append_nil]
    exact List.forall₂_map_right_iff.2 (List.forall₂_map_left_iff.2 (h.imp fun _ _ hk => hk.1))

theorem Slice.keys_resolved {I : Nat → Prop} {visible around : List Heading} {slice : Option Slice}
    (h : ∀ x ∈ slice, x.Resolved I visible around) : ∀ e ∈ Slice.keys? slice, e.Resolved I visible := by
  intro e he
  simp only [Slice.keys?, List.mem_flatMap, Option.mem_toList, List.mem_map] at he
  obtain ⟨x, hx, k, hk, rfl⟩ := he
  exact (h x hx).keys k hk

theorem Slice.bounds_moved {target : ViewTarget} {slice slice' : Option Slice}
    (h : target.MovedSlice slice slice') : Slice.bounds? slice' = Slice.bounds? slice := by
  cases h <;> rfl

theorem Slice.bounds_typed {I : Nat → Prop} {visible around : List Heading} {slice : Option Slice}
    (h : ∀ x ∈ slice, x.Resolved I visible around) : ∀ e ∈ Slice.bounds? slice, e.Typed I around := by
  intro e he
  simp only [Slice.bounds?, List.mem_flatMap, Option.mem_toList] at he
  obtain ⟨x, hx, he⟩ := he
  exact (h x hx).bounds e he

/-- Values that are moved and then assigned. -/
theorem moved_assigned {target : ViewTarget} {values values' values'' : List Expr}
    (h : List.Forall₂ (fun e e' => target.moved e = some e') values values')
    (k : List.Forall₂ Expr.AssignedValue values' values'') :
    List.Forall₂ (fun e e' => ∃ m, target.moved e = some m ∧ (e' = m ∨ m.AssignedValue e')) values
      values'' := by
  induction h generalizing values'' with
  | nil =>
    cases k
    exact .nil
  | cons he _ ih =>
    cases k with
    | cons ha hs => exact .cons ⟨_, he, .inr ha⟩ (ih hs)

/-- The range that a statement names and those around it. -/
theorem headings_named {written : Range} {outer outer' : List RangeGroup} (h : outer = outer') :
    Scope.headings ⟨[written], outer⟩ ⊆ written.heading :: Scope.headings ⟨[], outer'⟩ := by
  simp [Scope.headings, h]

theorem headings_beside {source written : Range} {outer outer' : List RangeGroup}
    (h : outer = outer') :
    Scope.headings ⟨[source, written], outer⟩ ⊆
      written.heading :: Scope.headings ⟨[source], outer'⟩ := by
  subst h
  intro x hx
  simp only [Scope.headings, List.map_append, List.map_cons, List.map_nil, List.mem_append,
    List.mem_cons, List.not_mem_nil, or_false] at hx ⊢
  tauto

theorem headings_around {beside : List Range} {outer outer' : List RangeGroup} (h : outer = outer') :
    outer.flatten.map Range.heading ⊆ Scope.headings ⟨beside, outer'⟩ := by
  simp [Scope.headings, h]

theorem Update.Run.moved {u : UpdateStatement} (run : Update.Run env s u t) {layers : List Layer}
    (h : ViewTarget.Descends env .update (ViewTarget.start run.written) run.s₈ layers
      run.target.descent t) (hwritten : run.target.written = run.written) :
    Moved env s ⟨run.written, layers, run.target, run.condition₁,
      run.values₁ ++ Slice.keys? run.slice₀⟩ [] t.nextRange (.update u) := by
  have hnames := Range.readTarget_names run.written_ok
  have h₁ := reader_keeps run.update_ok
  have h₅ : Keeps run.s₂ run.s₅ := (reader_keeps run.set_ok).trans <|
    (parser_keeps run.clause_ok).trans (Query.readCondition_keeps run.condition_ok)
  obtain ⟨h₆, hslice⟩ := Slice.read?_resolved run.slice_ok
  have h₇ := (mapM_resolves (fun _ _ _ _ h =>
    Expr.resolveWith_resolves (Query.compileTokens_resolves env) h) run.resolve_values).toKeeps
  have h₈ := (Query.resolveCondition?_resolves (Query.compileTokens_resolves env)
    run.resolve_condition).toKeeps
  have h₉ := h.resolves
  have houter₅ : run.s₅.outer = s.outer := (h₁.trans (hnames.keeps.trans h₅)).outer
  have houter₆ : run.s₆.outer = s.outer := h₆.outer.trans houter₅
  have := h₁.ranges
  have := hnames.lower
  have := hnames.next
  have := h₅.ranges
  have := h₆.ranges
  have := h₇.ranges
  have := h₈.ranges
  have := h₉.ranges
  have hraw := (Scans.lift run.clause_ok fun _ hr => SetClause.read_scans hr).1
  have hvalues := mapM_resolved hraw run.resolve_values
  have hcondition := Query.resolveCondition?_typed (Query.compileTokens_resolves env)
    (Query.compileTokens_resolvesPlans env) (Query.readCondition_scan run.condition_ok).1
    run.resolve_condition
  have haside : ∀ {lo hi : Nat}, run.s₂.nextRange ≤ lo → hi ≤ run.s₈.nextRange → ∀ x,
      Issued lo hi x → ViewTarget.Aside t.nextRange (Layer.past layers [run.written.id]) x :=
    fun hlo hhi => h.aside (by omega) (by omega) (.inl hhi)
  have hbefore : run.written.id < run.s₈.nextRange := by omega
  exact {
    descends := ⟨_, _, _, h, hbefore, Nat.le_refl _⟩
    written := hwritten
    known := hnames.known
    condition := ⟨_, run.moved_condition, run.condition⟩
    exprs := List.rel_append
      (moved_assigned run.moved_values (ViewTarget.assign_ok run.assigned).1)
      ((Slice.keys_moved run.moved_slice).imp fun _ e' hm => ⟨e', hm, .inl rfl⟩)
    ranges := ⟨_, run.ranges⟩
    unjoined := ⟨rfl, (h.plain hnames.join hnames.plans).1⟩
    typed := fun e he =>
      (hcondition e he).mono (haside (by omega) (by omega)) (headings_named houter₆)
    resolved := fun e he => by
      rcases List.mem_append.1 he with he | he
      · exact (hvalues e he).mono (haside (by omega) (by omega)) (headings_named houter₆)
      · exact (Slice.keys_resolved hslice e he).mono (haside (by omega) (by omega))
          (headings_named houter₅)
    unmoved := fun e he => by
      have he : e ∈ Slice.bounds? run.slice₀ := Slice.bounds_moved run.moved_slice ▸ he
      exact (Slice.bounds_typed hslice e he).resolved.mono (haside (by omega) (by omega))
        (headings_around houter₅)
    plans := by simp [Statement.plans]
    apart := fun houter x hx => by
      have hlt := houter.headings x hx
      have hne : x.1 ≠ run.written.id := by omega
      exact h.not_past (by omega) hne }

theorem Delete.Run.moved {d : DeleteStatement} (run : Delete.Run env s d t) {layers : List Layer}
    (h : ViewTarget.Descends env .delete (ViewTarget.start run.written) run.s₆ layers
      run.target.descent t) (hwritten : run.target.written = run.written) :
    Moved env s ⟨run.written, layers, run.target, run.condition₁, Slice.keys? run.slice₀⟩ []
      t.nextRange (.delete d) := by
  have hnames := Range.readTarget_names run.written_ok
  have h₂ := (reader_keeps run.delete_ok).trans (reader_keeps run.from_ok)
  have h₄ := Query.readCondition_keeps run.condition_ok
  obtain ⟨h₅, hslice⟩ := Slice.read?_resolved run.slice_ok
  have h₆ := (Query.resolveCondition?_resolves (Query.compileTokens_resolves env)
    run.resolve_condition).toKeeps
  have h₇ := h.resolves
  have houter₄ : run.s₄.outer = s.outer := (h₂.trans (hnames.keeps.trans h₄)).outer
  have houter₅ : run.s₅.outer = s.outer := h₅.outer.trans houter₄
  have := h₂.ranges
  have := hnames.lower
  have := hnames.next
  have := h₄.ranges
  have := h₅.ranges
  have := h₆.ranges
  have := h₇.ranges
  have hcondition := Query.resolveCondition?_typed (Query.compileTokens_resolves env)
    (Query.compileTokens_resolvesPlans env) (Query.readCondition_scan run.condition_ok).1
    run.resolve_condition
  have haside : ∀ {lo hi : Nat}, run.s₃.nextRange ≤ lo → hi ≤ run.s₆.nextRange → ∀ x,
      Issued lo hi x → ViewTarget.Aside t.nextRange (Layer.past layers [run.written.id]) x :=
    fun hlo hhi => h.aside (by omega) (by omega) (.inl hhi)
  have hbefore : run.written.id < run.s₆.nextRange := by omega
  exact {
    descends := ⟨_, _, _, h, hbefore, Nat.le_refl _⟩
    written := hwritten
    known := hnames.known
    condition := ⟨_, run.moved_condition, run.condition⟩
    exprs := (Slice.keys_moved run.moved_slice).imp fun _ e' hm => ⟨e', hm, .inl rfl⟩
    ranges := ⟨_, run.ranges⟩
    unjoined := ⟨rfl, (h.plain hnames.join hnames.plans).1⟩
    typed := fun e he =>
      (hcondition e he).mono (haside (by omega) (by omega)) (headings_named houter₅)
    resolved := fun e he => (Slice.keys_resolved hslice e he).mono (haside (by omega) (by omega))
      (headings_named houter₄)
    unmoved := fun e he => by
      have he : e ∈ Slice.bounds? run.slice₀ := Slice.bounds_moved run.moved_slice ▸ he
      exact (Slice.bounds_typed hslice e he).resolved.mono (haside (by omega) (by omega))
        (headings_around houter₄)
    plans := by simp [Statement.plans]
    apart := fun houter x hx => by
      have hlt := houter.headings x hx
      have hne : x.1 ≠ run.written.id := by omega
      exact h.not_past (by omega) hne }

namespace Merge

variable {scope : Scope} {target : ViewTarget}

theorem resolveUpdating_moved {branch : UpdateBranch} {u : MergeUpdate}
    (hraw : ∀ e ∈ branch.guard.toList ++ branch.clause.values, e.Raw)
    (h : resolveUpdate env target scope branch s = .ok u t) :
    ∃ es, resolveUpdating env scope branch s = .ok es t ∧
      (∀ e ∈ es, e.Resolved (Issued s.nextRange t.nextRange) scope.headings) ∧
      List.Forall₂ (fun e e' => ∃ m, target.moved e = some m ∧ (e' = m ∨ m.AssignedValue e')) es
        u.exprs := by
  obtain ⟨guard, s₁, values₁, values₂, hguard, hvalues, hmoved, hassign, hmovedg⟩ := resolveUpdate_ok h
  obtain ⟨h₁, hg⟩ := resolveGuard_typed (fun g hg => hraw g (by simp_all)) hguard
  have hv := mapM_resolved (fun e he => hraw e (by simp [he])) hvalues
  have h₂ := (mapM_resolves (fun _ _ _ _ h =>
    Expr.resolveWith_resolves (Query.compileTokens_resolves env) h) hvalues).ranges
  refine ⟨guard :: values₁, ?_, fun e he => ?_, .cons ⟨_, hmovedg, .inl rfl⟩ ?_⟩
  · simp only [resolveUpdating, bind_ok, pure_ok]
    exact ⟨_, _, hguard, _, _, hvalues, rfl, rfl⟩
  · rcases List.mem_cons.1 he with rfl | he
    · exact hg.resolved.mono (Issued.mono (Nat.le_refl _) h₂) (List.Subset.refl _)
    · exact (hv e he).mono (Issued.mono h₁.ranges (Nat.le_refl _)) (List.Subset.refl _)
  · exact moved_assigned hmoved (ViewTarget.assign_ok hassign).1

theorem resolveDeleting_moved {guard : Option Expr} {e' : Expr} (hraw : ∀ g ∈ guard.toList, g.Raw)
    (h : resolveDelete env target scope guard s = .ok e' t) :
    ∃ e, resolveGuard env scope guard s = .ok e t ∧
      e.Resolved (Issued s.nextRange t.nextRange) scope.headings ∧ target.moved e = some e' := by
  obtain ⟨e, hguard, hmoved⟩ := resolveDelete_ok h
  exact ⟨e, hguard, (resolveGuard_typed hraw hguard).2.resolved, hmoved⟩

/-- The updating branch of a MERGE, before and after it is moved. -/
theorem updating_moved {branch : Option UpdateBranch} {u : Option MergeUpdate}
    (hraw : ∀ e ∈ branch.toList.flatMap (fun b => b.guard.toList ++ b.clause.values), e.Raw)
    (h : ifPresent (resolveUpdate env target scope) branch s = .ok u t) :
    ∃ es, resolveBranch (resolveUpdating env scope) branch s = .ok es t ∧
      (∀ e ∈ es, e.Resolved (Issued s.nextRange t.nextRange) scope.headings) ∧
      List.Forall₂ (fun e e' => ∃ m, target.moved e = some m ∧ (e' = m ∨ m.AssignedValue e')) es
        (u.toList.flatMap MergeUpdate.exprs) := by
  cases branch with
  | none =>
    obtain ⟨rfl, rfl⟩ := pure_ok.1 h
    exact ⟨[], rfl, by simp, .nil⟩
  | some branch =>
    simp only [ifPresent, bind_ok, pure_ok] at h
    obtain ⟨u, _, hu, rfl, rfl⟩ := h
    obtain ⟨es, hes, hresolved, hmoved⟩ := resolveUpdating_moved (by simpa using hraw) hu
    exact ⟨es, hes, hresolved, by simpa using hmoved⟩

/-- The deleting branch of a MERGE, before and after it is moved. -/
theorem deleting_moved {branch : Option (Option Expr)} {e' : Option Expr}
    (hraw : ∀ e ∈ branch.toList.flatMap Option.toList, e.Raw)
    (h : ifPresent (resolveDelete env target scope) branch s = .ok e' t) :
    ∃ es, resolveBranch (fun guard => do return [← resolveGuard env scope guard]) branch s =
        .ok es t ∧
      (∀ e ∈ es, e.Resolved (Issued s.nextRange t.nextRange) scope.headings) ∧
      List.Forall₂ (fun e e' => ∃ m, target.moved e = some m ∧ (e' = m ∨ m.AssignedValue e')) es
        e'.toList := by
  cases branch with
  | none =>
    obtain ⟨rfl, rfl⟩ := pure_ok.1 h
    exact ⟨[], rfl, by simp, .nil⟩
  | some guard =>
    simp only [ifPresent, bind_ok, pure_ok] at h
    obtain ⟨e', _, hd, rfl, rfl⟩ := h
    obtain ⟨e, hguard, hresolved, hmoved⟩ := resolveDeleting_moved (by simpa using hraw) hd
    refine ⟨[e], ?_, by simpa using hresolved, .cons ⟨e', hmoved, .inl rfl⟩ .nil⟩
    simp only [resolveBranch, bind_ok, pure_ok]
    exact ⟨e, _, hguard, rfl, rfl⟩

theorem resolveInsert_resolved {branch : InsertBranch} {i : MergeInsert}
    (hraw : ∀ e ∈ branch.guard.toList ++ [branch.row], e.Raw)
    (h : resolveInsert env target scope branch s = .ok i t) :
    ∀ e ∈ i.exprs, e.Resolved (Issued s.nextRange t.nextRange) scope.headings := by
  obtain ⟨s₁, row, hguard, hrow, -, hinsert⟩ := resolveInsert_ok h
  obtain ⟨h₁, hg⟩ := resolveGuard_typed (fun g hg => hraw g (by simp_all)) hguard
  have h₂ := (Expr.resolveWith_resolves (Query.compileTokens_resolves env) hrow).ranges
  have hr := Expr.resolve_resolved (hraw branch.row (by simp)) hrow
  intro e he
  simp only [MergeInsert.exprs, List.mem_cons, List.not_mem_nil, or_false] at he
  rcases he with rfl | rfl
  · exact hg.resolved.mono (Issued.mono (Nat.le_refl _) h₂) (List.Subset.refl _)
  · have hinserted := ColumnPolicy.insertRow_keeps (Expr.assignable_resolved _ _) hinsert hr
    exact hinserted.mono (Issued.mono h₁.ranges (Nat.le_refl _)) (List.Subset.refl _)

/-- What the inserting branch of a MERGE inserts. -/
theorem inserting_resolved {branch : Option InsertBranch} {i : Option MergeInsert}
    (hraw : ∀ e ∈ branch.toList.flatMap (fun b => b.guard.toList ++ [b.row]), e.Raw)
    (h : ifPresent (resolveInsert env target scope) branch s = .ok i t) :
    ∀ e ∈ i.toList.flatMap MergeInsert.exprs,
      e.Resolved (Issued s.nextRange t.nextRange) scope.headings := by
  cases branch with
  | none =>
    obtain ⟨rfl, rfl⟩ := pure_ok.1 h
    simp
  | some branch =>
    simp only [ifPresent, bind_ok, pure_ok] at h
    obtain ⟨i, _, hi, rfl, rfl⟩ := h
    simpa using resolveInsert_resolved (by simpa using hraw) hi

/-- The source of a MERGE has an id of its own, and its query sees the ranges around. -/
theorem readSource_resolved {r : Range} (h : ReadsSource env s r t) :
    Issued s.nextRange t.nextRange r.id ∧ ∀ plan ∈ r.plans,
      plan.Resolved (Issued s.nextRange t.nextRange) (s.outer.flatten.map Range.heading) := by
  cases h with
  | relation h =>
    have hr := Query.readRelation_opened h
    refine ⟨⟨hr.lower, hr.upper⟩, ?_⟩
    simp only [Range.readRelation, bind_ok] at h
    obtain ⟨_, _, _, _, _, _, h⟩ := h
    obtain ⟨relation, -, rfl, -⟩ := Range.named_ok h
    simp [Range.plans, Range.ofRelation, Range.fresh]
  | @derived _ _ plan _ s₁ s₂ s₃ s₄ ho hb hp has hr ht =>
    subst hr ht
    have h₂ := (reader_keeps ho).trans (reader_keeps hb)
    have h₃ := (Query.compileTokens_resolves env _ _ _ _ _ hp).ranges
    have h₄ := (reader_keeps has).ranges
    have hplan := Query.compileTokens_resolvesPlans env _ _ _ _ _ hp
    have := h₂.ranges
    refine ⟨⟨by simp only [Range.fresh]; omega, Nat.lt_succ_self _⟩, ?_⟩
    intro plan' hplan'
    obtain rfl : plan' = plan := by simpa [Range.plans, Range.fresh] using hplan'
    rw [h₂.outer] at hplan
    exact hplan.mono (Issued.mono h₂.ranges (by simp only; omega)) (List.Subset.refl _)

theorem Run.outer_kept {m : MergeStatement} (run : Run env s m t) :
    run.s₄.outer = s.outer ∧ run.s₇.outer = s.outer := by
  have h₄ : Keeps s run.s₄ := (reader_keeps run.merge_ok).trans <|
    (reader_keeps run.into_ok).trans <|
    (Range.readTarget_names run.written_ok).keeps.trans (reader_keeps run.using_ok)
  have h₇ : Keeps run.s₄ run.s₇ := (readSource_inOrder run.source_ok).1.trans <|
    (reader_keeps run.on_ok).trans (parser_keeps run.parse_ok)
  exact ⟨h₄.outer, h₇.outer.trans h₄.outer⟩

/-- The range that a MERGE names has the first id, its source the next one. -/
theorem Run.issues {m : MergeStatement} (run : Run env s m t) :
    Issued s.nextRange run.s₃.nextRange run.written.id ∧ run.s₃.nextRange ≤ run.s₄.nextRange ∧
      Issued run.s₄.nextRange run.s₅.nextRange run.source.id ∧
      run.s₅.nextRange ≤ run.s₇.nextRange ∧ run.s₇.nextRange ≤ run.s₈.nextRange ∧
      run.s₈.nextRange ≤ run.s₉.nextRange := by
  have h₂ := ((reader_keeps run.merge_ok).trans (reader_keeps run.into_ok)).ranges
  have hnames := Range.readTarget_names run.written_ok
  have h₇ := ((reader_keeps run.on_ok).trans (parser_keeps run.parse_ok)).ranges
  have h₈ := (Expr.resolveConditionWith_resolves (Query.compileTokens_resolves env)
    run.resolve_on).ranges
  have hnext := hnames.next
  exact ⟨⟨h₂.trans hnames.lower, by omega⟩, (reader_keeps run.using_ok).ranges,
    (readSource_resolved run.source_ok).1, h₇, h₈, (parser_keeps run.branches_ok).ranges⟩

theorem Run.moved {m : MergeStatement} (run : Run env s m t) {layers : List Layer}
    (h : ViewTarget.Descends env .merge (ViewTarget.start run.written) run.s₉ layers
      run.target.descent run.s₁₀) (hwritten : run.target.written = run.written) :
    ∃ updating deleting,
      resolveBranch (resolveUpdating env ⟨[run.source, run.written], run.s₇.outer⟩)
        run.branches.update run.s₁₀ = .ok updating run.s₁₁ ∧
      resolveBranch (fun guard => do
          return [← resolveGuard env ⟨[run.source, run.written], run.s₇.outer⟩ guard])
        run.branches.delete run.s₁₁ = .ok deleting run.s₁₂ ∧
      Moved env s ⟨run.written, layers, run.target, some run.on₁, updating ++ deleting⟩
        [run.source] t.nextRange (.merge m) := by
  have hnames := Range.readTarget_names run.written_ok
  obtain ⟨-, hsj, -⟩ := readSource_inOrder run.source_ok
  obtain ⟨-, hplans⟩ := readSource_resolved run.source_ok
  obtain ⟨updating, hupdating, hur, hum⟩ := updating_moved run.updating_raw run.update_ok
  obtain ⟨deleting, hdeleting, hdr, hdm⟩ := deleting_moved run.deleting_raw run.delete_ok
  have hinserting := inserting_resolved run.inserting_raw run.insert_ok
  obtain ⟨houter₄, houter₇⟩ := run.outer_kept
  have hvisible : Scope.headings ⟨[run.source, run.written], run.s₇.outer⟩ ⊆
      run.written.heading :: Scope.headings ⟨[run.source], s.outer⟩ := headings_beside houter₇
  obtain ⟨⟨_, _⟩, _, ⟨_, _⟩, _, _, _⟩ := run.issues
  have := h.resolves.ranges
  have := run.update_resolves.1.ranges
  have := run.delete_resolves.1.ranges
  have := run.insert_resolves.1.ranges
  -- No id of an expression is one of those that the views are given in between.
  have haside : ∀ {lo hi : Nat}, run.s₃.nextRange ≤ lo → hi ≤ t.nextRange →
      hi ≤ run.s₉.nextRange ∨ run.s₁₀.nextRange ≤ lo → ∀ x, Issued lo hi x →
        ViewTarget.Aside t.nextRange (Layer.past layers [run.written.id]) x :=
    fun hlo hhi hside => h.aside (by omega) hhi hside
  have hbefore : run.written.id < run.s₉.nextRange := by omega
  have hplain := h.plain hnames.join hnames.plans
  refine ⟨updating, deleting, hupdating, hdeleting, ?_⟩
  exact {
    descends := ⟨_, _, _, h, hbefore, by omega⟩
    written := hwritten
    known := hnames.known
    condition := ⟨some run.on₂, by simp [run.moved_on], run.condition_eq⟩
    exprs := List.rel_append hum hdm
    ranges := ⟨_, run.ranges⟩
    unjoined := ⟨by simp [Range.joins, hsj], hplain.1⟩
    typed := fun e he => by
      obtain rfl : run.on₁ = e := by simpa using he
      exact (Expr.resolveCondition_typed run.on_raw run.resolve_on).mono
        (haside (by omega) (by omega) (.inl (by omega))) hvisible
    resolved := fun e he => by
      rcases List.mem_append.1 he with he | he
      · exact (hur e he).mono (haside (by omega) (by omega) (.inr (by omega))) hvisible
      · exact (hdr e he).mono (haside (by omega) (by omega) (.inr (by omega))) hvisible
    unmoved := fun e he =>
      (hinserting e he).mono (haside (by omega) (by omega) (.inr (by omega)))
        (by simp [Scope.headings, houter₇])
    plans := fun plan hplan => by
      have hmem : plan ∈ run.source.plans := run.plans_eq hplain.2 ▸ hplan
      exact (hplans plan hmem).mono (haside (by omega) (by omega) (.inl (by omega)))
        (by simp [houter₄])
    apart := fun houter x hx => by
      simp only [Scope.headings, List.map_append, List.map_cons, List.map_nil, List.mem_append,
        List.mem_cons, List.not_mem_nil, or_false] at hx
      rcases hx with rfl | hx
      · have hne : run.source.id ≠ run.written.id := by omega
        have hlt : run.source.id < run.s₉.nextRange := by omega
        exact h.not_past hlt hne
      · have hlt := houter.headings x hx
        have hne : x.1 ≠ run.written.id := by omega
        exact h.not_past (by omega) hne }

end Merge

namespace Statement

theorem Writes.changesRows {statement : Statement} {w : Written} (h : Writes env s t statement w) :
    statement.changesRows = true := by
  cases h <;> rfl

theorem Writes.moved {statement : Statement} {w : Written} (h : Writes env s t statement w) :
    ∃ beside, Moved env s w beside t.nextRange statement := by
  cases h with
  | update run h =>
    obtain ⟨-, -, hw⟩ := ViewTarget.resolve_descends run.target_ok
    exact ⟨_, run.moved h hw⟩
  | delete run h =>
    obtain ⟨-, -, hw⟩ := ViewTarget.resolve_descends run.target_ok
    exact ⟨_, run.moved h hw⟩
  | merge run h hupdate hdelete =>
    obtain ⟨-, -, hw⟩ := ViewTarget.resolve_descends run.target_ok
    obtain ⟨_, _, hu, hd, hmoved⟩ := run.moved h hw
    obtain ⟨rfl, -⟩ := EStateM.Result.ok.inj (hu.symm.trans hupdate)
    obtain ⟨rfl, -⟩ := EStateM.Result.ok.inj (hd.symm.trans hdelete)
    exact ⟨_, hmoved⟩

theorem compileHead_writes {statement : Statement} (h : compileHead env s = .ok statement t)
    (hkind : statement.changesRows = true) :
    ∃ w beside, Writes env s t statement w ∧ Moved env s w beside t.nextRange statement := by
  obtain ⟨x, -, -, hrun⟩ := compileHead_ok h
  cases hrun with
  | update _ hcompile =>
    obtain ⟨run⟩ := Update.compile_ok hcompile
    obtain ⟨layers, hd, hw⟩ := ViewTarget.resolve_descends run.target_ok
    exact ⟨_, _, .update run hd, run.moved hd hw⟩
  | delete _ hcompile =>
    obtain ⟨run⟩ := Delete.compile_ok hcompile
    obtain ⟨layers, hd, hw⟩ := ViewTarget.resolve_descends run.target_ok
    exact ⟨_, _, .delete run hd, run.moved hd hw⟩
  | merge _ hcompile =>
    obtain ⟨run⟩ := Merge.compile_ok hcompile
    obtain ⟨layers, hd, hw⟩ := ViewTarget.resolve_descends run.target_ok
    obtain ⟨updating, deleting, hu, hdel, hmoved⟩ := run.moved hd hw
    exact ⟨_, _, .merge run hd hu hdel, hmoved⟩
  | insert | truncate | call => cases hkind

end Statement

end

end DataChange
