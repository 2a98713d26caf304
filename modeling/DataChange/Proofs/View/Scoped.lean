import DataChange.Proofs.View.Written

/-!
# The ranges that a statement refers to

Every column in a compiled UPDATE, DELETE or MERGE is bound to a column of a range that is visible
where it stands: a range of the statement, of a subquery around the column, or around the statement
(`columns_inScope`). Of the ranges passed on the way to the one that is changed, none is referred to any
more.

The inserting branch of a MERGE acts for source rows that have no pair, so there is no row of the
target for it to read. What it stores refers to the source, to the ranges of its own subqueries and
to those around the statement, but neither to the range that the statement names nor to one that
this is written through to (`unmatched_inScope`). The query that the source is over sees still less.
-/

namespace DataChange

/-- A column is bound to a column of a visible range, and has its type. -/
def Expr.InScope (visible : List Heading) (n : Expr) : Prop :=
  ∀ ref, n.kind = .column ref → ∃ b, ref.binding = some b ∧ b.In visible ∧ n.type? = some b.type

section

variable {I Q : Nat → Prop} {visible visible' : List Heading}

theorem ResolvedNode.weakens_inScope : Weakens (ResolvedNode I) Expr.InScope := by
  intro visible visible' n hsub h ref hk
  obtain ⟨b, hb, hin, ht⟩ := h.column ref hk
  exact ⟨b, hb, hin.mono hsub, ht⟩

theorem Expr.Resolved.inScope {e : Expr} (h : e.Resolved I visible) (hsub : visible ⊆ visible') :
    e.Throughout Expr.InScope visible' :=
  (throughout_weaken ResolvedNode.weakens_inScope).1 e _ _ hsub h

theorem Plan.Resolved.inScope {plan : Plan} (h : plan.Resolved I visible) :
    plan.Throughout Expr.InScope visible :=
  (throughout_weaken ResolvedNode.weakens_inScope).2 plan _ _ (List.Subset.refl _) h.throughout

/-- What is true of the ids of visible ranges and of subqueries is true of all ranges that a
resolved expression refers to. -/
theorem binding_of_resolved (hI : ∀ id, I id → Q id) (hvisible : ∀ h ∈ visible, Q h.1) :
    (∀ e : Expr, e.Resolved I visible → ∀ n ∈ e.nodes, ∀ b, n.binding? = some b → Q b.range) ∧
    ∀ plan : Plan, plan.Resolved I visible →
      ∀ n ∈ plan.nodes, ∀ b, n.binding? = some b → Q b.range := by
  have hnode : ∀ n, (∃ own : List Heading, (∀ h ∈ own, I h.1) ∧ ResolvedNode I (own ++ visible) n) →
      ∀ b, n.binding? = some b → Q b.range := by
    rintro n ⟨own, hown, hn⟩ b hb
    obtain ⟨columns, -, hmem, -⟩ := hn.binding_in hb
    rcases List.mem_append.1 hmem with hmem | hmem
    · exact hI _ (hown _ hmem)
    · exact hvisible _ hmem
  exact ⟨fun e he n hn => hnode n (resolved_nodes.1 e visible he n hn),
    fun plan hplan n hn => hnode n (resolved_nodes.2 plan visible hplan n hn)⟩

end

/-! ## Ranges of statements -/

theorem Range.headings_distribute (ranges : List Range) :
    (JoinCondition.distribute ranges).map Range.heading = ranges.map Range.heading := by
  refine List.ext_getElem (by simp [JoinCondition.distribute]) fun i hi hi' => ?_
  simp [JoinCondition.distribute, Range.heading]

theorem ViewTarget.heading_rangeFor (target : ViewTarget) (values : List Expr)
    (condition : Option Expr) :
    (target.rangeFor values condition).heading = target.range.heading := by
  obtain ⟨hid, -, hcolumns, -⟩ := target.rangeFor_fields values condition
  simp [Range.heading, hid, hcolumns]

namespace Moved

variable {env : Environment} {s : CompilerState} {w : Written} {beside : List Range} {next : Nat}
  {statement : Statement}

theorem headings_ranges (h : Moved env s w beside next statement) :
    statement.ranges.map Range.heading =
      beside.map Range.heading ++ [w.target.range.heading] := by
  obtain ⟨values, hranges⟩ := h.ranges
  simp [hranges, Range.headings_distribute, ViewTarget.heading_rangeFor]

/-- Redirecting takes the range that a statement names to the one that is changed. -/
theorem redirects (h : Moved env s w beside next statement) (houter : s.OuterIssued) :
    Redirects w.range.id w.target.range w.target.columnMap (ViewTarget.Aside next w.past)
      (w.range.heading :: Scope.headings ⟨beside, s.outer⟩)
      (w.target.range.heading :: Scope.headings ⟨beside, s.outer⟩) := by
  obtain ⟨operation, a, b, hdescends, -, -⟩ := h.descends
  have hpast : w.range.id ∈ w.past := by simp [Written.past, Layer.past]
  refine ⟨fun haside => haside.2 hpast, fun columns hmem => ?_, fun x hx hne => ?_, by simp⟩
  · have hlength : w.target.columnMap.length = w.range.columns.length := by
      simpa [ViewTarget.start, ViewTarget.descent] using hdescends.length
    rcases List.mem_cons.1 hmem with heq | hmem
    · obtain ⟨-, rfl⟩ := Prod.mk.inj heq
      omega
    · exact absurd hpast (h.apart houter _ hmem)
  · rcases List.mem_cons.1 hx with rfl | hx
    · exact absurd rfl hne
    · exact List.mem_cons_of_mem _ hx

theorem resolved_moved (h : Moved env s w beside next statement) (houter : s.OuterIssued)
    {e m : Expr} (he : e.Resolved (ViewTarget.Aside next w.past)
      (w.range.heading :: Scope.headings ⟨beside, s.outer⟩)) (hm : w.target.moved e = some m) :
    m.Resolved (ViewTarget.Aside next w.past)
      (w.target.range.heading :: Scope.headings ⟨beside, s.outer⟩) := by
  rcases h.lands with ⟨-, hstart, hstays⟩ | ⟨-, -, hmoves⟩
  · obtain rfl : e = m := by simpa [hstays] using hm
    have hrange : w.target.range = w.range := congrArg ViewTarget.Descent.range hstart
    rw [hrange]
    exact he
  · rw [hmoves] at hm
    exact Expr.Moves.resolved hm (redirect_takes (h.redirects houter)) he

theorem condition_typed (h : Moved env s w beside next statement) (houter : s.OuterIssued)
    (hviews : env.MapsColumns) :
    ∀ e ∈ statement.condition?, e.Typed (ViewTarget.Aside next w.past)
      (w.target.range.heading :: Scope.headings ⟨beside, s.outer⟩) := by
  obtain ⟨operation, a, b, hdescends, hlt, hnext⟩ := h.descends
  obtain ⟨c, hc, hcondition⟩ := h.condition
  rw [hcondition]
  refine (Expr.conjunctive_typed _ _).and? (fun e he => ?_) fun m hm => ?_
  · have hfilter := (hdescends.inv hviews.covers (h.starts hlt)).filter e he
    exact hfilter.mono (fun id haside => ⟨Nat.lt_of_lt_of_le haside.1 hnext, haside.2⟩)
      (List.cons_subset_cons _ (List.nil_subset _))
  · cases hw : w.condition with
    | none => simp_all
    | some e =>
      have hmoved : w.target.moved e = some m := by simp_all
      have he := h.typed e hw
      exact ⟨h.resolved_moved houter he.resolved hmoved,
        ViewTarget.moved_keeps Expr.Moves.isSome_type hmoved he.typed⟩

theorem changing_resolved (h : Moved env s w beside next statement) (houter : s.OuterIssued) :
    ∀ e ∈ statement.changing, e.Resolved (ViewTarget.Aside next w.past)
      (w.target.range.heading :: Scope.headings ⟨beside, s.outer⟩) := by
  intro e' he'
  obtain ⟨e, he, m, hm, hassigned⟩ := forall₂_exists_left h.exprs he'
  have hmoved := h.resolved_moved houter (h.resolved e he) hm
  rcases hassigned with rfl | hassigned
  · exact hmoved
  · exact hassigned.keeps (Expr.assignable_resolved _ _) hmoved

theorem exprs_resolved (h : Moved env s w beside next statement) (houter : s.OuterIssued)
    (hviews : env.MapsColumns) (hkind : statement.changesRows = true) :
    ∀ e ∈ statement.exprs, e.Resolved (ViewTarget.Aside next w.past)
      (w.target.range.heading :: Scope.headings ⟨beside, s.outer⟩) := by
  have hcondition := h.condition_typed houter hviews
  intro e he
  rcases Statement.mem_exprs hkind he with he | he | he | he
  · exact (hcondition e he).resolved
  · exact h.changing_resolved houter e he
  · exact (h.unmoved e he).mono (fun _ => id) (List.subset_cons_self ..)
  · obtain ⟨values, hranges⟩ := h.ranges
    obtain ⟨hbeside, hjoin⟩ := h.unjoined
    rw [hranges] at he
    exact ((Expr.conjunctive_typed _ _).rangeFor_joins hjoin values hbeside hcondition e he).resolved

/-- Of the ranges that were passed, only the last is referred to. -/
theorem not_past (h : Moved env s w beside next statement) (houter : s.OuterIssued)
    (hviews : env.MapsColumns) (hkind : statement.changesRows = true) :
    ∀ n ∈ statement.heldNodes, ∀ b, n.binding? = some b → b.range ∈ w.past →
      b.range = w.target.range.id := by
  have hI : ∀ id, ViewTarget.Aside next w.past id → id ∈ w.past → id = w.target.range.id :=
    fun id haside hmem => absurd hmem haside.2
  have hbeside : ∀ x ∈ Scope.headings ⟨beside, s.outer⟩, x.1 ∈ w.past → x.1 = w.target.range.id :=
    fun x hx hmem => absurd hmem (h.apart houter x hx)
  have hvisible : ∀ x ∈ w.target.range.heading :: Scope.headings ⟨beside, s.outer⟩,
      x.1 ∈ w.past → x.1 = w.target.range.id := by
    intro x hx
    rcases List.mem_cons.1 hx with rfl | hx
    · exact fun _ => rfl
    · exact hbeside x hx
  intro n hn
  rcases List.mem_append.1 hn with hn | hn
  · obtain ⟨e, he, hn⟩ := List.mem_flatMap.1 hn
    exact (binding_of_resolved hI hvisible).1 e (h.exprs_resolved houter hviews hkind e he) n hn
  · obtain ⟨plan, hplan, hn⟩ := List.mem_flatMap.1 hn
    exact (binding_of_resolved hI fun x hx => hbeside x (headings_around rfl hx)).2 plan
      (h.plans plan hplan) n hn

end Moved

namespace Statement

/-- In the compiled form of an UPDATE, DELETE or MERGE, every column refers to a range of the
statement, of a subquery around it or around the statement, to a column that this range has, and
with its type. Of the ranges over the views that are passed, none is referred to but the one that
is changed. -/
theorem columns_inScope {env : Environment} {s t : CompilerState} {text : String} {statement : Statement}
    (hviews : env.MapsColumns) (houter : s.OuterIssued) (h : compile env text s = .ok statement t)
    (hkind : statement.changesRows = true) :
    (∀ e ∈ statement.exprs,
      e.Throughout Expr.InScope ((statement.ranges ++ s.outer.flatten).map Range.heading)) ∧
    (∀ plan ∈ statement.plans,
      plan.Throughout Expr.InScope (s.outer.flatten.map Range.heading)) ∧
    ∃ tokens u w, tokenize text = .ok tokens ∧
      Writes env { s with cursor := .ofTokens tokens } u statement w ∧
      ∀ n ∈ statement.heldNodes, ∀ b, n.binding? = some b → b.range ∈ w.past →
        b.range = w.target.range.id := by
  obtain ⟨tokens, u, c, htokens, hhead, -, -⟩ := compile_ok h
  obtain ⟨w, beside, hwrites, hmoved⟩ := compileHead_writes hhead hkind
  refine ⟨fun e he => ?_, fun plan hplan => (hmoved.plans plan hplan).inScope,
    tokens, u, w, htokens, hwrites, hmoved.not_past houter hviews hkind⟩
  refine (hmoved.exprs_resolved houter hviews hkind e he).inScope fun x hx => ?_
  rw [List.map_append, hmoved.headings_ranges]
  simp only [Scope.headings, List.map_append, List.mem_cons, List.mem_append] at hx ⊢
  simp only [List.not_mem_nil, or_false]
  tauto

/-- A MERGE into a view of a table. -/
def mergeThroughView : String :=
  "MERGE INTO active_account v USING staging s ON v.id = s.id " ++
    "WHEN MATCHED THEN UPDATE SET balance = s.balance"

set_option maxRecDepth 10000 in
theorem columns_inScope_merge :
    ∃ statement t, compile .bank mergeThroughView .initial = .ok statement t ∧
      statement.writeTables = [⟨some "public", "account"⟩] ∧
      (∀ e ∈ statement.exprs,
        e.Throughout Expr.InScope ((statement.ranges ++ [].flatten).map Range.heading)) ∧
      (∀ plan ∈ statement.plans, plan.Throughout Expr.InScope ([].flatten.map Range.heading)) ∧
      ∃ tokens u w, tokenize mergeThroughView = .ok tokens ∧
        Writes .bank { CompilerState.initial with cursor := .ofTokens tokens } u statement w ∧
        ∀ n ∈ statement.heldNodes, ∀ b, n.binding? = some b → b.range ∈ w.past →
          b.range = w.target.range.id := by
  obtain ⟨statement, t, hcompile, hcheck⟩ := exists_compile .bank mergeThroughView
    (fun statement => statement.changesRows &&
      statement.writeTables = [⟨some "public", "account"⟩])
    (append_eq_ofList rfl rfl) (by decide +kernel)
  simp only [Bool.and_eq_true, decide_eq_true_eq] at hcheck
  exact ⟨statement, t, hcompile, hcheck.2, columns_inScope Environment.bank_mapsColumns
    CompilerState.initial_outerIssued hcompile hcheck.1⟩

end Statement

/-! ## Source rows without a pair -/

/-- Every column of an expression is bound to a column of a visible range, in subqueries to one of
theirs too, and none to a range in `hidden`. -/
structure Expr.Sees (visible : List Heading) (hidden : List Nat) (e : Expr) : Prop where
  inScope : e.Throughout Expr.InScope visible
  apart : ∀ n ∈ e.nodes, ∀ b, n.binding? = some b → b.range ∉ hidden

/-- The same of a query. -/
structure Plan.Sees (visible : List Heading) (hidden : List Nat) (plan : Plan) : Prop where
  inScope : plan.Throughout Expr.InScope visible
  apart : ∀ n ∈ plan.nodes, ∀ b, n.binding? = some b → b.range ∉ hidden

namespace Moved

variable {env : Environment} {s : CompilerState} {w : Written} {beside : List Range} {next : Nat}
  {statement : Statement}

/-- The range that is changed is among those that are passed. -/
theorem target_past (h : Moved env s w beside next statement) : w.target.range.id ∈ w.past := by
  rcases h.lands with ⟨-, hstart, -⟩ | ⟨hpast, -, -⟩
  · have hrange : w.target.range = w.range := congrArg ViewTarget.Descent.range hstart
    simp [hrange, Written.past, Layer.past]
  · exact hpast

/-- What is resolved aside from the ranges that are passed does not see them. -/
theorem expr_sees (h : Moved env s w beside next statement) (houter : s.OuterIssued) {e : Expr}
    (he : e.Resolved (ViewTarget.Aside next w.past) (Scope.headings ⟨beside, s.outer⟩)) :
    e.Sees (Scope.headings ⟨beside, s.outer⟩) w.past :=
  ⟨he.inScope (List.Subset.refl _),
    (binding_of_resolved (fun _ haside => haside.2) (h.apart houter)).1 e he⟩

theorem plan_sees (h : Moved env s w beside next statement) (houter : s.OuterIssued) {plan : Plan}
    (hplan : plan.Resolved (ViewTarget.Aside next w.past) (s.outer.flatten.map Range.heading)) :
    plan.Sees (s.outer.flatten.map Range.heading) w.past :=
  ⟨hplan.inScope, (binding_of_resolved (fun _ haside => haside.2)
    fun x hx => h.apart houter x (headings_around rfl hx)).2 plan hplan⟩

end Moved

namespace Statement

/-- Of a MERGE, the guard and the row of the inserting branch see the source and the ranges around the
statement, and the query that the source is over sees only the latter. Hidden from both is the
target: the range that the statement names, every range over the base of a view on the way, and the
range that is changed. -/
theorem unmatched_inScope {env : Environment} {s t : CompilerState} {text : String}
    {m : MergeStatement} (houter : s.OuterIssued) (h : compile env text s = .ok (.merge m) t) :
    ∃ tokens u w source target, tokenize text = .ok tokens ∧
      Writes env { s with cursor := .ofTokens tokens } u (.merge m) w ∧
      m.ranges = [source, target] ∧ target.id = w.target.range.id ∧
      w.target.range.id ∈ w.past ∧ source.id ∉ w.past ∧
      (∀ i ∈ m.insert, ∀ e ∈ i.exprs,
        e.Sees (([source] ++ s.outer.flatten).map Range.heading) w.past) ∧
      ∀ plan ∈ source.plans, plan.Sees (s.outer.flatten.map Range.heading) w.past := by
  obtain ⟨tokens, u, c, htokens, hhead, -, -⟩ := compile_ok h
  obtain ⟨x, rest, -, hrun⟩ := compileHead_ok hhead
  cases hrun with
  | merge _ hcompile =>
    obtain ⟨run⟩ := Merge.compile_ok hcompile
    obtain ⟨layers, hd, hw⟩ := ViewTarget.resolve_descends run.target_ok
    obtain ⟨updating, deleting, hu, hdel, hmoved⟩ := run.moved hd hw
    obtain ⟨hid, -, -, -⟩ := run.target.rangeFor_fields
      ((m.update.map (·.assignments.values)).getD []) (some m.condition)
    have hapart := hmoved.apart houter
    refine ⟨tokens, u, _, _, _, htokens, .merge run hd hu hdel, run.ranges, hid, hmoved.target_past,
      hapart run.source.heading (by simp [Scope.headings]), fun i hi e he => ?_,
      fun plan hplan => ?_⟩
    · have he : e ∈ Statement.unmoved (.merge m) := List.mem_flatMap.2 ⟨i, by simpa using hi, he⟩
      simpa [Scope.headings, Range.heading] using
        hmoved.expr_sees houter (hmoved.unmoved e he)
    · refine hmoved.plan_sees houter (hmoved.plans plan ?_)
      simp only [Statement.plans, run.ranges]
      exact List.mem_flatMap.2 ⟨_, List.mem_cons_self .., hplan⟩

/-- A MERGE from a query into a view of a view, whose inserting branch asks a subquery. -/
def mergeUnmatched : String :=
  "MERGE INTO rich_active v USING (SELECT id, name FROM staging WHERE balance > 5) AS s " ++
    "ON v.id = s.id WHEN NOT MATCHED AND (SELECT a FROM t WHERE id = s.id) = 0 " ++
    "THEN INSERT (name) VALUES (s.name)"

set_option maxRecDepth 10000 in
theorem unmatched_inScope_merge :
    ∃ m t, compile .bank mergeUnmatched .initial = .ok (.merge m) t ∧
      m.insert.isSome = true ∧ m.ranges.map (fun r => r.plans.length) = [1, 0] ∧
      ∃ tokens u w source target, tokenize mergeUnmatched = .ok tokens ∧
        Writes .bank { CompilerState.initial with cursor := .ofTokens tokens } u (.merge m) w ∧
        m.ranges = [source, target] ∧ target.id = w.target.range.id ∧
        w.target.range.id ∈ w.past ∧ source.id ∉ w.past ∧
        (∀ i ∈ m.insert, ∀ e ∈ i.exprs,
          e.Sees (([source] ++ [].flatten).map Range.heading) w.past) ∧
        ∀ plan ∈ source.plans, plan.Sees ([].flatten.map Range.heading) w.past := by
  obtain ⟨statement, t, hcompile, hcheck⟩ := exists_compile .bank mergeUnmatched
    (fun statement => match statement with
      | .merge m => m.insert.isSome && m.ranges.map (fun r => r.plans.length) = [1, 0]
      | _ => false) (append_eq_ofList (append_eq_ofList rfl rfl) rfl) (by decide +kernel)
  split at hcheck
  · rename_i m
    simp only [Bool.and_eq_true, decide_eq_true_eq] at hcheck
    exact ⟨m, t, hcompile, hcheck.1, hcheck.2,
      unmatched_inScope CompilerState.initial_outerIssued hcompile⟩
  · cases hcheck

end Statement

end DataChange
