import DataChange.Proofs.Statement.Stored
import DataChange.Proofs.View.TypesKept

/-!
# Statements that conform to the rules of types

Every expression that a statement stores conforms to the rules of types, if every column of a view
has the type of the column that it stands for: it does so where it is resolved, and moving it to
the relation behind the views, joining it with filters and the rules for columns keep it so
(`compileHead_conforming`). So inferring the types of any part of a compiled statement again changes
nothing (`infer_heldNodes`).
-/

namespace DataChange

variable {env : Environment} {scope : Scope} {outer : List RangeGroup} {s t : CompilerState}

theorem mapM_conforming {es es' : List Expr} (hraw : ∀ e ∈ es, e.Raw)
    (h : es.mapM (fun e => e.resolve env scope) s = .ok es' t) : ∀ e ∈ es', e.Conforming := by
  intro e' he'
  obtain ⟨e, he, _, _, hresolve⟩ := forall₂_exists_left (mapM_forall₂ h) he'
  exact Expr.resolve_conforming (hraw e he).uncompiled hresolve

/-! ## Slices -/

namespace Slice

theorem readBound_conforming {e : Expr} (h : readBound env outer s = .ok e t) : e.Conforming := by
  obtain ⟨bound, s₁, bound', hparse, hresolve, htype⟩ := readBound_ok h
  obtain ⟨r, hr, -⟩ := lift_parser_ok.1 hparse
  have hbound := Expr.resolve_conforming (Expr.parseAt_reads .comparison _ _ _ hr).raw.uncompiled
    hresolve
  unfold typeBound at htype
  split at htype
  · split at htype
    · cases htype
      exact hbound.asColumn _ _
    · cases htype
  · split at htype
    · cases htype
      exact hbound
    · cases htype

theorem readKeys_conforming {found : Bool} {keys : List SortKey}
    (h : readKeys env scope found s = .ok keys t) : ∀ k ∈ keys, k.key.Conforming := by
  unfold readKeys at h
  split at h
  · simp only [bind_ok] at h
    obtain ⟨_, _, -, hkeys⟩ := h
    refine forall_commaSeparated (P := fun k => k.key.Conforming) (fun _ k _ hk => ?_) hkeys
    obtain ⟨key, _, _, hparse, hresolve, -⟩ := key_ok hk
    obtain ⟨r, hr, -⟩ := lift_parser_ok.1 hparse
    exact Expr.resolve_conforming (Expr.parse_reads _ _ _ hr).raw.uncompiled hresolve
  · obtain ⟨rfl, -⟩ := pure_ok.1 h
    simp

theorem readOffset_conforming {found : Bool} {offset : Option Expr}
    (h : readOffset env outer found s = .ok offset t) : ∀ e ∈ offset, e.Conforming := by
  unfold readOffset at h
  split at h
  · obtain ⟨e, he, rfl⟩ := map_ok.1 h
    simpa using readBound_conforming he
  · obtain ⟨rfl, -⟩ := pure_ok.1 h
    simp

theorem read?_conforming {ranges : List Range} {slice : Option Slice}
    (h : read? env ranges s = .ok slice t) :
    (∀ e ∈ keys? slice, e.Conforming) ∧ ∀ e ∈ bounds? slice, e.Conforming := by
  obtain ⟨_, _, orderBy, _, -, hkeys, hbounds⟩ := read?_ok h
  have hkeys := readKeys_conforming hkeys
  cases hbounds with
  | none => simp [keys?, bounds?]
  | some _ hlimit _ hoffset =>
    have hlimit := readBound_conforming hlimit
    have hoffset := readOffset_conforming hoffset
    exact ⟨by simpa [keys?] using hkeys, by simpa [bounds?] using ⟨hlimit, hoffset⟩⟩

end Slice

/-! ## Rows that are changed -/

namespace Merge

variable {target : ViewTarget}

theorem resolveGuard_condition {guard : Option Expr} {e : Expr} (hraw : ∀ g ∈ guard.toList, g.Raw)
    (h : resolveGuard env scope guard s = .ok e t) : e.IsCondition := by
  cases guard with
  | none =>
    obtain ⟨rfl, -⟩ := pure_ok.1 h
    exact Expr.always_condition
  | some g => exact Expr.resolveCondition_condition (hraw g (by simp)).uncompiled h

theorem resolveUpdating_conforming {branch : UpdateBranch} {es : List Expr}
    (hraw : ∀ e ∈ branch.guard.toList ++ branch.clause.values, e.Raw)
    (h : resolveUpdating env scope branch s = .ok es t) : ∀ e ∈ es, e.Conforming := by
  simp only [resolveUpdating, bind_ok, pure_ok] at h
  obtain ⟨guard, _, hguard, values, _, hvalues, rfl, -⟩ := h
  have hguard := resolveGuard_condition (fun g hg => hraw g (List.mem_append_left _ hg)) hguard
  have hvalues := mapM_conforming (fun e he => hraw e (List.mem_append_right _ he)) hvalues
  simpa using ⟨hguard.conforming, hvalues⟩

theorem resolveBranch_conforming {α : Type} {step : α → Compiler (List Expr)} {branch : Option α}
    {es : List Expr} (h : resolveBranch step branch s = .ok es t)
    (hstep : ∀ a ∈ branch, step a s = .ok es t → ∀ e ∈ es, e.Conforming) :
    ∀ e ∈ es, e.Conforming := by
  cases branch with
  | none =>
    obtain ⟨rfl, -⟩ := pure_ok.1 h
    simp
  | some a => exact hstep a rfl h

theorem resolveInsert_conforming {branch : InsertBranch} {i : MergeInsert}
    (hraw : ∀ e ∈ branch.guard.toList ++ [branch.row], e.Raw)
    (h : resolveInsert env target scope branch s = .ok i t) : ∀ e ∈ i.exprs, e.Conforming := by
  obtain ⟨_, row, hguard, hrow, -, hinsert⟩ := resolveInsert_ok h
  have hguard := resolveGuard_condition (fun g hg => hraw g (List.mem_append_left _ hg)) hguard
  have hrow := Expr.resolve_conforming (hraw branch.row (by simp)).uncompiled hrow
  have hinserted := ColumnPolicy.insertRow_keeps Expr.assignable_conforming hinsert hrow
  simpa [MergeInsert.exprs] using ⟨hguard.conforming, hinserted⟩

theorem readSource_conforming {r : Range} (h : ReadsSource env s r t) :
    ∀ plan ∈ r.plans, plan.Conforming := by
  cases h with
  | relation h =>
    simp only [Range.readRelation, bind_ok] at h
    obtain ⟨_, _, _, _, _, _, h⟩ := h
    obtain ⟨relation, -, rfl, -⟩ := Range.named_ok h
    simp [Range.plans, Range.ofRelation, Range.fresh]
  | derived _ _ hp _ hr =>
    subst hr
    simpa [Range.plans, Range.fresh] using Query.compileTokens_conformsPlans env _ _ _ _ _ hp

namespace Run

variable {m : MergeStatement} (run : Run env s m t) {u v : CompilerState}
include run

theorem on_condition : run.on₁.IsCondition :=
  Expr.resolveCondition_condition run.on_raw.uncompiled run.resolve_on

theorem updating_conforming {es : List Expr}
    (h : resolveBranch (resolveUpdating env scope) run.branches.update u = .ok es v) :
    ∀ e ∈ es, e.Conforming := by
  refine resolveBranch_conforming h fun branch hb => resolveUpdating_conforming fun e he => ?_
  have hmem : e ∈ run.branches.updating := by
    simpa [Branches.updating, Option.mem_def.1 hb] using he
  exact run.branches_raw e (by simp [hmem])

theorem deleting_conforming {es : List Expr}
    (h : resolveBranch (fun guard => do return [← resolveGuard env scope guard])
      run.branches.delete u = .ok es v) : ∀ e ∈ es, e.Conforming := by
  refine resolveBranch_conforming h fun guard hb h => ?_
  simp only [bind_ok, pure_ok] at h
  obtain ⟨e, _, hguard, rfl, -⟩ := h
  have hcondition := resolveGuard_condition (fun g hg => ?_) hguard
  · simpa using hcondition.conforming
  · have hmem : g ∈ run.branches.deleting := by
      simpa [Branches.deleting, Option.mem_def.1 hb] using hg
    exact run.branches_raw g (by simp [hmem])

theorem inserting_conforming : ∀ e ∈ (Statement.merge m).unmoved, e.Conforming := by
  intro e he
  simp only [Statement.unmoved, List.mem_flatMap, Option.mem_toList] at he
  obtain ⟨i, hi, he⟩ := he
  obtain ⟨branch, hb, hresolve⟩ := ifPresent_some (hi ▸ run.insert_ok)
  refine resolveInsert_conforming (fun e he => ?_) hresolve e he
  have hmem : e ∈ run.branches.inserting := by simpa [Branches.inserting, hb] using he
  exact run.branches_raw e (by simp [hmem])

end Run

end Merge

namespace Statement

variable {statement : Statement} {w : Written}

/-- What a statement says conforms before it is moved. -/
structure WrittenConforming (statement : Statement) (w : Written) : Prop where
  condition : ∀ e ∈ w.condition, e.IsCondition
  exprs : ∀ e ∈ w.exprs, e.Conforming
  unmoved : ∀ e ∈ statement.unmoved, e.Conforming
  plans : ∀ plan ∈ statement.plans, plan.Conforming

theorem Writes.conforming (h : Writes env s t statement w) : WrittenConforming statement w := by
  cases h with
  | update run =>
    obtain ⟨hraw, -⟩ := Scans.lift run.clause_ok fun _ hr => SetClause.read_scans hr
    obtain ⟨hkeys, hbounds⟩ := Slice.read?_conforming run.slice_ok
    have hvalues := mapM_conforming hraw run.resolve_values
    refine ⟨?_, fun e he => (List.mem_append.1 he).elim (hvalues e) (hkeys e),
      fun e he => hbounds e (Slice.bounds_moved run.moved_slice ▸ he), by simp [plans]⟩
    exact Query.resolveCondition?_condition (Query.compileTokens_conformsPlans env)
      (Query.readCondition_scan run.condition_ok).1 run.resolve_condition
  | delete run =>
    obtain ⟨hkeys, hbounds⟩ := Slice.read?_conforming run.slice_ok
    refine ⟨?_, hkeys, fun e he => hbounds e (Slice.bounds_moved run.moved_slice ▸ he),
      by simp [plans]⟩
    exact Query.resolveCondition?_condition (Query.compileTokens_conformsPlans env)
      (Query.readCondition_scan run.condition_ok).1 run.resolve_condition
  | merge run hdescends hupdate hdelete =>
    have hupdating := run.updating_conforming hupdate
    have hdeleting := run.deleting_conforming hdelete
    refine ⟨fun e he => ?_, fun e he => (List.mem_append.1 he).elim (hupdating e) (hdeleting e),
      run.inserting_conforming, fun plan hplan => ?_⟩
    · obtain rfl := Option.some.inj he
      exact run.on_condition
    · have hnames := Range.readTarget_names run.written_ok
      have hnone : run.target.range.plans = [] := (hdescends.plain hnames.join hnames.plans).2
      exact Merge.readSource_conforming run.source_ok plan (run.plans_eq hnone ▸ hplan)

/-- Of a statement that conforms, all expressions and queries do. -/
structure Conforming (statement : Statement) : Prop where
  exprs : ∀ e ∈ statement.exprs, e.Conforming
  plans : ∀ plan ∈ statement.plans, plan.Conforming

/-- A statement that changes rows conforms after it is moved. -/
theorem changed_conforming (hviews : env.ShowsTypes) (houter : s.OuterIssued)
    (h : compileHead env s = .ok statement t) (hkind : statement.changesRows = true) :
    statement.Conforming := by
  obtain ⟨w, beside, hwrites, hmoved⟩ := compileHead_writes h hkind
  have hwritten := hwrites.conforming
  have hcondition := hmoved.condition_isCondition houter hviews hwritten.condition
  refine ⟨fun e he => ?_, hwritten.plans⟩
  rcases mem_exprs hkind he with he | he | he | he
  · exact (hcondition e he).conforming
  · exact hmoved.changing_conforming houter hviews hwritten.exprs e he
  · exact hwritten.unmoved e he
  · exact (hmoved.joins_condition hcondition e he).conforming

end Statement

/-! ## Rows that are inserted -/

namespace Insert

variable {target : ViewTarget}

theorem readSource_conforming {map : ColumnMap} {overriding : Option Overriding}
    {source : InsertSource} {overridden : Option Nat}
    (h : ReadsSource env target map overriding s source overridden t) :
    (∀ e ∈ source.exprs, e.Conforming) ∧ ∀ plan ∈ source.plans, plan.Conforming := by
  cases h with
  | @values _ _ _ rows rows₁ rows₂ fragment values _ hrows hresolve hkind hinsert =>
    obtain ⟨hraw, -⟩ := Scans.lift hrows fun _ hr => (Rows.read_scans hr).1
    have hlist : (Expr.untyped (.values rows) fragment).Each Expr.Uncompiled :=
      .intro (fun _ _ hk => by cases hk) fun row hrow => (hraw row hrow).uncompiled
    have hvalues := Expr.resolve_conforming hlist hresolve
    refine ⟨?_, by simp [InsertSource.plans]⟩
    simp only [InsertSource.exprs, List.mem_singleton, forall_eq]
    refine hvalues.withRows hkind fun row' hrow' => ?_
    obtain ⟨row, hrow, hinserted⟩ := forall₂_exists_left hinsert hrow'
    exact ColumnPolicy.insertRow_keeps Expr.assignable_conforming hinserted
      (hvalues.children row (by simpa [Expr.children, hkind] using hrow))
  | query _ _ hplan =>
    simpa [InsertSource.exprs, InsertSource.plans] using Query.compile_conforming hplan

/-- What is known of the ranges of a target when the assignments of an upsert are read: their ids are
taken, and the column map keeps types. -/
structure UpsertRanges (target : ViewTarget) (s : CompilerState) : Prop where
  written : target.written.id < s.nextRange
  range : target.range.id < s.nextRange
  around : ∀ x ∈ s.outer.flatten.map Range.heading, x.1 < target.written.id
  columnMap : ColumnMap.KeepsTypes target.columnMap target.written.columns target.range.columns

theorem UpsertRanges.keeps {u : CompilerState} (h : UpsertRanges target s) (hk : Keeps s u) :
    UpsertRanges target u :=
  ⟨Nat.lt_of_lt_of_le h.written hk.ranges, Nat.lt_of_lt_of_le h.range hk.ranges,
    hk.outer ▸ h.around, h.columnMap⟩

theorem Run.upsertRanges {i : InsertStatement} (run : Run env s i t) (hviews : env.ShowsTypes)
    (houter : s.OuterIssued) : UpsertRanges run.target run.s₃ := by
  have hmode := reader_keeps run.mode_ok
  have hnames := Range.readTarget_names run.written_ok
  obtain ⟨layers, hdescends, hwritten⟩ := ViewTarget.resolve_descends run.target_ok
  have hdescends : ViewTarget.Descends env .insert (ViewTarget.start run.written) run.s₂ layers
    run.target.descent run.s₃ := hdescends
  have hresolves := hdescends.resolves
  have h₁ := hmode.ranges
  have h₂ := hnames.lower
  have h₃ := hnames.next
  have h₄ := hresolves.ranges
  -- the written range has the first id of the statement, and the views take the ids after it
  have hinv : ViewTarget.Descent.Inv env (ViewTarget.start run.written) run.s₂ [run.written.id] :=
    ⟨hnames.known, by simp [ViewTarget.start], by simp; omega, by simp [ViewTarget.start]⟩
  refine ⟨by rw [hwritten]; omega, ?_, fun x hx => ?_, ?_⟩
  · exact (hdescends.inv hviews.covers hinv).issued _ (hdescends.inv hviews.covers hinv).passed
  · have hsame : run.s₃.outer = s.outer :=
      hresolves.outer.trans (hnames.keeps.outer.trans hmode.outer)
    have hlt := houter.headings x (hsame ▸ hx)
    rw [hwritten]
    omega
  · rw [hwritten]
    exact (hdescends.typesKept hviews hinv (ViewTarget.start_typesKept _)).columnMap

/-- The ranges that an assigned value of an upsert sees: the written one, that of the proposed row
and those around. -/
def upsertHeadings (target : ViewTarget) (s : CompilerState) (id : Nat) : List Heading :=
  target.written.heading :: (id, target.written.columns) :: s.outer.flatten.map Range.heading

section

variable {id : Nat} {columns : List Attribute} (h : UpsertRanges target s) (hid : s.nextRange ≤ id)
include h hid

theorem UpsertRanges.columns_written
    (hmem : (target.written.id, columns) ∈ upsertHeadings target s id) :
    columns = target.written.columns := by
  have hlt := h.written
  simp only [upsertHeadings, List.mem_cons, Range.heading, Prod.mk.injEq] at hmem
  rcases hmem with ⟨-, rfl⟩ | ⟨rfl, -⟩ | hmem
  · rfl
  · omega
  · exact absurd (h.around _ hmem) (Nat.lt_irrefl _)

theorem UpsertRanges.columns_proposed
    (hmem : (id, columns) ∈ target.range.heading :: upsertHeadings target s id) :
    columns = target.written.columns := by
  have hwritten := h.written
  have hrange := h.range
  simp only [upsertHeadings, List.mem_cons, Range.heading, Prod.mk.injEq] at hmem
  rcases hmem with ⟨rfl, -⟩ | ⟨rfl, -⟩ | ⟨-, rfl⟩ | hmem
  · omega
  · omega
  · rfl
  · have hlt : id < target.written.id := h.around _ hmem
    omega

/-- An assigned value of an upsert is moved in both rows that it sees. -/
theorem UpsertRanges.movedUpsert_conforming {hi : Nat} {e m : Expr}
    (he : e.Resolved (Issued (id + 1) hi) (upsertHeadings target s id))
    (hconforming : e.Conforming) (hm : movedUpsert target id e = some m) : m.Conforming := by
  simp only [movedUpsert, Option.bind_eq_bind, Option.bind_eq_some_iff] at hm
  obtain ⟨e₁, he₁, hm⟩ := hm
  unfold ViewTarget.moved at he₁
  split at hm
  · next hmoved =>
    rw [if_pos hmoved] at he₁
    -- the subqueries of the assignments have other ids than the two ranges that are moved
    have hwritten : ¬ Issued (id + 1) hi target.written.id := by
      have := h.written
      unfold Issued
      omega
    have hproposed : ¬ Issued (id + 1) hi id := by
      unfold Issued
      omega
    have hmap : ColumnMap.KeepsTypes target.columnMap target.written.columns
        (newRow id target.range target.written.fragment).columns := h.columnMap
    obtain ⟨hresolved, hfirst⟩ :=
      he.redirect hwritten (fun _ hmem => h.columns_written hid hmem) h.columnMap he₁
    obtain ⟨-, hsecond⟩ :=
      hresolved.redirect hproposed (fun _ hmem => h.columns_proposed hid hmem) hmap hm
    exact hsecond (hfirst hconforming)
  · next hstays =>
    rw [if_neg hstays] at he₁
    obtain rfl := Option.some.inj he₁
    obtain rfl := Option.some.inj hm
    exact hconforming

end

theorem UpsertRun.conforming {a : Assignments} (run : UpsertRun env target s a t)
    (hranges : UpsertRanges target s) : ∀ e ∈ a.values, e.Conforming := by
  obtain ⟨hraw, -⟩ := Scans.lift run.clause_ok fun _ hr => SetClause.read_scans hr
  have hkeeps : Keeps s run.s₅ := (reader_keeps run.on_ok).trans <|
    (reader_keeps run.duplicate_ok).trans <| (reader_keeps run.key_ok).trans <|
      (reader_keeps run.update_ok).trans (parser_keeps run.clause_ok)
  have hresolved := mapM_resolved hraw run.resolve_values
  have hconforming := mapM_conforming hraw run.resolve_values
  intro e' he'
  obtain ⟨m, hm, hassigned⟩ := forall₂_exists_left (ViewTarget.assign_ok run.assigned).1 he'
  obtain ⟨e, he, hmoved⟩ := forall₂_exists_left run.moved_values hm
  refine hassigned.keeps Expr.assignable_conforming ?_
  exact (hranges.keeps hkeeps).movedUpsert_conforming (Nat.le_refl _) (hresolved e he)
    (hconforming e he) hmoved

theorem Run.conforming {i : InsertStatement} (run : Run env s i t) (hviews : env.ShowsTypes)
    (houter : s.OuterIssued) : (Statement.insert i).Conforming := by
  have hsource : (∀ e ∈ i.source.exprs, e.Conforming) ∧ ∀ plan ∈ i.source.plans, plan.Conforming := by
    cases run.completes with
    | defaults _ _ hs =>
      rw [hs]
      refine ⟨?_, by simp [InsertSource.plans]⟩
      simp only [InsertSource.exprs, List.mem_singleton, forall_eq]
      refine .values (fun row hrow => ?_) _
      obtain rfl := List.mem_singleton.1 hrow
      exact .intro (.row [] _) (fun _ hc => by cases hc) (by simp [Expr.untyped])
    | rows _ _ _ _ hs => exact readSource_conforming hs
  refine ⟨fun e he => ?_, hsource.2⟩
  simp only [Statement.exprs, List.mem_append, List.mem_flatMap, Option.mem_toList] at he
  rcases he with he | ⟨a, ha, he⟩
  · exact hsource.1 e he
  · obtain ⟨u, -, hkeeps, ⟨upsert⟩⟩ := run.upsert a ha
    exact upsert.conforming ((run.upsertRanges hviews houter).keeps hkeeps) e he

end Insert

/-! ## Calls -/

namespace Call

theorem checkArgument_conforming {routine : Routine} {parameter : RoutineParameter} {position : Nat}
    {argument argument' : Expr} (h : checkArgument routine parameter position argument = .ok argument')
    (hargument : argument.Conforming) : argument'.Conforming := by
  unfold checkArgument at h
  dsimp only at h
  split at h
  · cases h
  · split at h
    · cases h
      exact hargument.asColumn _ _
    · split at h
      · cases h
        exact hargument
      · split at h
        · cases h
          exact hargument
        · cases h

theorem bindArguments_conforming {routine : Routine} {parameters : List RoutineParameter}
    {arguments arguments' : List Expr} {position : Nat} (hraw : ∀ e ∈ arguments, e.Raw)
    (hlen : parameters.length = arguments.length)
    (h : bindArguments env routine scope position arguments parameters s = .ok arguments' t) :
    ∀ e ∈ arguments', e.Conforming := by
  have hall := bindArguments_forall₂ (R := fun _ e => e.Conforming) hlen h
    fun argument hmem _ _ _ _ _ _ hresolve hcheck =>
      checkArgument_conforming hcheck (Expr.resolve_conforming (hraw argument hmem).uncompiled hresolve)
  intro e he
  obtain ⟨_, -, he⟩ := forall₂_exists_left hall he
  exact he

theorem Runs.conforming {c : CallStatement} (h : Runs env s c t) :
    (Statement.call c).Conforming := by
  refine ⟨?_, by simp [Statement.plans]⟩
  cases h with
  | routine _ _ hread hfound hbind =>
    obtain ⟨r, hr, -⟩ := lift_parser_ok.1 hread
    have hraw := fun e he => (readArguments_plain hr e he).raw
    exact bindArguments_conforming hraw (arity_of_found hfound) hbind
  | expression _ hparse hresolve =>
    obtain ⟨hraw, -⟩ := Scan.parsed Expr.parse_reads hparse
    simpa [Statement.exprs] using Expr.resolve_conforming hraw.uncompiled hresolve

end Call

/-! ## All statements -/

namespace Statement

variable {statement : Statement}

theorem compileHead_conforming (hviews : env.ShowsTypes) (houter : s.OuterIssued)
    (h : compileHead env s = .ok statement t) : statement.Conforming := by
  obtain ⟨x, rest, -, hrun⟩ := compileHead_ok h
  cases hrun with
  | insert _ hcompile =>
    obtain ⟨run⟩ := Insert.compile_ok hcompile
    exact run.conforming hviews houter
  | call _ hcompile => exact (Call.compile_ok hcompile).conforming
  | truncate => exact ⟨by simp [exprs], by simp [plans]⟩
  | update | delete | merge => exact changed_conforming hviews houter h rfl

/-- If every column of a view has the type of the column that it stands for, inferring the types of
any expression of a compiled statement again succeeds and changes nothing. -/
theorem infer_heldNodes {text : String} (hviews : env.ShowsTypes) (houter : s.OuterIssued)
    (h : compile env text s = .ok statement t) :
    ∀ n ∈ statement.heldNodes, Expr.infer n = .ok n := by
  obtain ⟨tokens, u, c, -, hhead, -⟩ := compile_ok h
  have houter : CompilerState.OuterIssued { s with cursor := .ofTokens tokens } := houter
  obtain ⟨hexprs, hplans⟩ := compileHead_conforming hviews houter hhead
  intro n hn
  rcases List.mem_append.1 hn with hn | hn
  · obtain ⟨e, he, hn⟩ := List.mem_flatMap.1 hn
    exact ((hexprs e he).of_mem hn).infer_self
  · obtain ⟨plan, hplan, hn⟩ := List.mem_flatMap.1 hn
    exact ((hplans plan hplan).of_mem hn).infer_self

/-- A statement against a view of a view in which operators settle parameters. -/
def settlesParameters : String :=
  "UPDATE rich_active SET balance = COALESCE(?, balance, 0) + ? WHERE UPPER(?) = name OR id > ?"

set_option maxRecDepth 10000 in
theorem infer_heldNodes_parameters :
    ∃ statement t, compile .bank settlesParameters .initial = .ok statement t ∧
      statement.writeTables = [⟨some "public", "account"⟩] ∧
      ∀ n ∈ statement.heldNodes, Expr.infer n = .ok n := by
  obtain ⟨statement, t, hcompile, hcheck⟩ := exists_compile .bank settlesParameters
    (fun statement => statement.writeTables = [⟨some "public", "account"⟩]) rfl (by decide +kernel)
  exact ⟨statement, t, hcompile, by simpa using hcheck,
    infer_heldNodes Environment.bank_showsTypes CompilerState.initial_outerIssued hcompile⟩

end Statement

end DataChange
