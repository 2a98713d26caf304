import DataChange.Proofs.Statement.Stored
import DataChange.Proofs.View.Written

/-!
# The types of stored expressions

All that a compiled statement stores is bound and typed, with one exception: a parameter stays
without a type where nothing asks for it. Nothing does so for a key after ORDER BY and for what is
called as an expression, for the items of a row given there or as an argument, and for the items of
a row within a row (`isResolved_iff`).
-/

namespace DataChange

variable {env : Environment} {s t : CompilerState}

namespace Expr

variable {e e' : Expr}

/-- Neither a parameter without a type, nor a row with one among its items. -/
structure Placed (e : Expr) : Prop where
  whole : e.isUntypedParameter = false
  items : e.isRow = true → ∀ c ∈ e.children, c.isUntypedParameter = false

theorem IsProduced.placed (h : e.IsProduced) (hn : e.SettledNode) : e.Placed := by
  have hshape : e.isUntypedParameter = false ∧ ∀ length, e.shape ≠ .row length := by
    rcases h with h | h
    · have huntyped := isUntypedParameter_of_type h
      exact ⟨huntyped, by simp [(hn.typed huntyped).1 h]⟩
    · refine ⟨?_, by simp [h]⟩
      by_contra hu
      have := shape_of_isUntypedParameter (by simpa using hu : e.isUntypedParameter = true)
      simp [h] at this
  refine ⟨hshape.1, fun hrow => ?_⟩
  obtain ⟨length, hlength⟩ := isRow_iff.1 hrow
  exact absurd hlength (hshape.2 length)

theorem Definite.placed (h : e.Definite) : e.Placed :=
  h.isProduced.placed h.settled.node

theorem AssignedValue.placed (h : e.AssignedValue e') : e'.Placed := by
  cases h with
  | cell hk h =>
    refine ⟨h.1, fun hrow => ?_⟩
    have hshape : e'.shape = e.shape := by
      obtain ⟨-, rfl | ⟨t, w, rfl⟩⟩ := h
      · rfl
      · exact (Alike.asColumn e t w).shape
    obtain ⟨length, hlength⟩ := isRow_iff.1 hrow
    obtain ⟨items, hitems, -⟩ := shape_eq_row.1 (hshape.symm.trans hlength)
    exact absurd hitems (hk items)
  | query hk => exact ⟨by simp [isUntypedParameter, isParameter, hk], by simp [isRow, hk]⟩
  | row h =>
    refine ⟨rfl, fun _ c' hc' => ?_⟩
    obtain ⟨c, -, hc⟩ := forall₂_exists_left h hc'
    exact hc.1

theorem Inserted.isUntypedParameter (h : e.Inserted e') : e'.isUntypedParameter = false := by
  rcases h with h | rfl
  · exact h.1
  · rfl

end Expr

/-! ## Values and rows -/

theorem Assigns.placed {tokens : List Token} {columns : List Column} {a : Assignments}
    (h : Assigns env tokens columns a) : ∀ e ∈ a.values, e.Placed := by
  obtain ⟨-, -, -, -, hassign⟩ := h
  intro e' he'
  obtain ⟨e, -, h⟩ := forall₂_exists_left (ViewTarget.assign_ok hassign).1 he'
  exact h.placed

theorem Assigns.settled {tokens : List Token} {columns : List Column} {a : Assignments}
    (h : Assigns env tokens columns a) : ∀ e ∈ a.values, e.Settled := by
  obtain ⟨-, -, hvalues, -, hassign⟩ := h
  intro e' he'
  obtain ⟨e, he, h⟩ := forall₂_exists_left (ViewTarget.assign_ok hassign).1 he'
  obtain ⟨_, -, hfrom⟩ := forall₂_exists_left hvalues he
  exact h.keeps Expr.assignable_settled hfrom.settled

theorem InsertsRow.settled {columns : List Column} {map : ColumnMap} {row : Expr}
    (h : InsertsRow columns map row) : row.Settled := by
  obtain ⟨-, -, hsettled, hinsert⟩ := h
  exact ColumnPolicy.insertRow_keeps Expr.assignable_settled hinsert hsettled

theorem InsertsRow.cells {columns : List Column} {map : ColumnMap} {row : Expr}
    (h : InsertsRow columns map row) :
    row.isRow = true ∧ ∀ c ∈ row.children, c.isUntypedParameter = false := by
  obtain ⟨hdegree, hrow, -, hinsert⟩ := h
  obtain ⟨-, cells, cells', hk, rfl, -, hfull, -⟩ := ColumnPolicy.insertRow_ok hinsert
  obtain ⟨items, hitems, hlen⟩ := Expr.shape_eq_row.1 hrow.shape
  obtain rfl : items = cells := by simpa [hitems] using hk
  refine ⟨rfl, fun c' hc' => ?_⟩
  obtain ⟨c, -, hc⟩ := forall₂_exists_left (hfull (by omega)) hc'
  exact hc.isUntypedParameter

theorem InsertsRow.placed {columns : List Column} {map : ColumnMap} {row : Expr}
    (h : InsertsRow columns map row) : row.Placed := by
  obtain ⟨hrow, hcells⟩ := h.cells
  refine ⟨?_, fun _ => hcells⟩
  obtain ⟨kind, fragment, type⟩ := row
  cases kind <;> first | rfl | cases hrow

/-! ## Moved statements -/

namespace Moved

variable {w : Written} {beside : List Range} {next : Nat} {statement : Statement}

theorem condition_definite (h : Moved env s w beside next statement) :
    ∀ e ∈ statement.condition?, e.Definite := by
  obtain ⟨operation, a, b, hdescends, -⟩ := h.descends
  obtain ⟨c, hc, hcondition⟩ := h.condition
  rw [hcondition]
  refine Expr.conjunctive_definite.and? ?_ fun m hm => ?_
  · exact hdescends.filter_definite (by simp [ViewTarget.start])
  · cases hw : w.condition with
    | none => simp_all
    | some e =>
      have hmoved : w.target.moved e = some m := by simp_all
      exact ViewTarget.moved_keeps (fun hkeeps hm he => he.moves hkeeps hm) hmoved
        (h.typed e hw).definite

theorem joins_definite (h : Moved env s w beside next statement) :
    ∀ e ∈ Range.joins statement.ranges, e.Definite := by
  obtain ⟨values, hranges⟩ := h.ranges
  rw [hranges]
  exact Expr.conjunctive_definite.rangeFor_joins h.unjoined.2 values h.unjoined.1
    h.condition_definite

theorem changing_settled (h : Moved env s w beside next statement) :
    ∀ e ∈ statement.changing, e.Settled := by
  intro e' he'
  obtain ⟨e, he, m, hm, hassigned⟩ := forall₂_exists_left h.exprs he'
  have hmoved := ViewTarget.moved_keeps (P := Expr.Settled) (fun hkeeps hm he => he.moves hkeeps hm)
    hm (h.resolved e he).isSettled
  rcases hassigned with rfl | hassigned
  · exact hmoved
  · exact hassigned.keeps Expr.assignable_settled hmoved

end Moved

namespace Statement

/-- The expressions of which nothing asks the type: the keys after ORDER BY, and what is called as
an expression. -/
def loose : Statement → List Expr
  | update u => Slice.keys? u.slice
  | delete d => Slice.keys? d.slice
  | call ⟨.expression e, _⟩ => [e]
  | insert _ | merge _ | truncate _ | call ⟨.routine .., _⟩ => []

/-- The arguments of the routine that a statement calls. -/
def arguments : Statement → List Expr
  | call ⟨.routine _ arguments, _⟩ => arguments
  | _ => []

end Statement

/-! ## Places in a statement -/

theorem Slice.bounds_placed {ranges : List Range} {target : ViewTarget} {slice slice' : Option Slice}
    (h : Slice.read? env ranges s = .ok slice t) (hm : target.MovedSlice slice slice') :
    ∀ e ∈ Slice.bounds? slice', e.Placed := by
  rw [Slice.bounds_moved hm]
  exact fun e he => (Slice.bounds_typed (Slice.read?_resolved h).2 e he).definite.placed

theorem Update.Run.placed {u : UpdateStatement} (run : Update.Run env s u t) :
    ∀ e ∈ (Statement.update u).changing ++ (Statement.update u).unmoved,
      e ∈ (Statement.update u).loose ∨ e.Placed := by
  intro e he
  simp only [Statement.changing, Statement.unmoved, List.mem_append] at he
  rcases he with (he | he) | he
  · exact .inr (run.assigns.placed e he)
  · exact .inl he
  · exact .inr (Slice.bounds_placed run.slice_ok run.moved_slice e he)

theorem Delete.Run.placed {d : DeleteStatement} (run : Delete.Run env s d t) :
    ∀ e ∈ (Statement.delete d).changing ++ (Statement.delete d).unmoved,
      e ∈ (Statement.delete d).loose ∨ e.Placed := by
  intro e he
  simp only [Statement.changing, Statement.unmoved, List.mem_append] at he
  rcases he with he | he
  · exact .inl he
  · exact .inr (Slice.bounds_placed run.slice_ok run.moved_slice e he)

namespace Merge

variable {target : ViewTarget} {scope : Scope}

/-- A guard that is resolved and moved. -/
theorem guard_placed {guard : Option Expr} {e m : Expr} (hraw : ∀ g ∈ guard.toList, g.Raw)
    (h : resolveGuard env scope guard s = .ok e t) (hm : target.moved e = some m) : m.Placed := by
  have he := (resolveGuard_typed hraw h).2.definite
  exact (ViewTarget.moved_keeps (fun hkeeps hm he => he.moves hkeeps hm) hm he).placed

theorem Run.placed {m : MergeStatement} (run : Run env s m t) :
    ∀ e ∈ (Statement.merge m).changing ++ (Statement.merge m).unmoved, e.Placed := by
  have hraw := run.branches_raw
  intro e he
  simp only [Statement.changing, Statement.unmoved, List.mem_append, List.mem_flatMap,
    Option.mem_toList] at he
  -- the guard and values of UPDATE, the guard of DELETE, the guard and row of INSERT
  rcases he with (⟨u, hu, he⟩ | he) | ⟨i, hi, he⟩
  · rcases List.mem_cons.1 he with rfl | he
    · have hupdate := run.update_ok
      rw [hu] at hupdate
      obtain ⟨branch, hb, hresolve⟩ := ifPresent_some hupdate
      obtain ⟨guard, _, _, _, hguard, -, -, -, hmoved⟩ := resolveUpdate_ok hresolve
      exact guard_placed (fun g hg => hraw g (by simp_all [Branches.updating])) hguard hmoved
    · exact (run.assigns u hu).placed e he
  · have hdelete := run.delete_ok
    rw [he] at hdelete
    obtain ⟨guard, hb, hresolve⟩ := ifPresent_some hdelete
    obtain ⟨guard', hguard, hmoved⟩ := resolveDelete_ok hresolve
    exact guard_placed (fun g hg => hraw g (by simp_all [Branches.deleting])) hguard hmoved
  · simp only [MergeInsert.exprs, List.mem_cons, List.not_mem_nil, or_false] at he
    rcases he with rfl | rfl
    · have hinsert := run.insert_ok
      rw [hi] at hinsert
      obtain ⟨branch, hb, hresolve⟩ := ifPresent_some hinsert
      obtain ⟨_, _, hguard, -⟩ := resolveInsert_ok hresolve
      exact (resolveGuard_typed (fun g hg => hraw g (by simp_all [Branches.inserting]))
        hguard).2.definite.placed
    · exact (run.insertsRow i hi).placed

end Merge

namespace Statement

/-- What is stored at a place: settled, and without a parameter whose type is not known at its
top unless nothing asks for it there. -/
structure Stores (statement : Statement) (e : Expr) : Prop where
  settled : e.Settled
  placed : e ∈ statement.loose ∨ e ∈ statement.arguments ∧ e.isUntypedParameter = false ∨ e.Placed

theorem Stores.of_produced {statement : Statement} {e : Expr} (hs : e.Settled) (h : e.IsProduced) :
    statement.Stores e :=
  ⟨hs, .inr (.inr (h.placed hs.node))⟩

theorem stores_changed {statement : Statement} (h : compileHead env s = .ok statement t)
    (hkind : statement.changesRows = true) : ∀ e ∈ statement.exprs, statement.Stores e := by
  obtain ⟨w, beside, -, hmoved⟩ := compileHead_writes h hkind
  have hplaced : ∀ e ∈ statement.changing ++ statement.unmoved, e ∈ statement.loose ∨ e.Placed := by
    obtain ⟨x, rest, -, hrun⟩ := compileHead_ok h
    cases hrun with
    | update _ hcompile =>
      obtain ⟨run⟩ := Update.compile_ok hcompile
      exact run.placed
    | delete _ hcompile =>
      obtain ⟨run⟩ := Delete.compile_ok hcompile
      exact run.placed
    | merge _ hcompile =>
      obtain ⟨run⟩ := Merge.compile_ok hcompile
      exact fun e he => .inr (run.placed e he)
    | insert | truncate | call => cases hkind
  intro e he
  rcases mem_exprs hkind he with he | he | he | he
  · have hd := hmoved.condition_definite e he
    exact .of_produced hd.settled hd.isProduced
  · exact ⟨hmoved.changing_settled e he, (hplaced e (by simp [he])).imp_right .inr⟩
  · exact ⟨(hmoved.unmoved e he).isSettled, (hplaced e (by simp [he])).imp_right .inr⟩
  · have hd := hmoved.joins_definite e he
    exact .of_produced hd.settled hd.isProduced

end Statement

theorem Insert.Run.stores {i : InsertStatement} (run : Insert.Run env s i t) :
    ∀ e ∈ (Statement.insert i).exprs, (Statement.insert i).Stores e := by
  intro e he
  simp only [Statement.exprs, List.mem_append, List.mem_flatMap, Option.mem_toList] at he
  rcases he with he | ⟨a, ha, he⟩
  · obtain ⟨htype, hshape, hrows⟩ := run.insertsRow e he
    obtain ⟨rows, hk⟩ := Expr.shape_eq_rows.1 hshape
    refine .of_produced (.intro ⟨.inl ?_, fun _ => ?_, ?_, fun _ row hrow => (hrows row hrow).cells, ?_⟩
      (fun row hrow => (hrows row hrow).settled) ?_) (.inr hshape)
    · simp [Expr.nodeIsResolved, hk]
    · simp [htype, hshape]
    · simp [Expr.isOperation, hk]
    · simp [hk]
    · simp [hk]
  · have h := run.assigns a ha
    exact ⟨h.settled e he, .inr (.inr (h.placed e he))⟩

theorem Insert.Run.plans {i : InsertStatement} (run : Insert.Run env s i t) :
    ∀ plan ∈ i.source.plans, ∃ I visible, plan.Resolved I visible := by
  cases run.completes with
  | defaults _ _ hs _ => simp [hs, InsertSource.plans]
  | rows _ _ _ _ hs _ =>
    intro plan hplan
    generalize i.source = source, i.overrideIndex = overridden at hs hplan
    cases hs with
    | values => simp [InsertSource.plans] at hplan
    | query _ _ hcompile _ _ =>
      obtain rfl := List.mem_singleton.1 hplan
      exact ⟨_, _, Query.compile_resolved hcompile⟩

theorem Passes.stored {parameter : RoutineParameter} {argument : Expr}
    (h : Passes parameter argument) : argument.Settled ∧ argument.isUntypedParameter = false := by
  obtain ⟨-, hsettled, hcheck⟩ := h
  unfold Call.checkArgument at hcheck
  dsimp only at hcheck
  split at hcheck
  · cases hcheck
  · split at hcheck
    · cases hcheck
      exact ⟨hsettled.asColumn _ _, Expr.isUntypedParameter_asColumn ..⟩
    · next huntyped =>
      split at hcheck
      · cases hcheck
        exact ⟨hsettled, by simpa using huntyped⟩
      · split at hcheck
        · cases hcheck
          exact ⟨hsettled, by simpa using huntyped⟩
        · cases hcheck

theorem Call.Runs.stores {c : CallStatement} (h : Call.Runs env s c t) :
    ∀ e ∈ (Statement.call c).exprs, (Statement.call c).Stores e := by
  intro e he
  obtain ⟨target, tables⟩ := c
  cases target with
  | routine r arguments =>
    obtain ⟨parameter, -, hpasses⟩ := forall₂_exists_left h.passes he
    exact ⟨hpasses.stored.1, .inr (.inl ⟨he, hpasses.stored.2⟩)⟩
  | expression e' =>
    obtain rfl := List.mem_singleton.1 he
    cases h with
    | expression _ hparse hresolve =>
      obtain ⟨hraw, -⟩ := Scan.parsed Expr.parse_reads hparse
      exact ⟨(Expr.resolve_resolved hraw hresolve).isSettled, .inl he⟩

namespace Statement

variable {statement : Statement}

theorem compileHead_stores (h : compileHead env s = .ok statement t) :
    ∀ e ∈ statement.exprs, statement.Stores e := by
  obtain ⟨x, rest, -, hrun⟩ := compileHead_ok h
  cases hrun with
  | insert _ hcompile =>
    obtain ⟨run⟩ := Insert.compile_ok hcompile
    exact run.stores
  | call _ hcompile => exact (Call.compile_ok hcompile).stores
  | truncate => simp [exprs]
  | update | delete | merge => exact stores_changed h rfl

/-- The queries of a statement are resolved. -/
theorem compileHead_plans (h : compileHead env s = .ok statement t) :
    ∀ plan ∈ statement.plans, ∃ I visible, plan.Resolved I visible := by
  intro plan hplan
  cases hkind : statement.changesRows with
  | true =>
    obtain ⟨w, beside, -, hmoved⟩ := compileHead_writes h hkind
    exact ⟨_, _, hmoved.plans plan hplan⟩
  | false =>
    obtain ⟨x, rest, -, hrun⟩ := compileHead_ok h
    cases hrun with
    | @insert i _ hcompile =>
      obtain ⟨run⟩ := Insert.compile_ok hcompile
      exact run.plans plan hplan
    | truncate | call => simp [plans] at hplan
    | update | delete | merge => cases hkind

/-- A place of a stored expression where nothing tells the type of a parameter. -/
inductive LeavesOpen (statement : Statement) (e n : Expr) : Prop
  | whole (he : e ∈ statement.loose) (h : n = e)
  | item (he : e ∈ statement.loose ++ statement.arguments) (hrow : e.isRow = true)
      (h : n ∈ e.children)
  | nested {row : Expr} (hrow : Expr.NestedRow e.nodes row) (h : n ∈ row.children)

theorem LeavesOpen.mem_nodes {e n : Expr} (h : statement.LeavesOpen e n) : n ∈ e.nodes := by
  cases h with
  | whole _ h => exact h ▸ Expr.self_mem_nodes e
  | item _ _ h => exact Expr.mem_nodes_of_mem_children h
  | nested hrow h => exact nodes_trans.1 e _ hrow.1 (Expr.mem_nodes_of_mem_children h)

theorem Stores.leavesOpen {e n : Expr} (h : statement.Stores e) (hn : n ∈ e.nodes)
    (hu : n.isUntypedParameter = true) : statement.LeavesOpen e n := by
  cases Expr.untypedPlace.1 e h.settled n hn hu with
  | whole heq =>
    rcases h.placed with hp | ⟨-, hp⟩ | hp
    · exact .whole hp heq
    · simp [← heq, hu] at hp
    · subst heq
      simp [hp.whole] at hu
  | item hrow hmem =>
    rcases h.placed with hp | ⟨hp, -⟩ | hp
    · exact .item (List.mem_append_left _ hp) hrow hmem
    · exact .item (List.mem_append_right _ hp) hrow hmem
    · simp [hp.items hrow n hmem] at hu
  | nested hrow hmem => exact .nested hrow hmem

theorem Stores.resolved_iff {e : Expr} (h : statement.Stores e) :
    e.isResolved = true ↔ ∀ n, statement.LeavesOpen e n → n.isUntypedParameter = false := by
  unfold Expr.isResolved
  rw [List.all_eq_true]
  constructor
  · intro hall n hopen
    have hn := hall n hopen.mem_nodes
    by_contra hu
    simp [Expr.not_nodeIsResolved (by simpa using hu : n.isUntypedParameter = true)] at hn
  · intro hopen n hn
    refine (h.settled n hn).resolved.resolve_right fun hu => ?_
    simp [hopen n (h.leavesOpen hn hu)] at hu

/-- What a compiled statement stores is bound and typed, unless it has a parameter at a place where
nothing tells its type. -/
theorem isResolved_iff {text : String} (h : compile env text s = .ok statement t) (e : Expr)
    (he : e ∈ statement.exprs ++ statement.plans.flatMap Plan.exprs) :
    e.isResolved = true ↔ ∀ n, statement.LeavesOpen e n → n.isUntypedParameter = false := by
  obtain ⟨tokens, u, c, -, hhead, -⟩ := compile_ok h
  refine Stores.resolved_iff ?_
  rcases List.mem_append.1 he with he | he
  · exact compileHead_stores hhead e he
  · obtain ⟨plan, hplan, he⟩ := List.mem_flatMap.1 he
    obtain ⟨I, visible, hr⟩ := compileHead_plans hhead plan hplan
    exact .of_produced (Expr.Resolved.isSettled (hr.throughout.exprs e he)) (hr.settled.produced e he)

set_option maxRecDepth 10000 in
theorem isResolved_iff_nested :
    ∃ statement t e n,
      compile .bank "INSERT INTO t (a, b) VALUES ((?, 1), ?)" .initial = .ok statement t ∧
      e ∈ statement.exprs ++ statement.plans.flatMap Plan.exprs ∧ e.isResolved = false ∧
      statement.LeavesOpen e n ∧ n.isUntypedParameter = true := by
  obtain ⟨statement, t, hcompile, hcheck⟩ := exists_compile .bank
    "INSERT INTO t (a, b) VALUES ((?, 1), ?)"
    (fun statement => statement.exprs.any fun e => !e.isResolved) rfl (by decide +kernel)
  obtain ⟨e, he, hunresolved⟩ := List.any_eq_true.1 hcheck
  have hmem := List.mem_append_left (statement.plans.flatMap Plan.exprs) he
  have hiff := isResolved_iff hcompile e hmem
  simp only [Bool.not_eq_true'] at hunresolved
  have hopen : ¬ ∀ n, statement.LeavesOpen e n → n.isUntypedParameter = false := by
    simp [← hiff, hunresolved]
  push Not at hopen
  obtain ⟨n, hn, hu⟩ := hopen
  exact ⟨statement, t, e, n, hcompile, hmem, hunresolved, hn, by simpa using hu⟩

/-- An order that depends on a parameter only. -/
def sortedByParameter : String :=
  "UPDATE t SET a = 1 ORDER BY ? LIMIT 1"

set_option maxRecDepth 10000 in
/-- A parameter after ORDER BY stays without a type. -/
theorem sortedByParameter_unresolved :
    ∃ statement t, compile .bank sortedByParameter .initial = .ok statement t ∧
      ∃ e ∈ statement.exprs, e.isResolved = false := by
  obtain ⟨statement, t, hcompile, hcheck⟩ := exists_compile .bank sortedByParameter
    (fun statement => statement.exprs.any fun e => !e.isResolved) rfl (by decide +kernel)
  obtain ⟨e, he, hunresolved⟩ := List.any_eq_true.1 hcheck
  exact ⟨statement, t, hcompile, e, he, by simpa using hunresolved⟩

end Statement

end DataChange
