import DataChange.Proofs.Statement.Landing
import DataChange.Proofs.Statement.Visited

/-!
# Columns marked as read

The range that a statement changes says for each of its columns whether it is read. In a statement
against a view that is passed all of them are marked. Otherwise just those are that the assigned
values and the condition read (`used_iff`): what only the keys of a slice or the conditions of the
branches of a MERGE read is not marked.
-/

namespace DataChange

/-! ## Marking -/

namespace Range

/-- A column of the range is referred to somewhere in an expression. -/
def Reads (r : Range) (e : Expr) (column : Nat) : Prop :=
  ∃ n b, e.Contains n ∧ n.binding? = some b ∧ b.range = r.id ∧ b.column = column

theorem isReadBy_iff {r : Range} {e : Expr} (h : e.Settled) (column : Nat) :
    r.isReadBy e column = true ↔ r.Reads e column := by
  simp only [isReadBy, Reads, List.any_eq_true, Option.any_eq_true, Bool.and_eq_true, beq_iff_eq]
  constructor
  · rintro ⟨n, hn, b, hb, hrange, hcolumn⟩
    exact ⟨n, b, (contains_iff.1 e h n).2 hn, hb, hrange, hcolumn⟩
  · rintro ⟨n, b, hn, hb, hrange, hcolumn⟩
    exact ⟨n, (contains_iff.1 e h n).1 hn, b, hb, hrange, hcolumn⟩

theorem used_foldl (es : List Expr) (r : Range) :
    (es.foldl markUsed r).used =
      r.used.mapIdx fun column used => used || es.any fun e => r.isReadBy e column := by
  induction es generalizing r with
  | nil => exact List.ext_getElem (by simp) fun i hi hi' => by simp
  | cons e es ih =>
    rw [List.foldl_cons, ih]
    simp [markUsed, isReadBy, List.mapIdx_mapIdx, Function.comp_def, Bool.or_assoc]

end Range

theorem JoinCondition.getLast?_distribute (beside : List Range) (r : Range) :
    ∃ join, (distribute (beside ++ [r])).getLast? = some { r with join := join } :=
  ⟨_, by rw [distribute, List.mapIdx_concat, List.getLast?_concat]⟩

namespace ViewTarget

/-- The range that is changed has the columns marked that the values or the condition read. -/
theorem used_rangeFor (target : ViewTarget) (values : List Expr) (condition : Option Expr) :
    (target.rangeFor values condition).used = target.range.used.mapIdx fun column used =>
      used || (values ++ condition.toList).any fun e => target.range.isReadBy e column := by
  have hfold : (target.rangeFor values condition).used =
      ((values ++ condition.toList).foldl Range.markUsed target.range).used := by
    cases condition <;> simp [rangeFor, Range.addJoin]
  rw [hfold, Range.used_foldl]

variable {env : Environment} {operation : Operation} {s t : CompilerState}

/-- The range where a statement lands has all columns marked if a view is passed, and is the one that
it names otherwise. -/
theorem Descends.used {state state' : Descent} {layers : List Layer}
    (h : Descends env operation state s layers state' t) :
    viewToPass? operation state.range = none ∧ state' = state ∨
      viewToPass? operation state.range ≠ none ∧
        state'.range.used = state'.range.columns.map fun _ => true := by
  induction h with
  | done hnone => exact .inl ⟨hnone, rfl⟩
  | pass hview _ _ hrange _ _ _ _ ih =>
    refine .inr ⟨by simp [hview], ?_⟩
    rcases ih with ⟨-, rfl⟩ | ⟨-, hused⟩
    · subst hrange
      simp [Range.markAllUsed, Range.ofRelation, Range.fresh]
    · exact hused

/-- The changed range among the ranges of a statement, by what the values and the condition read. -/
structure Marks (ranges : List Range) (relation : Relation) (passes : Prop) (es : List Expr)
    (range : Range) : Prop where
  last : ranges.getLast? = some range
  relation : range.relation? = some relation
  used : passes ∧ range.used = range.columns.map (fun _ => true) ∨
    ¬ passes ∧ range.used = range.columns.mapIdx fun column _ => es.any (range.isReadBy · column)

theorem resolve_marks {written : Range} {target : ViewTarget} {s₁ t₁ : CompilerState}
    {tokens after : List Token} {ranges : List Range} {values : List Expr} {condition : Option Expr}
    (beside : List Range)
    (htargets : Targets env tokens operation written after)
    (h : resolve env written operation s₁ = .ok target t₁)
    (hranges : ranges =
      JoinCondition.distribute (beside ++ [target.rangeFor values condition])) :
    ∃ name r range, writtenName? env.config.dialect.mysql tokens = some (operation, name) ∧
      env.catalog.Names (name.schemaOr env.config.defaultSchema) name.name r ∧
      Marks ranges target.relation (¬ r.Handles operation) (values ++ condition.toList) range := by
  obtain ⟨name, r, hname, hr, hsource⟩ := htargets.names
  obtain ⟨-, hread, -⟩ := htargets
  obtain ⟨layers, hdescends, -⟩ := resolve_descends h
  have hrelation : target.range.relation? = some target.relation := by
    obtain ⟨_, _, _, _, _, -, hrelation, rfl⟩ := resolve_ok h
    exact hrelation
  obtain ⟨hid, hfrom, hcolumns, -⟩ := target.rangeFor_fields values condition
  have hused := target.used_rangeFor values condition
  obtain ⟨join, hlast⟩ :=
    JoinCondition.getLast?_distribute beside (target.rangeFor values condition)
  refine ⟨name, r, _, hname, hr, hranges ▸ hlast, ?_, ?_⟩
  · simpa [Range.relation?, hfrom] using hrelation
  · simp only [Range.isReadBy, hid, hused, hcolumns]
    -- the target is written to directly, and is marked by what reads it, or a view was passed
    rcases hdescends.used with ⟨hnone, hsame⟩ | ⟨hpass, hall⟩
    · obtain rfl : target.range = written := congrArg Descent.range hsame
      refine .inr ⟨not_not_intro (handles_of_viewToPass? hsource hnone), ?_⟩
      have hfresh : target.range.used = target.range.columns.map fun _ => false := by
        obtain ⟨_, _, _, _, _, _, -, -, -, hrange, -⟩ := Range.readTarget_ok hread
        rw [hrange]
        rfl
      rw [hfresh]
      exact List.ext_getElem (by simp) fun i hi hi' => by simp
    · obtain ⟨view, hview⟩ := Option.ne_none_iff_exists'.1 hpass
      obtain ⟨hview, hnotrigger⟩ := viewToPass?_some hview
      have hview : written.source = .relation (.view view) := hview
      obtain rfl : r = .view view := by simpa [hsource] using hview
      have hall : target.range.used = target.range.columns.map fun _ => true := hall
      refine .inl ⟨by simp [Relation.Handles, hnotrigger], ?_⟩
      rw [hall]
      exact List.ext_getElem (by simp) fun i hi hi' => by simp

end ViewTarget

namespace Statement

variable {env : Environment} {s t : CompilerState} {statement : Statement}

/-- The expressions of which the columns are marked. -/
def marking (statement : Statement) : List Expr :=
  statement.exprsAt .assigned ++ statement.exprsAt .condition

theorem compileHead_marks (h : compileHead env s = .ok statement t)
    (hkind : statement.changesRows = true) :
    ∃ operation name written relation range,
      writtenName? env.config.dialect.mysql s.cursor.rest = some (operation, name) ∧
      env.catalog.Names (name.schemaOr env.config.defaultSchema) name.name written ∧
      statement.change? = some (operation, relation) ∧ ViewTarget.Marks statement.ranges relation
        (¬ written.Handles operation) statement.marking range := by
  obtain ⟨x, -, -, hrun⟩ := compileHead_ok h
  cases hrun with
  | update _ hcompile =>
    obtain ⟨run⟩ := Update.compile_ok hcompile
    obtain ⟨name, r, range, hname, hr, hmarks⟩ :=
      ViewTarget.resolve_marks [] run.targets run.target_ok run.ranges
    exact ⟨_, name, r, _, range, hname, hr,
      congrArg (fun r => some (_, r)) run.relation, hmarks⟩
  | delete _ hcompile =>
    obtain ⟨run⟩ := Delete.compile_ok hcompile
    obtain ⟨name, r, range, hname, hr, hmarks⟩ :=
      ViewTarget.resolve_marks [] run.targets run.target_ok run.ranges
    exact ⟨_, name, r, _, range, hname, hr,
      congrArg (fun r => some (_, r)) run.relation, hmarks⟩
  | @merge m _ hcompile =>
    obtain ⟨run⟩ := Merge.compile_ok hcompile
    obtain ⟨name, r, range, hname, hr, hmarks⟩ :=
      ViewTarget.resolve_marks [run.source] run.targets run.target_ok run.ranges
    have hmarking : (m.update.map (·.assignments.values)).getD [] ++ (some m.condition).toList =
        (merge m).marking := by
      simp only [marking, exprsAt]
      cases m.update <;> simp
    exact ⟨_, name, r, _, range, hname, hr,
      congrArg (fun r => some (_, r)) run.relation, hmarking ▸ hmarks⟩
  | insert | truncate | call => cases hkind

/-- The parts of a statement that see the columns of the range that is changed. -/
def readingParts : List Part :=
  [.assigned, .condition, .updateGuard, .deleteGuard, .sortKey]

theorem mem_exprs_of_marking {e : Expr} (he : e ∈ statement.marking) : e ∈ statement.exprs :=
  (List.mem_append.1 he).elim (exprsAt_subset _ ·) (exprsAt_subset _ ·)

/-- In a statement that changes rows, a column of the range that is changed is marked just if a view
is passed or an assigned value or the condition reads it. So all columns that are read somewhere are
marked just if a view is passed, or if what the conditions of branches and the sort keys read is also
read by an assigned value or the condition. -/
theorem used_iff {text : String} (h : compile env text s = .ok statement t)
    (hkind : statement.changesRows = true) :
    ∃ tokens operation name written relation range, tokenize text = .ok tokens ∧
      writtenName? env.config.dialect.mysql tokens = some (operation, name) ∧
      env.catalog.Names (name.schemaOr env.config.defaultSchema) name.name written ∧
      statement.change? = some (operation, relation) ∧ statement.ranges.getLast? = some range ∧
      range.relation? = some relation ∧ range.used.length = range.columns.length ∧
      (∀ column < range.columns.length, range.used[column]? = some true ↔
        ¬ written.Handles operation ∨ ∃ e ∈ statement.marking, range.Reads e column) ∧
      ((∀ part ∈ readingParts, ∀ e ∈ statement.exprsAt part, ∀ column < range.columns.length,
          range.Reads e column → range.used[column]? = some true) ↔
        ¬ written.Handles operation ∨
          ∀ part ∈ [.updateGuard, .deleteGuard, .sortKey], ∀ e ∈ statement.exprsAt part,
            ∀ column < range.columns.length, range.Reads e column →
              ∃ e' ∈ statement.marking, range.Reads e' column) := by
  obtain ⟨tokens, u, c, htokens, hhead, -⟩ := compile_ok h
  obtain ⟨operation, name, written, relation, range, hname, hwritten, htarget, hmarks⟩ :=
    compileHead_marks hhead hkind
  obtain ⟨hexprs, -⟩ := compileHead_settled hhead
  have hused : ∀ column < range.columns.length, range.used[column]? = some true ↔
      ¬ written.Handles operation ∨ ∃ e ∈ statement.marking, range.Reads e column := by
    intro column hcolumn
    rcases hmarks.used with ⟨hpasses, hused⟩ | ⟨hstays, hused⟩
    · simp [hused, hpasses, hcolumn]
    · rw [hused, List.getElem?_mapIdx, List.getElem?_eq_getElem hcolumn, or_iff_right hstays]
      simp only [Option.map_some, Option.some.injEq, List.any_eq_true]
      exact exists_congr fun e => and_congr_right fun he =>
        Range.isReadBy_iff (hexprs e (mem_exprs_of_marking he)) column
  refine ⟨tokens, operation, name, written, relation, range, htokens, hname, hwritten, htarget,
    hmarks.last, hmarks.relation, ?_, hused, ?_, ?_⟩
  · rcases hmarks.used with ⟨-, hused⟩ | ⟨-, hused⟩ <;> simp [hused]
  · intro hall
    rw [or_iff_not_imp_left]
    intro hhandles part hpart e he column hcolumn hreads
    have hmarked := hall part (by simp_all [readingParts]) e he column hcolumn hreads
    exact ((hused column hcolumn).1 hmarked).resolve_left hhandles
  · intro hall part hpart e he column hcolumn hreads
    refine (hused column hcolumn).2 (hall.imp_right fun hall => ?_)
    -- assigned values and the condition mark what they read; the other parts are those of `hall`
    simp only [readingParts, List.mem_cons, List.not_mem_nil, or_false] at hpart
    rcases hpart with rfl | rfl | hpart
    · exact ⟨e, List.mem_append_left _ he, hreads⟩
    · exact ⟨e, List.mem_append_right _ he, hreads⟩
    · exact hall part (by simpa using hpart) e he column hcolumn hreads

set_option maxRecDepth 10000 in
theorem used_iff_slice :
    ∃ statement t range, compile .bank "UPDATE t SET a = b WHERE id > 0 ORDER BY b LIMIT 1"
        .initial = .ok statement t ∧
      statement.changesRows = true ∧ statement.ranges.getLast? = some range ∧
      range.used = [true, false, true] ∧
      ∃ (written : Relation) (operation : Operation), ∀ column < range.columns.length,
        range.used[column]? = some true ↔
        ¬ written.Handles operation ∨ ∃ e ∈ statement.marking, range.Reads e column := by
  obtain ⟨statement, t, hcompile, hcheck⟩ := exists_compile .bank
    "UPDATE t SET a = b WHERE id > 0 ORDER BY b LIMIT 1"
    (fun statement => statement.changesRows &&
      statement.ranges.getLast?.any fun range => range.used = [true, false, true])
    rfl (by decide +kernel)
  obtain ⟨hkind, hcheck⟩ := Bool.and_eq_true_iff.1 hcheck
  obtain ⟨range, hlast, hchecked⟩ := (Option.any_eq_true _ _).1 hcheck
  obtain ⟨_, operation, _, written, _, range', -, -, -, -, hlast', -, -, hused, -⟩ :=
    used_iff hcompile hkind
  obtain rfl : range = range' := Option.some.inj (hlast.symm.trans hlast')
  exact ⟨statement, t, range, hcompile, hkind, hlast, of_decide_eq_true hchecked, written, operation,
    hused⟩

set_option maxRecDepth 10000 in
/-- A column that only a sort key reads is not marked. -/
theorem sortKey_unmarked :
    ∃ statement t range key, compile .bank "UPDATE t SET a = 1 ORDER BY b LIMIT 1" .initial =
        .ok statement t ∧
      statement.ranges.getLast? = some range ∧ key ∈ statement.exprsAt .sortKey ∧
      range.Reads key 2 ∧ range.used[2]? = some false := by
  obtain ⟨statement, t, hcompile, hcheck⟩ := exists_compile .bank
    "UPDATE t SET a = 1 ORDER BY b LIMIT 1"
    (fun statement => statement.ranges.getLast?.any fun range => range.used[2]? = some false ∧
      (statement.exprsAt .sortKey).any fun key => range.isReadBy key 2) rfl (by decide +kernel)
  obtain ⟨range, hlast, hchecked⟩ := (Option.any_eq_true _ _).1 hcheck
  obtain ⟨hunmarked, hkeys⟩ := of_decide_eq_true hchecked
  obtain ⟨key, hkey, hreads⟩ := List.any_eq_true.1 hkeys
  obtain ⟨tokens, u, c, -, hhead, -⟩ := compile_ok hcompile
  have hsettled := (compileHead_settled hhead).1 key (exprsAt_subset _ hkey)
  exact ⟨statement, t, range, key, hcompile, hlast, hkey, (Range.isReadBy_iff hsettled 2).1 hreads,
    hunmarked⟩

end Statement

end DataChange
