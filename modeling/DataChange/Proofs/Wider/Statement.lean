import DataChange.Proofs.Blind
import DataChange.Proofs.Statement.Contained
import DataChange.Proofs.Wider.Clauses
import DataChange.Proofs.Wider.Query

/-!
# Statements in wider surroundings

A text that compiles gives the same statement by settings that accept more, and within further
scopes around. One clause is read by one dialect alone, the upsert after an INSERT. It begins with
ON, so that the INSERT of the standard persists where no ON follows it (`Insert.compile_persists`),
and where the text ends none does.
-/

namespace DataChange

section

variable {around : List RangeGroup}

theorem Blind.persists {α : Type} {x : Compiler α} (h : Blind x) :
    Persists (Widened around) x x := by
  obtain ⟨result, rfl⟩ := h
  intro s s' a t hs hx _
  cases result with
  | error e => cases hx
  | ok b =>
    cases hx
    exact ⟨s', rfl, hs⟩

variable {env env' : Environment}

/-! ## Targets -/

namespace ViewTarget

theorem resolveFilter_persists (henv : env.Extends env') (base : Range) (filter : Option String) :
    Persists (Widened around) (resolveFilter env base filter) (resolveFilter env' base filter) := by
  cases filter with
  | none => exact .pure _
  | some text =>
    refine (PersistsIf.except _).bind fun tokens => .bind (.onTokens tokens ?_) fun _ => ?_
    · exact (PersistsIf.parser _).bind fun _ => (PersistsIf.reader _).bind fun _ => .pure _
    -- the filter of a view sees no scope, so none is around it
    · have hcondition : ∀ e : Expr, Persists (Widened around)
          (e.resolveCondition env ⟨[base], []⟩)
          (e.resolveCondition env' (Scope.widen [] ⟨[base], []⟩)) :=
        Expr.resolveCondition_persists henv ⟨[base], []⟩
      exact (hcondition _).bind fun _ => .pure _

theorem descend_persists (henv : env.Extends env') (operation : Operation) (view : View)
    (state : Descent) :
    Persists (Widened around) (descend env operation view state)
      (descend env' operation view state) := by
  unfold descend
  dsimp only
  split
  · exact .reject _
  · next base _ =>
    rw [henv.relation]
    refine (PersistsIf.except _).bind fun relation => (Range.ofNew_persists _ _ _).bind fun range => ?_
    -- with and without a filter so far the rest of the step is the same
    have hrest : ∀ outerFilter : Option Expr, Persists (Widened around)
        (do
          let filter ← resolveFilter env range base.filter
          let columnMap ← inRange (state.columnMap.mapM fun column => base.columnMap[column]?)
          return ⟨range.markAllUsed, columnMap, Expr.and? filter outerFilter⟩ : Compiler Descent)
        (do
          let filter ← resolveFilter env' range base.filter
          let columnMap ← inRange (state.columnMap.mapM fun column => base.columnMap[column]?)
          return ⟨range.markAllUsed, columnMap, Expr.and? filter outerFilter⟩) :=
      fun outerFilter => (resolveFilter_persists henv _ _).bind fun _ =>
        (PersistsIf.inRange _).bind fun _ => .pure _
    split
    · exact hrest none
    · exact (PersistsIf.inRange _).bind fun _ => hrest _

theorem followWithin_persists (henv : env.Extends env') (operation : Operation) :
    ∀ (bound : Nat) (state : Descent),
      Persists (Widened around) (followWithin env operation bound state)
        (followWithin env' operation bound state)
  | 0, _ => .throw _
  | bound + 1, state => by
    rw [followWithin, followWithin]
    split
    · exact .pure _
    · exact (descend_persists henv _ _ _).bind fun _ => followWithin_persists henv operation bound _

theorem resolve_persists (henv : env.Extends env') (written : Range) (operation : Operation) :
    Persists (Widened around) (resolve env written operation) (resolve env' written operation) := by
  unfold resolve
  rw [henv.catalog]
  refine (followWithin_persists henv operation _ _).bind fun state => ?_
  dsimp only
  split
  · exact .pure _
  · exact .reject _

end ViewTarget

/-! ## Statements -/

namespace Slice

theorem readBound_persists (henv : env.Extends env') (outer : List RangeGroup) :
    Persists (Widened around) (readBound env outer) (readBound env' (around ++ outer)) :=
  (PersistsIf.parser _).bind fun _ =>
    (Expr.resolve_persists henv (.outerOnly outer) _).bind fun _ => .except _

theorem read?_persists (henv : env.Extends env') (ranges : List Range) :
    Persists (Widened around) (read? env ranges) (read? env' ranges) := by
  refine .outerGroups fun outer => (PersistsIf.reader _).bind fun _ => ?_
  have hkey : Persists (Widened around) (SortKey.read env ⟨ranges, outer⟩)
      (SortKey.read env' ⟨ranges, around ++ outer⟩) :=
    (PersistsIf.parser _).bind fun _ => (Expr.resolve_persists henv ⟨ranges, outer⟩ _).bind fun _ =>
      (PersistsIf.reader _).bind fun _ => .pure _
  -- with and without ORDER BY the bounds persist alike
  have hrest : ∀ orderBy : List SortKey, Persists (Widened around)
      (do
        if ← Reader.skipKeyword .LIMIT then
          let limit ← readBound env outer
          let offset ←
            if ← Reader.skipKeyword .OFFSET then some <$> readBound env outer else pure none
          return some ⟨orderBy, limit, offset⟩
        else if orderBy.isEmpty then return none
        else reject (.unexpected (.keyword .LIMIT) (← get).cursor.fragment) :
          Compiler (Option Slice))
      (do
        if ← Reader.skipKeyword .LIMIT then
          let limit ← readBound env' (around ++ outer)
          let offset ←
            if ← Reader.skipKeyword .OFFSET then some <$> readBound env' (around ++ outer)
            else pure none
          return some ⟨orderBy, limit, offset⟩
        else if orderBy.isEmpty then return none
        else reject (.unexpected (.keyword .LIMIT) (← get).cursor.fragment)) := by
    intro orderBy
    refine (PersistsIf.reader _).bind fun _ => .ite ?_ <| .ite (.pure _) <|
      .get fun _ _ _ => .reject _
    refine (readBound_persists henv outer).bind fun _ => (PersistsIf.reader _).bind fun _ => .ite ?_ ?_
    · exact ((readBound_persists henv outer).map _).bind fun _ => .pure _
    · exact .pure _
  exact .ite ((PersistsIf.reader _).bind fun _ => hkey.commaSeparated.bind hrest) (hrest [])

end Slice

namespace Insert

theorem defaults_persists (mode : InsertMode) (target : ViewTarget) :
    Persists (Widened around) (defaults mode target) (defaults mode target) :=
  (ViewTarget.project_blind _ _).persists.bind fun _ =>
    (ViewTarget.checkList_blind _ _).persists.bind fun _ => .pure _

theorem readRows_persists (henv : env.Extends env') (target : ViewTarget) (map : ColumnMap)
    (overriding : Option Overriding) :
    Persists (Widened around) (readRows env target map overriding)
      (readRows env' target map overriding) := by
  refine (PersistsIf.parser _).bind fun _ => .outerGroups fun outer =>
    (Expr.resolve_persists henv (.outerOnly outer) _).bind fun values => ?_
  split
  · exact (ColumnPolicy.insertRows_blind _ _ _ _).persists.bind fun _ => .pure _
  · exact .reject _

theorem readQuery_persists (henv : env.Extends env') (target : ViewTarget) (map : ColumnMap)
    (overriding : Option Overriding) :
    Persists (Widened around) (readQuery env target map overriding)
      (readQuery env' target map overriding) := by
  refine .outerGroups fun outer => (PersistsIf.inRange _).bind fun _ => .get fun s s' hs => ?_
  rw [hs.cursor]
  refine PersistsIf.noteQuery.bind fun _ => (Query.compile_persists henv _ _).bind fun plan => ?_
  have hcolumns := ColumnPolicy.queryColumns_blind target.relation.columns map plan.columnTypes
    overriding s.cursor.fragment
  exact .ite (.bind (.reject _) fun _ => hcolumns.persists.bind fun _ => .pure _)
    (hcolumns.persists.bind fun _ => .pure _)

theorem resolveUpsert_persists (henv : env.Extends env') (target : ViewTarget) (scope : Scope)
    (newRow : Range) (value : Expr) :
    Persists (Widened around) (resolveUpsert env target scope newRow value)
      (resolveUpsert env' target (scope.widen around) newRow value) :=
  (Expr.resolve_persists henv _ _).bind fun _ => (ViewTarget.onBase_blind _ _).persists.bind fun _ =>
    .ite (.inRange _) (.pure _)

theorem readUpsert_persists (henv : env.Extends env') (target : ViewTarget) :
    Persists (Widened around) (readUpsert env target) (readUpsert env' target) :=
  (PersistsIf.lift_parsing (SetClause.read_persists target.written henv.config.mysql)).bind fun _ =>
    PersistsIf.newRange.bind fun _ => .outerGroups fun outer =>
      (PersistsIf.mapM (resolveUpsert_persists henv target ⟨[_, _], outer⟩ _) _).bind fun _ =>
        (ViewTarget.assign_blind _ _ _).persists

/-- Where no ON follows, there is no upsert to be read. -/
def NoUpsert {α : Type} (_ : α) (t : CompilerState) : Prop :=
  ∀ x xs, t.cursor.rest = x :: xs → x.kind ≠ .keyword .ON

theorem readUpsert?_persists (henv : env.Extends env') (target : ViewTarget) (mode : InsertMode) :
    PersistsIf NoUpsert (Widened around) (readUpsert? env target mode)
      (readUpsert? env' target mode) := by
  unfold readUpsert?
  cases hmysql : env.config.dialect.mysql with
  | true =>
    rw [henv.config.mysql hmysql]
    refine .ite ((PersistsIf.reader _).bind fun _ => .ite ?_ (.pure _)) (.pure _)
    exact (PersistsIf.reader _).bind fun _ => (PersistsIf.reader _).bind fun _ =>
      (PersistsIf.reader _).bind fun _ => (readUpsert_persists henv target).bind fun _ => .pure _
  | false =>
    intro s s' upsert t hs h hnone
    obtain ⟨rfl, rfl⟩ := pure_ok.1 h
    refine ⟨s', ?_, hs⟩
    split
    · have habsent : Reader.skipKeyword .ON s'.cursor = .ok false s'.cursor :=
        Reader.skipKeyword_absent (hs.cursor ▸ hnone)
      exact bind_ok.2 ⟨false, s', lift_reader_compiler_run habsent, rfl⟩
    · rfl

theorem readSource_persists (henv : env.Extends env') (target : ViewTarget) (map : ColumnMap)
    (mode : InsertMode) (overriding : Option Overriding) :
    Persists (Widened around) (readSource env target map mode overriding)
      (readSource env' target map mode overriding) := by
  refine (PersistsIf.lift_tokens (skipValues_persists henv.config.mysql)).bindIf
    (fun found => .ite ?_ <| .get fun s s' hs => ?_) ?_
  · exact (readRows_persists henv _ _ _).bind fun _ => .pure _
  · rw [hs.cursor]
    exact .ite ((readQuery_persists henv _ _ _).bind fun (_, _) => .pure _) <|
      .get fun _ _ _ => .reject _
  · intro found s source t h _
    by_contra hneither
    obtain ⟨hfound, hquery⟩ := not_or.1 hneither
    rw [if_neg hfound] at h
    obtain ⟨_, _, hget, h⟩ := bind_ok.1 h
    obtain ⟨rfl, rfl⟩ := get_ok.1 hget
    rw [if_neg hquery] at h
    obtain ⟨_, _, -, h⟩ := bind_ok.1 h
    exact (reject_ok.1 h).elim

theorem compile_persists (henv : env.Extends env') :
    PersistsIf NoUpsert (Widened around) (compile env) (compile env') := by
  refine (PersistsIf.lift_tokens (readMode_persists henv.config.mysql)).bind fun _ =>
    (Range.readTarget_persists henv _).bind fun written =>
      (ViewTarget.resolve_persists henv _ _).bind fun _ => (PersistsIf.reader _).bind fun _ => .ite ?_ ?_
  · exact (PersistsIf.reader _).bind fun _ => (defaults_persists _ _).when _
  · refine (PersistsIf.lift_tokens (readColumns_persists written henv.config.oracle)).bind fun _ =>
      (ViewTarget.project_blind _ _).persists.bind fun _ => (PersistsIf.reader _).bind fun _ =>
        (readSource_persists henv _ _ _ _).bind fun (_, _, _) =>
          (readUpsert?_persists henv _ _).bindIf
            (fun _ => (ViewTarget.checkList_blind _ _).persists.bind fun _ => .pure _) ?_
    -- nothing is read after the upsert
    intro upsert s statement t h hnone
    obtain ⟨_, _, hcheck, h⟩ := bind_ok.1 h
    obtain ⟨-, rfl⟩ := inRange_ok.1 hcheck
    obtain ⟨-, rfl⟩ := pure_ok.1 h
    exact hnone

end Insert

theorem Update.compile_persists (henv : env.Extends env') :
    Persists (Widened around) (Update.compile env) (Update.compile env') := by
  refine (PersistsIf.reader _).bind fun _ => (Range.readTarget_persists henv _).bind fun written => ?_
  refine (PersistsIf.reader _).bind fun _ => ?_
  refine (PersistsIf.lift_parsing (SetClause.read_persists written henv.config.mysql)).bind fun _ => ?_
  refine Query.readCondition_persists.bind fun _ => (Slice.read?_persists henv _).bind fun _ => ?_
  refine .outerGroups fun outer => .bind (.mapM ?_ _) fun _ => .bind ?_ fun _ => ?_
  · exact Expr.resolve_persists henv ⟨[written], outer⟩
  · exact Query.resolveCondition?_persists (Query.compileTokens_persists henv) ⟨[written], outer⟩ _
  refine (ViewTarget.resolve_persists henv _ _).bind fun target => ?_
  have hmoved := fun values => Blind.mapM (ViewTarget.onBase_blind target) values
  exact (hmoved _).persists.bind fun _ => (ViewTarget.onBase?_blind _ _).persists.bind fun _ =>
    (ViewTarget.sliceOnBase_blind _ _).persists.bind fun _ =>
      (ViewTarget.assign_blind _ _ _).persists.bind fun _ => .pure _

theorem Delete.compile_persists (henv : env.Extends env') :
    Persists (Widened around) (Delete.compile env) (Delete.compile env') := by
  refine (PersistsIf.reader _).bind fun _ => (PersistsIf.reader _).bind fun _ => ?_
  refine (Range.readTarget_persists henv _).bind fun written => ?_
  refine Query.readCondition_persists.bind fun _ => (Slice.read?_persists henv _).bind fun _ => ?_
  refine .outerGroups fun outer => .bind ?_ fun _ => ?_
  · exact Query.resolveCondition?_persists (Query.compileTokens_persists henv) ⟨[written], outer⟩ _
  exact (ViewTarget.resolve_persists henv _ _).bind fun _ =>
    (ViewTarget.onBase?_blind _ _).persists.bind fun _ =>
      (ViewTarget.sliceOnBase_blind _ _).persists.bind fun _ => .pure _

namespace Merge

theorem readDerived_persists (henv : env.Extends env') (opening : Token) :
    Persists (Widened around) (readDerived env opening) (readDerived env' opening) := by
  refine (PersistsIf.reader _).bind fun _ => .outerGroups fun _ =>
    (Query.compileTokens_persists henv _ _).bind fun _ => (PersistsIf.reader _).bind fun asName => ?_
  cases asName with
  | none => exact .get fun _ _ _ => .reject _
  | some asName => exact PersistsIf.newRange.bind fun _ => .pure _

theorem readSource_persists (henv : env.Extends env') :
    Persists (Widened around) (readSource env) (readSource env') := by
  refine (PersistsIf.reader _).bind fun opening => ?_
  cases opening with
  | some opening => exact readDerived_persists henv opening
  | none => exact Range.readRelation_persists henv

theorem resolveGuard_persists (henv : env.Extends env') (scope : Scope) (guard : Option Expr) :
    Persists (Widened around) (resolveGuard env scope guard)
      (resolveGuard env' (scope.widen around) guard) := by
  cases guard with
  | none => exact .pure _
  | some guard => exact Expr.resolveCondition_persists henv _ _

theorem resolveUpdate_persists (henv : env.Extends env') (target : ViewTarget) (scope : Scope)
    (branch : UpdateBranch) :
    Persists (Widened around) (resolveUpdate env target scope branch)
      (resolveUpdate env' target (scope.widen around) branch) :=
  (resolveGuard_persists henv _ _).bind fun _ =>
    (PersistsIf.mapM (fun value => (Expr.resolve_persists henv scope value).bind fun _ =>
      (ViewTarget.onBase_blind _ _).persists) _).bind fun _ =>
      (ViewTarget.assign_blind _ _ _).persists.bind fun _ =>
        (ViewTarget.onBase_blind _ _).persists.bind fun _ => .pure _

theorem resolveDelete_persists (henv : env.Extends env') (target : ViewTarget) (scope : Scope)
    (guard : Option Expr) :
    Persists (Widened around) (resolveDelete env target scope guard)
      (resolveDelete env' target (scope.widen around) guard) :=
  (resolveGuard_persists henv _ _).bind fun _ => (ViewTarget.onBase_blind _ _).persists

theorem resolveInsert_persists (henv : env.Extends env') (target : ViewTarget) (scope : Scope)
    (branch : InsertBranch) :
    Persists (Widened around) (resolveInsert env target scope branch)
      (resolveInsert env' target (scope.widen around) branch) :=
  (resolveGuard_persists henv _ _).bind fun _ => (Expr.resolve_persists henv _ _).bind fun _ =>
    (ViewTarget.project_blind _ _).persists.bind fun _ =>
      (ColumnPolicy.insertRow_blind _ _ _ _).persists.bind fun _ =>
        (ViewTarget.checkList_blind _ _).persists.bind fun _ => .pure _

theorem ifPresent_persists {α β : Type} {step step' : α → Compiler β}
    (h : ∀ a, Persists (Widened around) (step a) (step' a)) (branch : Option α) :
    Persists (Widened around) (ifPresent step branch) (ifPresent step' branch) := by
  cases branch with
  | none => exact .pure _
  | some a => exact (h a).bind fun _ => .pure _

theorem compile_persists (henv : env.Extends env') :
    Persists (Widened around) (compile env) (compile env') := by
  refine (PersistsIf.reader _).bind fun _ => (PersistsIf.reader _).bind fun _ => ?_
  refine (Range.readTarget_persists henv _).bind fun written => (PersistsIf.reader _).bind fun _ => ?_
  refine (readSource_persists henv).bind fun source => (PersistsIf.reader _).bind fun _ => ?_
  refine (PersistsIf.parser _).bind fun _ => (PersistsIf.except _).bind fun ranges => ?_
  refine .outerGroups fun outer => ?_
  refine (Expr.resolveCondition_persists henv ⟨ranges, outer⟩ _).bind fun _ => ?_
  refine (PersistsIf.lift_parsing (readBranches_persists henv written)).bind fun _ => ?_
  refine (ViewTarget.resolve_persists henv _ _).bind fun target => ?_
  refine (ifPresent_persists (resolveUpdate_persists henv target ⟨ranges, outer⟩) _).bind fun _ => ?_
  refine (ifPresent_persists (resolveDelete_persists henv target ⟨ranges, outer⟩) _).bind fun _ => ?_
  refine (ifPresent_persists (resolveInsert_persists henv target ⟨[source], outer⟩) _).bind
    fun _ => ?_
  exact (ViewTarget.onBase_blind _ _).persists.bind fun _ => .pure _

end Merge

namespace Truncate

theorem readTarget_persists (henv : env.Extends env') :
    Persists (Widened around) (readTarget env) (readTarget env') := by
  refine (PersistsIf.reader _).bind fun _ => .ite ?_ <| (PersistsIf.reader _).bind fun _ =>
    .ite ?_ <| .get fun _ _ _ => .reject _
  · refine (Range.readTarget_persists henv _).bind fun range => ?_
    split
    · exact .pure _
    · exact .reject _
  · unfold readSchema
    rw [henv.catalog]
    refine (PersistsIf.reader _).bind fun name => ?_
    split
    · exact .pure _
    · exact .reject _

theorem compile_persists (henv : env.Extends env') :
    Persists (Widened around) (compile env) (compile env') :=
  (PersistsIf.reader _).bind fun _ => (readTarget_persists henv).bind fun _ =>
    (PersistsIf.reader _).bind fun _ => (PersistsIf.reader _).bind fun _ => .pure _

end Truncate

namespace Call

theorem reword_persists {α : Type} {x y : Compiler α} (f : Error → Error)
    (h : Persists (Widened around) x y) : Persists (Widened around) (reword f x) (reword f y) := by
  intro s s' a t hs hx _
  have hok : x s = .ok a t := by
    unfold reword at hx
    split at hx
    · cases hx
    · exact hx
  obtain ⟨t', ht', hend⟩ := h hs hok trivial
  exact ⟨t', by rw [reword, ht'], hend⟩

theorem bindArguments_persists (henv : env.Extends env') (routine : Routine) (scope : Scope)
    (position : Nat) (arguments : List Expr) (parameters : List RoutineParameter) :
    Persists (Widened around) (bindArguments env routine scope position arguments parameters)
      (bindArguments env' routine (scope.widen around) position arguments parameters) := by
  induction arguments generalizing position parameters with
  | nil => exact .pure _
  | cons argument arguments ih =>
    cases parameters with
    | nil => exact .pure _
    | cons parameter parameters =>
      exact (Expr.resolve_persists henv _ _).bind fun _ => (PersistsIf.except _).bind fun _ =>
        (ih _ _).bind fun _ => .pure _

theorem noteCall_persists (routine : Routine) :
    Persists (Widened around) (noteCall routine) (noteCall routine) := by
  intro s s' _ t hs h _
  obtain rfl := modify_ok.1 h
  exact ⟨_, modify_ok.2 rfl, hs.reading, hs.outer, congrArg (· ++ [routine]) hs.calls, hs.nextRange⟩

theorem compileRoutine_persists (henv : env.Extends env') (name : QualifiedName)
    (fragment : Fragment) (routines : List Routine) :
    Persists (Widened around) (compileRoutine env name fragment routines)
      (compileRoutine env' name fragment routines) := by
  refine (PersistsIf.lift_parsing (readArguments_persists henv.config.oracle)).bind fun arguments => ?_
  split
  · exact .reject _
  · exact .outerGroups fun outer =>
      (bindArguments_persists henv _ (.outerOnly outer) _ _ _).bind fun _ =>
        (noteCall_persists _).bind fun _ => .pure _

theorem compileExpression_persists (henv : env.Extends env') :
    Persists (Widened around) (compileExpression env) (compileExpression env') :=
  (PersistsIf.parser _).bind fun _ => .outerGroups fun outer =>
    (reword_persists _ (Expr.resolve_persists henv (.outerOnly outer) _)).bind fun _ => .pure _

theorem findRoutines_eq (henv : env.Extends env') (name : QualifiedName) :
    findRoutines env' name = findRoutines env name := by
  unfold findRoutines
  rw [henv.catalog, henv.config.defaultSchema]

theorem compileAgain_persists (henv : env.Extends env') (start : Cursor) :
    Persists (Widened around)
      (do
        modify fun s => { s with cursor := start }
        compileExpression env : Compiler CallStatement)
      (do
        modify fun s => { s with cursor := start }
        compileExpression env') := by
  refine .bind (fun s s' _ t hs h _ => ?_) fun _ => compileExpression_persists henv
  obtain rfl := modify_ok.1 h
  exact ⟨_, modify_ok.2 rfl, hs.withCursor start⟩

/-- Where no routine has the name, a strict setting refuses what others may take. -/
theorem compile_persists (henv : env.Extends env') :
    Persists (Widened around) (Call.compile env) (Call.compile env') := by
  refine (PersistsIf.reader _).bind fun _ => .get fun start _ hs =>
    (PersistsIf.reader _).bind fun _ => ?_
  rw [hs.cursor]
  simp only [findRoutines_eq henv]
  split
  · exact compileRoutine_persists henv _ _ _
  · cases hstrict : env.config.strictCalls with
    | true =>
      rw [if_pos rfl]
      split
      · exact .reject _
      · rintro s s' c t - h -
        obtain ⟨_, _, -, h⟩ := bind_ok.1 h
        exact (reject_ok.1 h).elim
    | false =>
      have hstrict' : env'.config.strictCalls = false :=
        Bool.eq_false_iff.2 fun h => by simp [henv.config.strictCalls h] at hstrict
      rw [hstrict']
      exact compileAgain_persists henv start.cursor

end Call

/-! ## Texts -/

namespace Statement

theorem compileHead_persists (henv : env.Extends env') :
    PersistsIf Insert.NoUpsert (Widened around) (compileHead env) (compileHead env') := by
  refine .get fun s s' hs => ?_
  rw [hs.cursor]
  dsimp only
  split
  · exact .reject _
  -- INSERT and REPLACE are compiled by the same function
  · have hinsert : PersistsIf Insert.NoUpsert (Widened around)
        (do return .insert (← Insert.compile env) : Compiler Statement)
        (do return .insert (← Insert.compile env')) :=
      (Insert.compile_persists henv).bindIf (fun _ => .pure _) fun _ _ _ _ h hend => by
        obtain ⟨-, rfl⟩ := pure_ok.1 h
        exact hend
    split
    · exact hinsert
    · exact (Update.compile_persists henv).bind fun _ => .pure _
    · exact (Delete.compile_persists henv).bind fun _ => .pure _
    · exact (Merge.compile_persists henv).bind fun _ => .pure _
    · exact (Truncate.compile_persists henv).bind fun _ => .pure _
    · exact (Call.compile_persists henv).bind fun _ => .pure _
    · cases hmysql : env.config.dialect.mysql with
      | true =>
        rw [henv.config.mysql hmysql]
        exact hinsert
      | false => exact .reject _
    · exact .reject _

/-- A statement after which the text has ended persists. -/
theorem compileTokens_persists (henv : env.Extends env') (tokens : List Token) :
    Persists (Widened around) (compileTokens env tokens) (compileTokens env' tokens) := by
  refine .onTokens tokens <| (compileHead_persists henv).bindIf
    (fun _ => (PersistsIf.reader _).bind fun _ => .pure _) ?_
  intro statement s _ t h _ x xs hx hon
  obtain ⟨_, _, hlift, -⟩ := bind_ok.1 h
  obtain ⟨c, hc, -⟩ := lift_reader_compiler_ok.1 hlift
  rcases Reader.finish_ok hc with hempty | ⟨y, hy, hrest⟩
  · simp [hempty] at hx
  · obtain ⟨rfl, -⟩ := List.cons.inj (hrest.symm.trans hx)
    simp [hy] at hon

theorem compile_persists (henv : env.Extends env') (text : String) :
    Persists (Widened around) (compile env text) (compile env' text) :=
  (PersistsIf.except _).bind fun _ => compileTokens_persists henv _

/-- A MERGE of a query, for which names are sought in several scopes. -/
def mergeQuery : String :=
  "MERGE INTO t USING (SELECT amount FROM ledger WHERE id = ?) d ON a = amount " ++
    "WHEN NOT MATCHED THEN INSERT (b) VALUES (amount)"

set_option maxRecDepth 10000 in
theorem mergeQuery_compiles :
    ∃ statement t, compile .bank mergeQuery .initial = .ok statement t := by
  obtain ⟨statement, t, hcompile, -⟩ := exists_compile .bank mergeQuery (fun _ => true)
    (append_eq_ofList rfl rfl) (by decide +kernel)
  exact ⟨statement, t, hcompile⟩

/-- Settings that accept more give the same statement, as many parameters and the same calls. -/
theorem compile_extended {env env' : Environment} {text : String} {statement : Statement}
    {s t : CompilerState} (henv : env.Extends env') (h : compile env text s = .ok statement t) :
    ∃ t', compile env' text s = .ok statement t' ∧
      t'.parameters = t.parameters ∧ t'.calls = t.calls := by
  have hsame : Widened [] s s := ⟨rfl, rfl, rfl, rfl⟩
  obtain ⟨t', ht', hend⟩ := compile_persists henv text hsame h trivial
  exact ⟨t', ht', congrArg Reading.parameters hend.reading, hend.calls⟩

/-- The bank with both dialects. -/
def bankOfDialects : Environment :=
  ⟨Catalog.Banking.catalog, { dialect := ⟨true, true⟩ }⟩

theorem compile_extended_merge :
    ∃ statement t t', Environment.bank.Extends bankOfDialects ∧
      compile .bank mergeQuery .initial = .ok statement t ∧
      compile bankOfDialects mergeQuery .initial = .ok statement t' ∧
      t'.parameters = t.parameters ∧ t'.calls = t.calls := by
  have henv : Environment.bank.Extends bankOfDialects :=
    ⟨rfl, rfl, fun _ => rfl, fun _ => rfl, id⟩
  obtain ⟨statement, t, hcompile⟩ := mergeQuery_compiles
  obtain ⟨t', hcompile', hrest⟩ := compile_extended henv hcompile
  exact ⟨statement, t, t', henv, hcompile, hcompile', hrest⟩

/-- Within further scopes around its own a text gives the same statement, as many parameters, the
same calls and the same range ids. -/
theorem compile_enclosed {env : Environment} {text : String} {statement : Statement}
    {s t : CompilerState} (more : List RangeGroup) (h : compile env text s = .ok statement t) :
    ∃ t', compile env text { s with outer := more ++ s.outer } = .ok statement t' ∧
      t'.parameters = t.parameters ∧ t'.calls = t.calls ∧ t'.nextRange = t.nextRange := by
  obtain ⟨t', ht', hend⟩ := compile_persists (.refl env) text (Widened.of_outer more s) h trivial
  exact ⟨t', ht', congrArg Reading.parameters hend.reading, hend.calls, hend.nextRange⟩

/-- Two groups of variables with the names of columns that `mergeQuery` reads, one of them twice. -/
def namesakes : List RangeGroup :=
  [[.ofVariables 7 "d" [⟨"id", .varchar⟩, ⟨"amount", .varchar⟩] .absent],
    [.ofVariables 8 "ledger" [⟨"amount", .varchar⟩, ⟨"a", .varchar⟩] .absent,
      .ofVariables 9 "other" [⟨"a", .varchar⟩] .absent]]

theorem compile_enclosed_merge :
    ∃ statement t t', compile .bank mergeQuery .initial = .ok statement t ∧
      compile .bank mergeQuery { CompilerState.initial with outer := namesakes ++ [] } =
        .ok statement t' ∧
      t'.parameters = t.parameters ∧ t'.calls = t.calls ∧ t'.nextRange = t.nextRange := by
  obtain ⟨statement, t, hcompile⟩ := mergeQuery_compiles
  obtain ⟨t', hcompile', hrest⟩ := compile_enclosed namesakes hcompile
  exact ⟨statement, t, t', hcompile, hcompile', hrest⟩

end Statement

end

end DataChange
