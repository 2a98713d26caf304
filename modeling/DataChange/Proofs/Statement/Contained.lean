import DataChange.Proofs.Blind
import DataChange.Proofs.Catalog
import DataChange.Proofs.Contained
import DataChange.Proofs.Statement.CompileRuns

/-!
# Statements that fail and what they leave

All compilers of statements but that of CALL are `Contained`. A CALL notes the routine when its
arguments are settled, which is the last that its compiler does: `Notes` says that a computation notes
the calls of its result and none if it fails, as `compileHead_notes` shows of all statements. A text
can still be refused after that, since something follows the statement. Then, and only then, a call is
noted without a statement (`compile_calls`).
-/

namespace DataChange

theorem Blind.contained {α : Type} {x : Compiler α} (h : Blind x) : Contained x := by
  obtain ⟨result, rfl⟩ := h
  refine .of_same fun s => ?_
  cases result <;> rfl

/-! ## Targets -/

namespace ViewTarget

variable {env : Environment}

theorem resolveFilter_contained (base : Range) (filter : Option String) :
    Contained (resolveFilter env base filter) := by
  cases filter with
  | none => exact .pure _
  | some text =>
    refine (Contained.except _).bind fun tokens => ?_
    have hread : Contained (Compiler.onTokens tokens do
        let condition ← Expr.parse
        Reader.finish
        return condition) :=
      .onTokens tokens <| (Contained.parser _).bind fun _ => (Contained.reader _).bind fun _ => .pure _
    exact hread.bind fun _ => (Expr.resolveCondition_contained _ _).bind fun _ => .pure _

theorem descend_contained (operation : Operation) (view : View) (state : Descent) :
    Contained (descend env operation view state) := by
  unfold descend
  dsimp only
  split
  · exact .reject _
  · next base _ =>
    refine (Contained.except _).bind fun relation => (Range.ofNew_contained _ _ _).bind fun range => ?_
    have hrest : ∀ outerFilter : Option Expr, Contained (do
        let filter ← resolveFilter env range base.filter
        let columnMap ← inRange (state.columnMap.mapM fun column => base.columnMap[column]?)
        return ⟨range.markAllUsed, columnMap, Expr.and? filter outerFilter⟩ : Compiler Descent) :=
      fun outerFilter => (resolveFilter_contained _ _).bind fun _ =>
        (Contained.inRange _).bind fun _ => .pure _
    split
    · exact hrest none
    · exact (Contained.inRange _).bind fun _ => hrest _

theorem followWithin_contained (operation : Operation) : ∀ (bound : Nat) (state : Descent),
    Contained (followWithin env operation bound state)
  | 0, _ => .throw _
  | bound + 1, state => by
    rw [followWithin]
    split
    · exact .pure _
    · exact (descend_contained _ _ _).bind fun _ => followWithin_contained operation bound _

theorem resolve_contained (written : Range) (operation : Operation) :
    Contained (resolve env written operation) := by
  refine (followWithin_contained operation _ _).bind fun state => ?_
  dsimp only
  split
  · exact .pure _
  · exact .reject _

end ViewTarget

/-! ## Statements -/

section

variable {env : Environment}

namespace Slice

theorem readBound_contained (outer : List RangeGroup) : Contained (readBound env outer) :=
  (Contained.parser _).bind fun _ => (Expr.resolve_contained _ _).bind fun _ => .except _

theorem read?_contained (ranges : List Range) : Contained (read? env ranges) := by
  refine Contained.outerGroups.bind fun outer => (Contained.reader _).bind fun _ => ?_
  have hkey : Contained (SortKey.read env ⟨ranges, outer⟩) :=
    (Contained.parser _).bind fun _ => (Expr.resolve_contained _ _).bind fun _ =>
      (Contained.reader _).bind fun _ => .pure _
  have hrest : ∀ orderBy : List SortKey, Contained (do
      if ← Reader.skipKeyword .LIMIT then
        let limit ← readBound env outer
        let offset ←
          if ← Reader.skipKeyword .OFFSET then some <$> readBound env outer else pure none
        return some ⟨orderBy, limit, offset⟩
      else if orderBy.isEmpty then return none
      else reject (.unexpected (.keyword .LIMIT) (← get).cursor.fragment) :
        Compiler (Option Slice)) := by
    intro orderBy
    refine (Contained.reader _).bind fun _ => .ite ?_ <| .ite (.pure _) <|
      Contained.get.bind fun _ => .reject _
    refine (readBound_contained outer).bind fun _ => (Contained.reader _).bind fun _ => .ite ?_ ?_
    · exact ((readBound_contained outer).map _).bind fun _ => .pure _
    · exact .pure _
  exact .ite ((Contained.reader _).bind fun _ => hkey.commaSeparated.bind hrest) (hrest [])

end Slice

namespace Insert

theorem defaults_contained (mode : InsertMode) (target : ViewTarget) :
    Contained (defaults mode target) :=
  (ViewTarget.project_blind _ _).contained.bind fun _ =>
    (ViewTarget.checkList_blind _ _).contained.bind fun _ => .pure _

theorem readRows_contained (target : ViewTarget) (map : ColumnMap)
    (overriding : Option Overriding) : Contained (readRows env target map overriding) := by
  refine (Contained.parser _).bind fun _ => Contained.outerGroups.bind fun _ =>
    (Expr.resolve_contained _ _).bind fun values => ?_
  split
  · exact (ColumnPolicy.insertRows_blind _ _ _ _).contained.bind fun _ => .pure _
  · exact .reject _

theorem readQuery_contained (target : ViewTarget) (map : ColumnMap)
    (overriding : Option Overriding) : Contained (readQuery env target map overriding) := by
  refine Contained.outerGroups.bind fun _ => (Contained.inRange _).bind fun _ =>
    Contained.get.bind fun _ => (Contained.noteQuery _ _).bind fun _ =>
      (Query.compile_contained _ _).bind fun plan => ?_
  have hcolumns := fun fragment => (ColumnPolicy.queryColumns_blind target.relation.columns map
    plan.columnTypes overriding fragment).contained
  exact .ite ((Contained.reject _).bind fun _ => (hcolumns _).bind fun _ => .pure _)
    ((hcolumns _).bind fun _ => .pure _)

theorem resolveUpsert_contained (target : ViewTarget) (scope : Scope) (newRow : Range)
    (value : Expr) : Contained (resolveUpsert env target scope newRow value) :=
  (Expr.resolve_contained _ _).bind fun _ => (ViewTarget.onBase_blind _ _).contained.bind fun _ =>
    .ite (.inRange _) (.pure _)

theorem readUpsert_contained (target : ViewTarget) : Contained (readUpsert env target) :=
  (Contained.parser _).bind fun _ => Contained.newRange.bind fun _ =>
    Contained.outerGroups.bind fun _ =>
      (Contained.mapM (fun _ => resolveUpsert_contained _ _ _ _) _).bind fun _ =>
        (ViewTarget.assign_blind _ _ _).contained

theorem readUpsert?_contained (target : ViewTarget) (mode : InsertMode) :
    Contained (readUpsert? env target mode) := by
  refine .ite ((Contained.reader _).bind fun _ => .ite ?_ (.pure _)) (.pure _)
  exact (Contained.reader _).bind fun _ => (Contained.reader _).bind fun _ =>
    (Contained.reader _).bind fun _ => (readUpsert_contained target).bind fun _ => .pure _

theorem readSource_contained (target : ViewTarget) (map : ColumnMap) (mode : InsertMode)
    (overriding : Option Overriding) : Contained (readSource env target map mode overriding) := by
  refine (Contained.reader _).bind fun _ => .ite ?_ <| Contained.get.bind fun _ => .ite ?_ <|
    Contained.get.bind fun _ => .reject _
  · exact (readRows_contained _ _ _).bind fun _ => .pure _
  · exact (readQuery_contained _ _ _).bind fun _ => .pure _

theorem compile_contained : Contained (compile env) := by
  refine (Contained.reader _).bind fun _ => (Range.readTarget_contained _).bind fun _ =>
    (ViewTarget.resolve_contained _ _).bind fun _ => (Contained.reader _).bind fun _ => .ite ?_ ?_
  · exact (Contained.reader _).bind fun _ => defaults_contained _ _
  · exact (Contained.reader _).bind fun _ => (ViewTarget.project_blind _ _).contained.bind fun _ =>
      (Contained.reader _).bind fun _ => (readSource_contained _ _ _ _).bind fun _ =>
        (readUpsert?_contained _ _).bind fun _ =>
          (ViewTarget.checkList_blind _ _).contained.bind fun _ => .pure _

end Insert

theorem Update.compile_contained : Contained (Update.compile env) :=
  (Contained.reader _).bind fun _ => (Range.readTarget_contained _).bind fun _ =>
    (Contained.reader _).bind fun _ => (Contained.parser _).bind fun _ =>
      Query.readCondition_contained.bind fun _ => (Slice.read?_contained _).bind fun _ =>
        Contained.outerGroups.bind fun _ =>
          (Contained.mapM (fun _ => Expr.resolve_contained _ _) _).bind fun _ =>
            (Query.resolveCondition?_contained (Query.compileTokens_contained env) _ _).bind fun _ =>
              (ViewTarget.resolve_contained _ _).bind fun target =>
                (Blind.mapM (ViewTarget.onBase_blind target) _).contained.bind fun _ =>
                  (ViewTarget.onBase?_blind _ _).contained.bind fun _ =>
                    (ViewTarget.sliceOnBase_blind _ _).contained.bind fun _ =>
                      (ViewTarget.assign_blind _ _ _).contained.bind fun _ => .pure _

theorem Delete.compile_contained : Contained (Delete.compile env) :=
  (Contained.reader _).bind fun _ => (Contained.reader _).bind fun _ =>
    (Range.readTarget_contained _).bind fun _ => Query.readCondition_contained.bind fun _ =>
      (Slice.read?_contained _).bind fun _ => Contained.outerGroups.bind fun _ =>
        (Query.resolveCondition?_contained (Query.compileTokens_contained env) _ _).bind fun _ =>
          (ViewTarget.resolve_contained _ _).bind fun _ =>
            (ViewTarget.onBase?_blind _ _).contained.bind fun _ =>
              (ViewTarget.sliceOnBase_blind _ _).contained.bind fun _ => .pure _

namespace Merge

theorem readDerived_contained (opening : Token) : Contained (readDerived env opening) := by
  refine (Contained.reader _).bind fun _ => Contained.outerGroups.bind fun _ =>
    (Query.compileTokens_contained env _ _).bind fun _ => (Contained.reader _).bind fun asName => ?_
  cases asName with
  | none => exact Contained.get.bind fun _ => .reject _
  | some asName => exact Contained.newRange.bind fun _ => .pure _

theorem readSource_contained : Contained (readSource env) := by
  refine (Contained.reader _).bind fun opening => ?_
  cases opening with
  | some opening => exact readDerived_contained opening
  | none => exact Range.readRelation_contained

theorem resolveGuard_contained (scope : Scope) (guard : Option Expr) :
    Contained (resolveGuard env scope guard) := by
  cases guard with
  | none => exact .pure _
  | some guard => exact Expr.resolveCondition_contained _ _

theorem resolveUpdate_contained (target : ViewTarget) (scope : Scope) (branch : UpdateBranch) :
    Contained (resolveUpdate env target scope branch) := by
  have hvalue : ∀ value : Expr, Contained (do
      let value ← value.resolve env scope
      target.onBase value : Compiler Expr) :=
    fun value => (Expr.resolve_contained _ _).bind fun _ => (ViewTarget.onBase_blind _ _).contained
  exact (resolveGuard_contained _ _).bind fun _ => (Contained.mapM hvalue _).bind fun _ =>
    (ViewTarget.assign_blind _ _ _).contained.bind fun _ =>
      (ViewTarget.onBase_blind _ _).contained.bind fun _ => .pure _

theorem resolveDelete_contained (target : ViewTarget) (scope : Scope) (guard : Option Expr) :
    Contained (resolveDelete env target scope guard) :=
  (resolveGuard_contained _ _).bind fun _ => (ViewTarget.onBase_blind _ _).contained

theorem resolveInsert_contained (target : ViewTarget) (scope : Scope) (branch : InsertBranch) :
    Contained (resolveInsert env target scope branch) :=
  (resolveGuard_contained _ _).bind fun _ => (Expr.resolve_contained _ _).bind fun _ =>
    (ViewTarget.project_blind _ _).contained.bind fun _ =>
      (ColumnPolicy.insertRow_blind _ _ _ _).contained.bind fun _ =>
        (ViewTarget.checkList_blind _ _).contained.bind fun _ => .pure _

theorem ifPresent_contained {α β : Type} {step : α → Compiler β} (h : ∀ a, Contained (step a))
    (branch : Option α) : Contained (ifPresent step branch) := by
  cases branch with
  | none => exact .pure _
  | some a => exact (h a).bind fun _ => .pure _

theorem compile_contained : Contained (compile env) :=
  (Contained.reader _).bind fun _ => (Contained.reader _).bind fun _ =>
    (Range.readTarget_contained _).bind fun _ => (Contained.reader _).bind fun _ =>
      readSource_contained.bind fun _ => (Contained.reader _).bind fun _ =>
        (Contained.parser _).bind fun _ => (Contained.except _).bind fun _ =>
          Contained.outerGroups.bind fun _ => (Expr.resolveCondition_contained _ _).bind fun _ =>
            (Contained.parser _).bind fun _ => (ViewTarget.resolve_contained _ _).bind fun _ =>
              (ifPresent_contained (resolveUpdate_contained _ _) _).bind fun _ =>
                (ifPresent_contained (resolveDelete_contained _ _) _).bind fun _ =>
                  (ifPresent_contained (resolveInsert_contained _ _) _).bind fun _ =>
                    (ViewTarget.onBase_blind _ _).contained.bind fun _ => .pure _

end Merge

namespace Truncate

theorem readTarget_contained : Contained (readTarget env) := by
  refine (Contained.reader _).bind fun _ => .ite ?_ <| (Contained.reader _).bind fun _ =>
    .ite ?_ <| Contained.get.bind fun _ => .reject _
  · refine (Range.readTarget_contained _).bind fun range => ?_
    split
    · exact .pure _
    · exact .reject _
  · refine (Contained.reader _).bind fun name => ?_
    split
    · exact .pure _
    · exact .reject _

theorem compile_contained : Contained (compile env) :=
  (Contained.reader _).bind fun _ => readTarget_contained.bind fun _ =>
    (Contained.reader _).bind fun _ => (Contained.reader _).bind fun _ => .pure _

end Truncate

end

/-! ## Calls -/

/-- The calls that a result stands for; a failure stands for none. -/
def called {α : Type} (routines : α → List Routine) :
    EStateM.Result Failure CompilerState α → List Routine
  | .ok a _ => routines a
  | .error _ _ => []

/-- A computation that keeps the scopes of every state and notes the calls of its result. -/
def Notes {α : Type} (routines : α → List Routine) (x : Compiler α) : Prop :=
  ∀ s, (endState (x s)).outer = s.outer ∧ (endState (x s)).calls = s.calls ++ called routines (x s)

namespace Notes

variable {α β : Type} {routines : α → List Routine}

theorem pure {a : α} (h : routines a = []) : Notes routines (Pure.pure a) :=
  fun s => ⟨rfl, (congrArg (s.calls ++ ·) h).trans (List.append_nil _) |>.symm⟩

theorem reject (e : Error) : Notes routines (DataChange.reject e : Compiler α) :=
  fun _ => ⟨rfl, (List.append_nil _).symm⟩

/-- Before a computation that notes calls there may be steps that note none. -/
theorem after {x : Compiler β} {f : β → Compiler α} (hx : Contained x)
    (hf : ∀ b, Notes routines (f b)) : Notes routines (x >>= f) := by
  intro s
  have hs := hx s
  show (endState (EStateM.bind x f s)).outer = _ ∧ (endState (EStateM.bind x f s)).calls =
    _ ++ called routines (EStateM.bind x f s)
  unfold EStateM.bind
  split
  · next b t h =>
    rw [h] at hs
    obtain ⟨houter, hcalls⟩ := hf b t
    exact ⟨houter.trans hs.outer, hcalls.trans (congrArg (· ++ _) hs.calls)⟩
  · next e t h =>
    rw [h] at hs
    exact ⟨hs.outer, by simpa [called, endState] using hs.calls⟩

/-- A result that is part of another one. -/
theorem wrap {x : Compiler α} {g : α → β} {routines' : β → List Routine} (hx : Notes routines x)
    (hg : ∀ a, routines' (g a) = routines a) : Notes routines' (do return g (← x)) := by
  intro s
  obtain ⟨houter, hcalls⟩ := hx s
  show (endState (EStateM.bind x _ s)).outer = _ ∧ (endState (EStateM.bind x _ s)).calls =
    _ ++ called routines' (EStateM.bind x _ s)
  unfold EStateM.bind
  split
  · next a t h =>
    rw [h] at houter hcalls
    exact ⟨houter, hcalls.trans (congrArg (s.calls ++ ·) (hg a).symm)⟩
  · next e t h =>
    rw [h] at houter hcalls
    exact ⟨houter, hcalls⟩

end Notes

/-- The routine that a CALL calls. -/
def CallStatement.routines (c : CallStatement) : List Routine :=
  match c.target with
  | .routine r _ => [r]
  | .expression _ => []

/-- The routine that a statement calls, if it is a CALL of one. -/
def Statement.routines : Statement → List Routine
  | .call c => c.routines
  | _ => []

section

variable {env : Environment}

namespace Call

theorem reword_contained {α : Type} {x : Compiler α} (f : Error → Error) (hx : Contained x) :
    Contained (reword f x) := by
  intro s
  have hs := hx s
  unfold reword
  split
  · next h =>
    rw [h] at hs
    exact hs
  · exact hs

theorem bindArguments_contained (routine : Routine) (scope : Scope) (position : Nat)
    (arguments : List Expr) (parameters : List RoutineParameter) :
    Contained (bindArguments env routine scope position arguments parameters) := by
  induction arguments generalizing position parameters with
  | nil => exact .pure _
  | cons argument arguments ih =>
    cases parameters with
    | nil => exact .pure _
    | cons parameter parameters =>
      exact (Expr.resolve_contained _ _).bind fun _ => (Contained.except _).bind fun _ =>
        (ih _ _).bind fun _ => .pure _

/-- The routine is noted once nothing can fail any more. -/
theorem compileRoutine_notes (name : QualifiedName) (fragment : Fragment)
    (routines : List Routine) :
    Notes CallStatement.routines (compileRoutine env name fragment routines) := by
  refine .after (.parser _) fun arguments => ?_
  split
  · exact .reject _
  · exact .after .outerGroups fun _ => .after (bindArguments_contained _ _ _ _ _) fun _ =>
      fun _ => ⟨rfl, rfl⟩

theorem compileExpression_notes : Notes CallStatement.routines (compileExpression env) :=
  .after (.parser _) fun _ => .after .outerGroups fun _ =>
    .after (reword_contained _ (Expr.resolve_contained _ _)) fun _ => .pure rfl

theorem compile_notes : Notes CallStatement.routines (Call.compile env) := by
  refine .after (.reader _) fun _ => .after .get fun start => .after (.reader _) fun name => ?_
  have hexpression : Notes CallStatement.routines (do
      modify fun s => { s with cursor := start.cursor }
      compileExpression env : Compiler CallStatement) :=
    .after (fun _ => ⟨rfl, rfl, Nat.le_refl _⟩) fun _ => compileExpression_notes
  dsimp only
  split
  · exact compileRoutine_notes _ _ _
  · split
    · split
      · exact .reject _
      · exact .after .get fun _ => .reject _
    · exact hexpression

end Call

namespace Statement

theorem compileHead_notes : Notes routines (compileHead env) := by
  refine .after .get fun s => ?_
  dsimp only
  split
  · exact .reject _
  · split
    · exact .after Insert.compile_contained fun _ => .pure rfl
    · exact .after Update.compile_contained fun _ => .pure rfl
    · exact .after Delete.compile_contained fun _ => .pure rfl
    · exact .after Merge.compile_contained fun _ => .pure rfl
    · exact .after Truncate.compile_contained fun _ => .pure rfl
    · exact Call.compile_notes.wrap fun _ => rfl
    · split
      · exact .after Insert.compile_contained fun _ => .pure rfl
      · exact .reject _
    · exact .reject _

theorem compileHead_calls {s t : CompilerState} {statement : Statement}
    (h : compileHead env s = .ok statement t) :
    t.outer = s.outer ∧ t.calls = s.calls ++ statement.routines := by
  have hs := @compileHead_notes env s
  rwa [h] at hs

theorem compileHead_failed {s t : CompilerState} {e : Failure}
    (h : compileHead env s = .error e t) : t.outer = s.outer ∧ t.calls = s.calls := by
  obtain ⟨houter, hcalls⟩ := @compileHead_notes env s
  rw [h] at houter hcalls
  exact ⟨houter, hcalls.trans (List.append_nil _)⟩

end Statement

end

/-! ## Texts -/

namespace Statement

/-- A statement has ended: there is nothing more, or just a semicolon. -/
def Ended (c : Cursor) : Prop :=
  c.rest = [] ∨ ∃ x, x.kind = .symbol .semicolon ∧ c.rest = [x]

theorem ended_iff {c : Cursor} : Ended c ↔ ∃ c', Reader.finish c = .ok () c' := by
  refine ⟨?_, fun ⟨c', h⟩ => Reader.finish_ok h⟩
  obtain ⟨past, rest⟩ := c
  rintro (h | ⟨x, hx, h⟩)
  · obtain rfl : rest = [] := h
    exact ⟨_, rfl⟩
  · obtain rfl : rest = [x] := h
    refine ⟨⟨x :: past, []⟩, bind_ok.2 ⟨some x, ⟨x :: past, []⟩, ?_, rfl⟩⟩
    show (if x.kind = .symbol .semicolon then _ else _ : Reader (Option Token)) _ = _
    rw [if_pos hx]
    rfl

/-- What can become of a text: it has no tokens, the compiler of its statement fails, or this succeeds
and the text has ended or not. -/
inductive Outcome (env : Environment) (text : String) (s : CompilerState) :
    EStateM.Result Failure CompilerState Statement → Prop
  | unreadable {e : Error} (htokens : tokenize text = .error e) :
      Outcome env text s (.error (.rejected e) s)
  | failed {tokens : List Token} {e : Failure} {u : CompilerState}
      (htokens : tokenize text = .ok tokens)
      (h : compileHead env { s with cursor := .ofTokens tokens } = .error e u) :
      Outcome env text s (.error e { u with cursor := s.cursor })
  | overrun {tokens : List Token} {statement : Statement} {u : CompilerState} {e : Error}
      (htokens : tokenize text = .ok tokens)
      (h : compileHead env { s with cursor := .ofTokens tokens } = .ok statement u)
      (hend : ¬ Ended u.cursor) :
      Outcome env text s (.error (.rejected e) { u with cursor := s.cursor })
  | compiled {tokens : List Token} {statement : Statement} {u : CompilerState}
      (htokens : tokenize text = .ok tokens)
      (h : compileHead env { s with cursor := .ofTokens tokens } = .ok statement u)
      (hend : Ended u.cursor) : Outcome env text s (.ok statement { u with cursor := s.cursor })

theorem compile_outcome (env : Environment) (text : String) (s : CompilerState) :
    Outcome env text s (compile env text s) := by
  cases htokens : tokenize text with
  | error e =>
    have hcompile : compile env text s = .error (.rejected e) s := by
      rw [compile, htokens]
      rfl
    exact hcompile ▸ .unreadable htokens
  | ok tokens =>
    rw [compile_of_tokenize htokens]
    simp only [compileTokens, Compiler.onTokens, bind, EStateM.bind]
    cases hhead : compileHead env { s with cursor := .ofTokens tokens } with
    | error e u => exact .failed htokens hhead
    | ok statement u =>
      cases hfinish : Reader.finish u.cursor with
      -- only the end of the tokens is left to check, which changes the cursor alone
      | ok _ c =>
        have hlift : (liftM Reader.finish : Compiler Unit) u = .ok () { u with cursor := c } :=
          lift_reader_compiler_ok.2 ⟨c, hfinish, rfl⟩
        simp only [hlift]
        exact .compiled (u := u) htokens hhead (ended_iff.2 ⟨c, hfinish⟩)
      | error e c =>
        have hlift : (liftM Reader.finish : Compiler Unit) u =
            .error (.rejected e) { u with cursor := c } :=
          lift_parser_fail (lift_reader_fail hfinish)
        simp only [hlift]
        refine .overrun htokens hhead fun hended => ?_
        obtain ⟨c', hc'⟩ := ended_iff.1 hended
        cases hfinish.symm.trans hc'

/-- A text goes on after a statement that calls a routine. -/
def Overruns (env : Environment) (text : String) (s : CompilerState) (r : Routine) : Prop :=
  ∃ tokens arguments tables u, tokenize text = .ok tokens ∧
    compileHead env { s with cursor := .ofTokens tokens } =
      .ok (.call ⟨.routine r arguments, tables⟩) u ∧ ¬ Ended u.cursor

theorem mem_routines {statement : Statement} {r : Routine} (h : r ∈ statement.routines) :
    ∃ arguments tables, statement = .call ⟨.routine r arguments, tables⟩ := by
  cases statement with
  | call c =>
    obtain ⟨target, tables⟩ := c
    cases target with
    | routine r' arguments => exact ⟨arguments, tables, by rw [List.mem_singleton.1 h]⟩
    | expression e => cases h
  | _ => cases h

theorem calls_of_compiled {env : Environment} {text : String} {s t : CompilerState}
    {statement : Statement} (h : compile env text s = .ok statement t) :
    t.outer = s.outer ∧ t.calls = s.calls ++ statement.routines := by
  have houtcome := compile_outcome env text s
  rw [h] at houtcome
  cases houtcome with
  | compiled _ hhead =>
    obtain ⟨houter, hcalls⟩ := compileHead_calls hhead
    exact ⟨houter, hcalls⟩

theorem calls_of_overruns {env : Environment} {text : String} {s : CompilerState} {r : Routine}
    (h : Overruns env text s r) :
    ∃ e t, compile env text s = .error e t ∧ t.calls = s.calls ++ [r] := by
  obtain ⟨tokens, arguments, tables, u, htokens, hhead, hend⟩ := h
  have houtcome := compile_outcome env text s
  generalize compile env text s = result at houtcome
  cases houtcome with
  | unreadable htokens' => cases htokens.symm.trans htokens'
  | failed htokens' hhead' =>
    cases htokens.symm.trans htokens'
    cases hhead.symm.trans hhead'
  | overrun htokens' hhead' =>
    cases htokens.symm.trans htokens'
    cases hhead.symm.trans hhead'
    exact ⟨_, _, rfl, (compileHead_calls hhead).2⟩
  | compiled htokens' hhead' hend' =>
    cases htokens.symm.trans htokens'
    cases hhead.symm.trans hhead'
    exact (hend hend').elim

/-- A text that does not compile has left no call, or it goes on after one. -/
theorem calls_of_failed {env : Environment} {text : String} {s t : CompilerState} {e : Failure}
    (h : compile env text s = .error e t) :
    t.outer = s.outer ∧ (t.calls = s.calls ∨ ∃ r, Overruns env text s r) := by
  have houtcome := compile_outcome env text s
  rw [h] at houtcome
  cases houtcome with
  | unreadable _ => exact ⟨rfl, .inl rfl⟩
  | failed _ hhead =>
    obtain ⟨houter, hcalls⟩ := compileHead_failed hhead
    exact ⟨houter, .inl hcalls⟩
  | @overrun tokens statement u e htokens hhead hend =>
    obtain ⟨houter, hcalls⟩ := compileHead_calls hhead
    refine ⟨houter, ?_⟩
    cases hroutines : statement.routines with
    | nil => exact .inl (by rw [hcalls, hroutines, List.append_nil])
    | cons r rs =>
      obtain ⟨arguments, tables, rfl⟩ := mem_routines (hroutines ▸ List.mem_cons_self)
      exact .inr ⟨r, tokens, arguments, tables, u, htokens, hhead, hend⟩

/-- A text that compiles notes the routine that it calls. A text that does not compile notes none,
unless it goes on after a call. The scopes are kept in any case. -/
theorem compile_calls (env : Environment) (text : String) (s : CompilerState) :
    (∀ statement t, compile env text s = .ok statement t →
      t.outer = s.outer ∧ t.calls = s.calls ++ statement.routines) ∧
    (∀ e t, compile env text s = .error e t →
      t.outer = s.outer ∧ (t.calls = s.calls ↔ ∀ r, ¬ Overruns env text s r)) ∧
    (∀ r, Overruns env text s r →
      ∃ e t, compile env text s = .error e t ∧ t.calls = s.calls ++ [r]) := by
  refine ⟨fun _ _ => calls_of_compiled, fun e t h => ?_, fun _ => calls_of_overruns⟩
  obtain ⟨houter, hcalls⟩ := calls_of_failed h
  refine ⟨houter, fun hkept r hr => ?_, fun hnone => ?_⟩
  · obtain ⟨e', t', h', hnoted⟩ := calls_of_overruns hr
    obtain ⟨-, rfl⟩ := EStateM.Result.error.inj (h.symm.trans h')
    have hempty : s.calls ++ [r] = s.calls := hnoted.symm.trans hkept
    simp at hempty
  · obtain hkept | ⟨r, hr⟩ := hcalls
    · exact hkept
    · exact (hnone r hr).elim

set_option maxRecDepth 10000 in
theorem compile_calls_once :
    ∃ statement t, compile .bank "CALL adjust(1, 2)" .initial = .ok statement t ∧
      t.outer = [] ∧ t.calls = statement.routines ∧ statement.routines.length = 1 := by
  obtain ⟨statement, t, hcompile, hcheck⟩ := exists_compile .bank "CALL adjust(1, 2)"
    (fun statement => statement.routines.length = 1) rfl (by decide +kernel)
  obtain ⟨houter, hcalls⟩ := (compile_calls .bank "CALL adjust(1, 2)" .initial).1 statement t hcompile
  exact ⟨statement, t, hcompile, houter, hcalls, of_decide_eq_true hcheck⟩

set_option maxRecDepth 10000 in
/-- A text that does not compile leaves a call. -/
theorem call_noted_in_vain :
    ∃ t, compile .bank "CALL adjust(1, 2) 3" .initial =
        .error (.rejected (.unexpected .endOfStatement (.written "3" 1 19))) t ∧
      CompilerState.initial.calls = [] ∧ t.calls.map (·.name) = ["adjust"] := by
  obtain ⟨t, hcompile⟩ := exists_failure .bank "CALL adjust(1, 2) 3"
    (.rejected (.unexpected .endOfStatement (.written "3" 1 19))) rfl (by decide +kernel)
  have hcalls : (endState (compile .bank "CALL adjust(1, 2) 3" .initial)).calls.map (·.name) =
      ["adjust"] := by
    rw [compile_eq_scanned .bank (rfl : "CALL adjust(1, 2) 3" = _)]
    decide +kernel
  rw [hcompile] at hcalls
  exact ⟨t, hcompile, rfl, hcalls⟩

end Statement

end DataChange
