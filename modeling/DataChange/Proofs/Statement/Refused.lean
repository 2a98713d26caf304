import DataChange.Proofs.Target.Refused

/-!
# Statements that are refused

In a sound catalog a text that does not compile is refused with an error, whatever scopes are around
it: no ordinal is out of range, no number is negated that cannot be, and no view is followed for
ever. The one exception are texts that assign a row of several values to a single column
(`Statement.Spills`, `compile_answers`).
-/

namespace DataChange

variable {env : Environment} {s t : CompilerState}

/-- A statement whose assignments, at their place behind the target, give a row of several values to
a single column. -/
inductive Statement.Spills (env : Environment) (tokens : List Token) : Prop
  | intro {operation : Operation} {written : Range} {after : List Token}
      {groups : List (List Nat)} {clause : SetClause} {group : List Nat} {value : Expr}
      (htargets : Targets env tokens operation written after)
      (hclause : clause.ReadAt operation env.config.dialect.mysql written after groups)
      (hmem : (group, value) ∈ groups.zip clause.values)
      (hspills : SetClause.Spills group value) : Spills env tokens

/-- A clause of a statement that does not spill is assigned without running out of columns. -/
theorem ViewTarget.assign_clause_refuses {tokens after : List Token} {operation : Operation}
    {target : ViewTarget} {groups : List (List Nat)} {clause : SetClause} {values : List Expr}
    {u : CompilerState} (hspills : ¬ Statement.Spills env tokens)
    (htargets : Targets env tokens operation target.written after) (hsound : target.Sound)
    (hclause : clause.ReadAt operation env.config.dialect.mysql target.written after groups)
    (hvalues : List.Forall₂ Expr.SettledFrom clause.values values) :
    Refuses (target.assign clause.columnMap values) u :=
  assign_refuses hsound hclause.grouped
    (fun _ hp hspill => hspills (.intro htargets hclause hp hspill)) hvalues

theorem Range.readTarget_sized {operation : Operation} {written : Range}
    (h : readTarget env operation s = .ok written t) : written.Over env ∧ written.Sized := by
  obtain ⟨name, fragment, s₁, asName, s₂, relation, -, -, hrelation, rfl, -⟩ := readTarget_ok h
  exact ⟨over_ofRelation hrelation, sized_ofRelation _ _ _ _⟩

/-! ## UPDATE and DELETE -/

namespace Slice

variable {ranges : List Range} {outer : List RangeGroup}

theorem readBound_refuses : Refuses (readBound env outer) s := by
  simp [readBound]

theorem key_refuses (scope : Scope) : Refuses (SortKey.read env scope) s := by
  simp [SortKey.read]

theorem read?_refuses : Refuses (read? env ranges) s := by
  have hkeys : ∀ {scope : Scope} {s : CompilerState},
      Refuses (commaSeparated (SortKey.read env scope)) s :=
    refuses_compiledList fun _ => key_refuses _
  simp only [read?, refuses_bind, refuses_outerGroups, refuses_reader_compiler, true_and]
  intro outer t _ ordered u _
  cases ordered <;> simp [hkeys, readBound_refuses]

end Slice

theorem Update.compile_refuses (henv : env.Sound) (hspills : ¬ Statement.Spills env s.cursor.rest) :
    Refuses (Update.compile env) s := by
  simp only [Update.compile, refuses_bind, refuses_reader_compiler, refuses_parsing,
    SetClause.read_refuses, Range.readTarget_refuses, Query.readCondition_refuses,
    Slice.read?_refuses, refuses_outerGroups, refuses_pure, implies_true, and_true, true_and]
  intro update s₁ hupdate written s₂ hwritten set s₃ hset clause s₄ hclause condition s₅ _ slice s₆
    _ outer s₇ _
  refine ⟨refuses_mapM fun value _ _ => Expr.resolve_refuses _ value, fun values₁ s₈ hvalues => ?_⟩
  refine ⟨Query.resolveCondition?_refuses (Query.compileTokens_refuses env) _ _, ?_⟩
  intro condition₁ s₉ _
  obtain ⟨hknown, hsized⟩ := Range.readTarget_sized hwritten
  refine ⟨ViewTarget.resolve_refuses henv hknown hsized, fun target s₁₀ htarget => ?_⟩
  obtain ⟨hsound, rfl⟩ := ViewTarget.resolve_sound henv hknown hsized htarget
  refine ⟨refuses_mapM fun e _ _ => ViewTarget.onBase_refuses hsound e, ?_⟩
  intro values₂ s₁₁ hmoved
  refine ⟨ViewTarget.onBase?_refuses hsound _, fun condition₂ s₁₂ _ => ?_⟩
  refine ⟨ViewTarget.sliceOnBase_refuses hsound _, fun slice₁ s₁₃ _ => ?_⟩
  have htargets : Targets env s.cursor.rest .update target.written s₂.cursor.rest :=
    .intro (targetTokens?_of_update _ hupdate) hwritten rfl
  -- whether a value spills out of its group is decided by what was read from the text
  obtain ⟨hraw, -⟩ := Scans.lift hclause fun _ hr => SetClause.read_scans hr
  obtain ⟨groups, hread⟩ := SetClause.readAt_update hset hclause
  exact ViewTarget.assign_clause_refuses hspills htargets hsound hread <|
    ViewTarget.moved_settledFrom (Expr.mapM_settledFrom hraw hvalues)
      (ViewTarget.values_onBase_ok hmoved).1

theorem Delete.compile_refuses (henv : env.Sound) : Refuses (Delete.compile env) s := by
  simp only [Delete.compile, refuses_bind, refuses_reader_compiler, Range.readTarget_refuses,
    Query.readCondition_refuses, Slice.read?_refuses, refuses_outerGroups, refuses_pure,
    implies_true, and_true, true_and]
  intro _ _ _ _ _ _ written s₁ hwritten condition s₂ _ slice s₃ _ outer s₄ _
  refine ⟨Query.resolveCondition?_refuses (Query.compileTokens_refuses env) _ _, ?_⟩
  intro condition₁ s₅ _
  obtain ⟨hknown, hsized⟩ := Range.readTarget_sized hwritten
  refine ⟨ViewTarget.resolve_refuses henv hknown hsized, fun target s₆ htarget => ?_⟩
  obtain ⟨hsound, rfl⟩ := ViewTarget.resolve_sound henv hknown hsized htarget
  exact ⟨ViewTarget.onBase?_refuses hsound _, fun _ _ _ => ViewTarget.sliceOnBase_refuses hsound _⟩

/-! ## MERGE -/

namespace Merge

variable {target : ViewTarget} {scope : Scope}

section

variable {written : Range} {s : Reading}

@[simp] theorem readGuard_refuses : Refuses readGuard s := by
  simp [readGuard]

theorem readInsertRow_refuses (degree : Nat) : Refuses (readInsertRow degree) s := by
  simp only [readInsertRow, refuses_bind, Rows.read_refuses, true_and]
  rintro ⟨rows, fragment⟩ t -
  dsimp only
  split <;> simp

theorem readInsert_refuses (clause : Token) (branches : Branches) :
    Refuses (readInsert env written clause branches) s := by
  simp [readInsert, checkNew, readInsertRow_refuses]

theorem readMatched_refuses (clause : Token) (branches : Branches) :
    Refuses (readMatched env written clause branches) s := by
  simp [readMatched, checkNew]

theorem readBranchesWithin_refuses : ∀ (bound : Nat) (branches : Branches) (s : Reading),
    Refuses (readBranchesWithin env written bound branches) s
  | 0, _, _ => refuses_pure _
  | bound + 1, branches, s => by
    simp only [readBranchesWithin, refuses_bind, refuses_reader, true_and]
    intro clause t _
    cases clause with
    | none => exact refuses_pure _
    | some clause =>
      simp [readInsert_refuses, readMatched_refuses, readBranchesWithin_refuses bound]

@[simp] theorem readBranches_refuses : Refuses (readBranches env written) s := by
  simp [readBranches, readBranchesWithin_refuses]

end

@[simp] theorem readSource_refuses : Refuses (readSource env) s := by
  simp only [readSource, refuses_bind, refuses_reader_compiler, true_and]
  intro opening t _
  cases opening with
  | none => simp
  | some opening =>
    have hplan := Query.compileTokens_refuses env
    simp only [readDerived, refuses_bind, refuses_reader_compiler, refuses_outerGroups, hplan _ _ _,
      true_and]
    intro body u _ outer v _ plan w _ asName x _
    cases asName <;> simp

theorem resolveGuard_refuses (guard : Option Expr) : Refuses (resolveGuard env scope guard) s := by
  cases guard with
  | none => exact refuses_pure _
  | some guard => exact Expr.resolveCondition_refuses scope guard

theorem ifPresent_refuses {α β : Type} {step : α → Compiler β} {a : Option α}
    (h : ∀ x ∈ a, ∀ s, Refuses (step x) s) : Refuses (ifPresent step a) s := by
  cases a with
  | none => exact refuses_pure none
  | some a => simp [ifPresent, h a rfl]

theorem resolveInsert_refuses (hsound : target.Sound) {branch : InsertBranch}
    (hmap : branch.columnMap.Within target.written) :
    Refuses (resolveInsert env target scope branch) s := by
  simp only [resolveInsert, refuses_bind, resolveGuard_refuses, Expr.resolve_refuses, refuses_pure,
    implies_true, and_true, true_and]
  intro guard s₁ _ row s₂ _
  refine ⟨ViewTarget.project_refuses hsound hmap, fun map s₃ hproject => ?_⟩
  have hwithin := ViewTarget.project_within hsound hproject
  exact ⟨ColumnPolicy.insertRow_refuses hwithin _ _,
    fun _ _ _ => ViewTarget.checkList_refuses hwithin⟩

theorem resolveDelete_refuses (hsound : target.Sound) (guard : Option Expr) :
    Refuses (resolveDelete env target scope guard) s := by
  simp [resolveDelete, resolveGuard_refuses, ViewTarget.onBase_refuses hsound]

/-- The updating branch of a statement that does not spill. -/
theorem resolveUpdate_refuses {tokens after : List Token} {groups : List (List Nat)}
    {branch : UpdateBranch} (hspills : ¬ Statement.Spills env tokens)
    (htargets : Targets env tokens .merge target.written after) (hsound : target.Sound)
    (hclause : branch.clause.ReadAt .merge env.config.dialect.mysql target.written after groups)
    (hraw : ∀ e ∈ branch.clause.values, e.Raw) :
    Refuses (resolveUpdate env target scope branch) s := by
  simp only [resolveUpdate, refuses_bind, resolveGuard_refuses, refuses_pure, implies_true,
    and_true, true_and]
  intro guard u₁ _
  refine ⟨refuses_mapM fun value _ _ => ?_, fun values u₂ hvalues => ⟨?_, fun _ _ _ => ?_⟩⟩
  · simp [ViewTarget.onBase_refuses hsound]
  · obtain ⟨values₁, hvalues₁, hmoved⟩ := movedValues_ok hvalues
    exact ViewTarget.assign_clause_refuses hspills htargets hsound hclause <|
      ViewTarget.moved_settledFrom (Expr.mapM_settledFrom hraw hvalues₁) hmoved
  · exact ViewTarget.onBase_refuses hsound guard

theorem compile_refuses (henv : env.Sound) (hspills : ¬ Statement.Spills env s.cursor.rest) :
    Refuses (Merge.compile env) s := by
  simp only [Merge.compile, refuses_bind, refuses_reader_compiler, refuses_parsing, refuses_except,
    Expr.parse_refuses, readSource_refuses, readBranches_refuses, Expr.resolveCondition_refuses,
    Range.readTarget_refuses, refuses_outerGroups, lift_except_ok, outerGroups_ok, refuses_pure,
    implies_true, and_true, true_and]
  rintro merge s₁ hmerge into s₂ hinto written s₃ hwritten usingWord s₄ husing source s₅ hsource
    onWord s₆ honWord on s₇ hon ranges _ ⟨-, rfl⟩ outer _ ⟨-, rfl⟩ on₁ s₈ hresolve branches s₉
    hbranches
  obtain ⟨hknown, hsized⟩ := Range.readTarget_sized hwritten
  refine ⟨ViewTarget.resolve_refuses henv hknown hsized, fun target s₁₀ htarget => ?_⟩
  obtain ⟨hsound, rfl⟩ := ViewTarget.resolve_sound henv hknown hsized htarget
  obtain ⟨r, hr, -⟩ := lift_parser_ok.1 hbranches
  obtain ⟨segments, hscan⟩ := readBranches_scans hr
  have htargets : Targets env s.cursor.rest .merge target.written s₃.cursor.rest :=
    .intro (targetTokens?_of_merge _ hmerge hinto) hwritten rfl
  have hread := (readBranches_written hr).mono <|
    condition_suffix husing (readSource_ok hsource) honWord hon hresolve
  refine ⟨ifPresent_refuses fun branch hb _ => ?_, fun _ _ _ =>
    ⟨ifPresent_refuses fun guard _ _ => resolveDelete_refuses hsound guard, fun _ _ _ =>
      ⟨ifPresent_refuses fun branch hb _ => ?_, fun _ _ _ => ViewTarget.onBase_refuses hsound on₁⟩⟩⟩
  · obtain ⟨groups, hclause⟩ := hread.update branch hb
    have hraw : ∀ e ∈ branch.clause.values, e.Raw :=
      fun e he => hscan.raw e (by simp [Branches.updating, Option.mem_def.1 hb, he])
    exact resolveUpdate_refuses hspills htargets hsound hclause hraw
  · obtain ⟨_, hlisting⟩ := (hread.insert branch hb).2.listing
    exact resolveInsert_refuses hsound hlisting.within

end Merge

/-! ## INSERT -/

namespace Insert

variable {target : ViewTarget}

theorem defaults_refuses (hsound : target.Sound) (mode : InsertMode) :
    Refuses (defaults mode target) s := by
  simp only [defaults, refuses_bind, refuses_pure, implies_true, and_true]
  refine ⟨ViewTarget.project_refuses hsound (ColumnMap.all_within _), fun map t hmap => ?_⟩
  exact ViewTarget.checkList_refuses (ViewTarget.project_within hsound hmap)

section

variable {map : ColumnMap}
  (hmap : ∀ ordinal ∈ map.ordinals, ordinal < target.relation.columns.length)
include hmap

theorem readRows_refuses (overriding : Option Overriding) :
    Refuses (readRows env target map overriding) s := by
  simp only [readRows, refuses_bind, refuses_parsing, Rows.read_refuses, refuses_outerGroups,
    Expr.resolve_refuses, true_and]
  rintro ⟨rows, fragment⟩ s₁ - outer s₂ - values s₃ -
  split
  · simp [ColumnPolicy.insertRows_refuses hmap]
  · exact refuses_reject _

theorem readQuery_refuses (overriding : Option Overriding) :
    Refuses (readQuery env target map overriding) s := by
  have hexpected : (map.ordinals.mapM fun ordinal =>
      target.relation.columns[ordinal]?.map (·.type)).isSome = true :=
    isSome_mapM fun ordinal ho => by simpa using hmap ordinal ho
  simp [readQuery, hexpected, ColumnPolicy.queryColumns_refuses hmap]

theorem readSource_refuses (mode : InsertMode) (overriding : Option Overriding) :
    Refuses (readSource env target map mode overriding) s := by
  simp [readSource, readRows_refuses hmap, readQuery_refuses hmap]

end

theorem resolveUpsert_refuses (hsound : target.Sound) (scope : Scope) (id : Nat) (value : Expr) :
    Refuses (resolveUpsert env target scope (newRow id target.range target.written.fragment) value)
      s := by
  have hredirect : ∀ e : Expr, (e.redirect id (newRow id target.range target.written.fragment)
      target.columnMap).isSome = true :=
    Expr.redirect_isSome (fun c hc => hsound.sized ▸ hsound.within c hc) id
  have hid : (newRow id target.range target.written.fragment).id = id := rfl
  simp [resolveUpsert, ViewTarget.onBase_refuses hsound, hid, hredirect]

/-- The assignments of an upsert that does not spill. -/
theorem readUpsert?_refuses {tokens after : List Token} {mode : InsertMode}
    (hspills : ¬ Statement.Spills env tokens)
    (htargets : Targets env tokens .insert target.written after) (hsound : target.Sound)
    (hafter : s.cursor.rest <:+ after) : Refuses (readUpsert? env target mode) s := by
  simp only [readUpsert?, readUpsert, refuses_ite, refuses_bind, refuses_reader_compiler,
    refuses_parsing, SetClause.read_refuses, refuses_newRange, refuses_outerGroups, newRange_ok,
    outerGroups_ok, refuses_pure, implies_true, and_true, true_and]
  rintro - found s₁ hon ⟨⟩ duplicate s₂ hduplicate key s₃ hkey update s₄ hupdate clause s₅ hclause
    id _ ⟨rfl, rfl⟩ outer _ ⟨-, rfl⟩
  refine ⟨refuses_mapM fun value _ _ => resolveUpsert_refuses hsound _ _ value, ?_⟩
  intro values s₆ hvalues
  obtain ⟨hraw, -⟩ := Scans.lift hclause fun _ hr => SetClause.read_scans hr
  obtain ⟨groups, hread⟩ := SetClause.readAt_upsert hon hduplicate hkey hupdate hclause
  obtain ⟨values₁, hvalues₁, hmoved⟩ := upsertValues_ok hvalues
  exact ViewTarget.assign_clause_refuses hspills htargets hsound (hread.mono (by decide) hafter) <|
    forall₂_comp (Expr.mapM_settledFrom hraw hvalues₁) hmoved
      fun _ _ _ _ hs hm => movedUpsert_settledFrom hs hm

theorem compile_refuses (henv : env.Sound) (hspills : ¬ Statement.Spills env s.cursor.rest) :
    Refuses (Insert.compile env) s := by
  simp only [Insert.compile, refuses_bind, refuses_reader_compiler, Range.readTarget_refuses,
    true_and]
  intro mode s₁ hmode written s₂ hwritten
  obtain ⟨hknown, hsized⟩ := Range.readTarget_sized hwritten
  refine ⟨ViewTarget.resolve_refuses henv hknown hsized, fun target s₃ htarget => ?_⟩
  obtain ⟨hsound, rfl⟩ := ViewTarget.resolve_sound henv hknown hsized htarget
  intro found s₄ hdefault
  cases found with
  | true => simp [defaults_refuses hsound]
  | false =>
    simp only [Bool.false_eq_true, ↓reduceIte, refuses_bind, refuses_reader_compiler, refuses_pure,
      implies_true, and_true, true_and]
    intro columns s₅ hcolumns
    obtain ⟨c, hc, -⟩ := lift_reader_compiler_ok.1 hcolumns
    refine ⟨ViewTarget.project_refuses hsound (readColumns_listing hc).within, fun map s₆ hproject => ?_⟩
    have hmap := ViewTarget.project_within hsound hproject
    intro overriding s₇ hoverriding
    refine ⟨readSource_refuses hmap _ _, ?_⟩
    rintro ⟨source, overridden, mode'⟩ s₈ hsource
    refine ⟨?_, fun _ _ _ => ViewTarget.checkList_refuses hmap⟩
    obtain ⟨d, hd, hs⟩ := lift_reader_compiler_ok.1 hmode
    have htargets : Targets env s.cursor.rest .insert target.written s₂.cursor.rest :=
      .intro (by rw [targetTokens?_of_readMode hd, ← hs]) hwritten rfl
    refine readUpsert?_refuses hspills htargets hsound ?_
    -- the list of an upsert stands in the tokens that are left after the source
    obtain ⟨layers, h₂, -⟩ := ViewTarget.resolve_descends htarget
    obtain ⟨ys, h₃⟩ : ∃ ys, Scan false _ _ ys [] [] := Scan.skipKeyword hdefault rfl
    obtain ⟨zs, h₄⟩ := Cursor.Passes.scan_ok hcolumns fun _ _ hc => readColumns_passes hc
    obtain ⟨-, rfl⟩ := inRange_ok.1 hproject
    obtain ⟨us, h₅⟩ := Cursor.Passes.scan_ok hoverriding fun _ _ hc => Overriding.read?_passes hc
    obtain ⟨-, vs, h₆⟩ := readSource_inOrder (readSource_ok hsource)
    rw [← h₂.resolves.cursor]
    exact List.IsSuffix.trans ⟨vs, h₆.rest.symm⟩ ((h₃.trans h₄).trans h₅).suffix

end Insert

/-! ## TRUNCATE and CALL -/

theorem Truncate.compile_refuses : Refuses (Truncate.compile env) s := by
  have htable : ∀ {s : CompilerState}, Refuses (readTable env) s := by
    intro s
    simp only [readTable, refuses_bind, Range.readTarget_refuses, true_and]
    intro range t _
    split <;> simp
  have hschema : ∀ {s : CompilerState}, Refuses (readSchema env) s := by
    intro s
    simp only [readSchema, refuses_bind, refuses_reader_compiler, true_and]
    intro x t _
    split <;> simp
  simp [Truncate.compile, readTarget, htable, hschema]

namespace Call

theorem readArguments_refuses (oracle : Bool) {s : Reading} : Refuses (readArguments oracle) s := by
  simp [readArguments]

theorem bindArguments_refuses (routine : Routine) (scope : Scope) :
    ∀ (arguments : List Expr) (parameters : List RoutineParameter) (position : Nat)
      (s : CompilerState), Refuses (bindArguments env routine scope position arguments parameters) s
  | [], _, _, _ => refuses_pure _
  | _ :: _, [], _, _ => refuses_pure _
  | argument :: arguments, parameter :: parameters, position, s => by
    simp [bindArguments, bindArguments_refuses routine scope arguments parameters]

theorem reword_refuses {α : Type} {f : Error → Error} {x : Compiler α} (h : Refuses x s) :
    Refuses (reword f x) s := by
  intro failure t hfailure
  unfold reword at hfailure
  split at hfailure
  · cases hfailure
    exact ⟨_, rfl⟩
  · exact h failure t hfailure

theorem compile_refuses : Refuses (Call.compile env) s := by
  have hroutine : ∀ {name : QualifiedName} {fragment : Fragment} {routines : List Routine}
      {s : CompilerState}, Refuses (compileRoutine env name fragment routines) s := by
    intro name fragment routines s
    simp only [compileRoutine, refuses_bind, refuses_parsing, readArguments_refuses, true_and]
    intro arguments t _
    split
    · exact refuses_reject _
    · simp [bindArguments_refuses, noteCall]
  have hexpression : ∀ {s : CompilerState}, Refuses (compileExpression env) s := by
    simp [compileExpression, reword_refuses]
  simp only [Call.compile, refuses_bind, refuses_reader_compiler, refuses_get, true_and]
  intro call s₁ _ state s₂ _ name s₃ _
  split
  · exact hroutine
  · split
    · split <;> simp
    · simp [hexpression]

end Call

/-! ## Statements -/

namespace Statement

theorem compileHead_refuses (henv : env.Sound) (hspills : ¬ Spills env s.cursor.rest) :
    Refuses (compileHead env) s := by
  simp only [compileHead, refuses_bind, refuses_get, get_ok, true_and]
  rintro _ _ ⟨rfl, rfl⟩
  split
  · exact refuses_reject _
  · split <;>
      simp [Insert.compile_refuses henv hspills, Update.compile_refuses henv hspills,
        Delete.compile_refuses henv, Merge.compile_refuses henv hspills, Truncate.compile_refuses,
        Call.compile_refuses]

theorem compileTokens_refuses (henv : env.Sound) {tokens : List Token}
    (hspills : ¬ Spills env tokens) : Refuses (compileTokens env tokens) s := by
  simp only [compileTokens, refuses_onTokens, refuses_bind, refuses_reader_compiler, refuses_pure,
    compileHead_refuses (s := { s with cursor := .ofTokens tokens }) henv hspills, implies_true,
    and_self]

theorem compile_refuses {text : String} (henv : env.Sound)
    (hspills : ¬ ∃ tokens, tokenize text = .ok tokens ∧ Spills env tokens) :
    Refuses (compile env text) s := by
  simp only [compile, refuses_bind, refuses_except, lift_except_ok, true_and]
  rintro tokens _ ⟨htokens, rfl⟩
  exact compileTokens_refuses henv fun h => hspills ⟨tokens, htokens, h⟩

/-- In a sound catalog every text compiles or is refused with an error, within any scopes, unless it
assigns a row of several values to a single column. -/
theorem compile_answers (henv : env.Sound) (text : String) (s : CompilerState) :
    (∃ statement t, compile env text s = .ok statement t) ∨
      (∃ e t, compile env text s = .error (.rejected e) t) ∨
      ∃ tokens, tokenize text = .ok tokens ∧ Spills env tokens := by
  by_cases hspills : ∃ tokens, tokenize text = .ok tokens ∧ Spills env tokens
  · exact .inr (.inr hspills)
  · cases hcompile : compile env text s with
    | ok statement t => exact .inl ⟨statement, t, rfl⟩
    | error failure t =>
      obtain ⟨e, rfl⟩ := compile_refuses henv hspills failure t hcompile
      exact .inr (.inl ⟨e, t, rfl⟩)

/-- A row of two values for one column. -/
def rowForColumn : String :=
  "UPDATE t SET b = 1, a = (2, 3)"

set_option maxRecDepth 10000 in
theorem rowForColumn_spills :
    Environment.bank.Sound ∧ (∃ t, compile .bank rowForColumn .initial = .error .outOfRange t) ∧
      ∃ tokens, tokenize rowForColumn = .ok tokens ∧ Spills .bank tokens := by
  obtain ⟨t, hcompile⟩ := exists_failure .bank rowForColumn .outOfRange rfl (by decide +kernel)
  refine ⟨Environment.bank_sound, ⟨t, hcompile⟩, ?_⟩
  rcases compile_answers Environment.bank_sound rowForColumn .initial with
    ⟨_, _, h⟩ | ⟨_, _, h⟩ | hspills
  · cases hcompile.symm.trans h
  · cases hcompile.symm.trans h
  · exact hspills

end Statement

end DataChange
