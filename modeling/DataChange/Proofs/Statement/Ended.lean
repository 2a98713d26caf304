import DataChange.Proofs.Statement.Recursion
import DataChange.Proofs.Statement.Refused
import DataChange.Proofs.View.Recursion

/-!
# Compiling comes to an end

Where views come to an end, every token list is compiled: it gives a statement or an error, or an
ordinal is found to be out of range (`Halts`). `Statement.Terminates` gathers why there is an end:
the recursions of the compiler and its loops, each with its step and with what it takes from the
tokens.
-/

namespace DataChange

/-! ## Steps -/

section

variable {σ α β : Type} {s : σ}

/-- A computation that from a state does not find the views leading in a circle. -/
def Halts (x : EStateM Failure σ α) (s : σ) : Prop :=
  ∀ t, x s ≠ .error .viewCycle t

theorem Refuses.halts {x : EStateM Failure σ α} (h : Refuses x s) : Halts x s := by
  intro t hx
  obtain ⟨e, he⟩ := h _ _ hx
  cases he

@[simp] theorem halts_pure (a : α) : Halts (pure a : EStateM Failure σ α) s :=
  (refuses_pure a).halts

@[simp] theorem halts_reject (e : Error) : Halts (reject e : EStateM Failure σ α) s :=
  (refuses_reject e).halts

@[simp] theorem halts_inRange (x : Option α) : Halts (inRange x : EStateM Failure σ α) s := by
  intro t h
  cases x <;> cases h

@[simp] theorem halts_outOfRange : Halts (throw .outOfRange : EStateM Failure σ α) s := by
  intro t h
  cases h

@[simp] theorem halts_bind {x : EStateM Failure σ α} {f : α → EStateM Failure σ β} :
    Halts (x >>= f) s ↔ Halts x s ∧ ∀ a t, x s = .ok a t → Halts (f a) t := by
  show (∀ t, EStateM.bind x f s ≠ .error .viewCycle t) ↔ _
  unfold EStateM.bind Halts
  cases x s with
  | ok a t => simp
  | error e t => simp

@[simp] theorem halts_map {x : EStateM Failure σ α} {g : α → β} :
    Halts (g <$> x) s ↔ Halts x s := by
  rw [← bind_pure_comp, halts_bind]
  simp

theorem halts_mapM {f : α → EStateM Failure σ β} (h : ∀ a s, Halts (f a) s) :
    ∀ (as : List α) {s : σ}, Halts (as.mapM f) s
  | [], _ => by simp
  | a :: as, _ => by simp [h, halts_mapM h as]

@[simp] theorem halts_except {x : Except Error α} {s : CompilerState} :
    Halts (liftM x : Compiler α) s :=
  refuses_except.halts

@[simp] theorem halts_reader {x : Reader α} {s : CompilerState} : Halts (liftM x : Compiler α) s :=
  refuses_reader_compiler.halts

@[simp] theorem halts_get {s : CompilerState} : Halts (get : Compiler CompilerState) s :=
  refuses_get.halts

@[simp] theorem halts_newRange {s : CompilerState} : Halts Compiler.newRange s :=
  refuses_newRange.halts

@[simp] theorem halts_outerGroups {s : CompilerState} : Halts Compiler.outerGroups s :=
  refuses_outerGroups.halts

@[simp] theorem halts_noteQuery {outer : List RangeGroup} {expected : Option (List SqlType)}
    {s : CompilerState} : Halts (Compiler.noteQuery outer expected) s :=
  refuses_noteQuery.halts

theorem halts_onTokens {x : Compiler α} {tokens : List Token} {s : CompilerState} :
    Halts (Compiler.onTokens tokens x) s ↔ Halts x { s with cursor := .ofTokens tokens } := by
  unfold Halts Compiler.onTokens
  cases x { s with cursor := .ofTokens tokens } <;> simp

end

variable {env : Environment} {s : CompilerState}

/-! ## What a statement writes -/

namespace ColumnPolicy

variable {columns : List Column}

theorem insertCells_halts {overriding : Option OverridingKind} :
    ∀ (cells : List Expr) (ordinals : List Nat) (s : CompilerState),
      Halts (insertCells columns overriding cells ordinals) s
  | [], _, _ => by simp [insertCells]
  | _ :: _, [], _ => by simp [insertCells]
  | _ :: cells, _ :: ordinals, _ => by
    simp [insertCells, insertCells_halts cells ordinals]

@[simp] theorem insertRow_halts {columnMap : ColumnMap} {overriding : Option OverridingKind}
    {row : Expr} : Halts (insertRow columns columnMap overriding row) s := by
  unfold insertRow
  split <;> simp [insertCells_halts]

@[simp] theorem insertRows_halts {columnMap : ColumnMap} {overriding : Option Overriding}
    {rows : List Expr} : Halts (insertRows columns columnMap overriding rows) s := by
  simp [insertRows, halts_mapM]

theorem queryColumnsFrom_halts {overriding : Option OverridingKind} {fragment : Fragment} :
    ∀ (ordinals : List Nat) (types : List SqlType) (overridden : Option Nat) (s : CompilerState),
      Halts (queryColumnsFrom columns overriding fragment overridden ordinals types) s
  | [], _, _, _ => by simp [queryColumnsFrom]
  | _ :: _, [], _, _ => by simp [queryColumnsFrom]
  | _ :: ordinals, _ :: types, _, _ => by
    simp [queryColumnsFrom, queryColumnsFrom_halts ordinals types]

@[simp] theorem queryColumns_halts {columnMap : ColumnMap} {produced : List SqlType}
    {overriding : Option Overriding} {fragment : Fragment} :
    Halts (queryColumns columns columnMap produced overriding fragment) s := by
  simp [queryColumns, queryColumnsFrom_halts]

@[simp] theorem nextSlot_halts (slots : List Nat) : Halts (nextSlot columns slots) s := by
  cases slots <;> simp [nextSlot]

theorem updateItems_halts : ∀ (items : List Expr) (slots : List Nat) (s : CompilerState),
    Halts (updateItems columns items slots) s
  | [], _, _ => by simp [updateItems]
  | _ :: items, slots, _ => by simp [updateItems, updateItems_halts items]

theorem updateProducedList_halts {fragment : Fragment} :
    ∀ (types : List SqlType) (slots : List Nat) (s : CompilerState),
      Halts (updateProducedList columns fragment types slots) s
  | [], _, _ => by simp [updateProducedList]
  | _ :: types, slots, _ => by simp [updateProducedList, updateProducedList_halts types]

theorem updateValue_halts (value : Expr) (slots : List Nat) :
    Halts (updateValue columns value slots) s := by
  unfold updateValue
  split <;> simp [updateItems_halts, updateProducedList_halts]

theorem updateValuesFrom_halts : ∀ (values : List Expr) (slots : List Nat) (s : CompilerState),
    Halts (updateValuesFrom columns values slots) s
  | [], _, _ => by simp [updateValuesFrom]
  | value :: values, slots, _ => by
    simp [updateValuesFrom, updateValue_halts, updateValuesFrom_halts values]

end ColumnPolicy

namespace ViewTarget

variable {operation : Operation} {target : ViewTarget}

@[simp] theorem onBase_halts (e : Expr) : Halts (target.onBase e) s := by
  unfold onBase
  split <;> simp

@[simp] theorem onBase?_halts (e : Option Expr) : Halts (target.onBase? e) s := by
  cases e <;> simp [onBase?]

@[simp] theorem sliceOnBase_halts (slice : Option Slice) : Halts (target.sliceOnBase slice) s := by
  cases slice <;> simp [sliceOnBase, halts_mapM]

@[simp] theorem assign_halts (map : ColumnMap) (values : List Expr) :
    Halts (target.assign map values) s := by
  simp [assign, project, checkList, ColumnPolicy.updateValues, ColumnPolicy.updateValuesFrom_halts]

/-! ## Following views -/

theorem descend_halts (view : View) (state : Descent) :
    Halts (descend env operation view state) s := by
  unfold descend
  split
  · exact halts_reject _
  · cases state.filter <;>
      simp [(Range.ofNew_refuses _ _ _).halts, (resolveFilter_refuses _ _).halts]

/-- A bound above the number of views that are still to be passed is not reached. -/
theorem followWithin_halts (h : env.ViewsEnd operation) :
    ∀ (bound : Nat) (state : Descent) (s : CompilerState), toPass env operation state < bound →
      Halts (followWithin env operation bound state) s
  | 0, _, _, hlt => absurd hlt (Nat.not_lt_zero _)
  | bound + 1, state, s, hlt => by
    simp only [followWithin]
    cases hview : viewToPass? operation state.range with
    | none => exact halts_pure state
    | some view =>
      refine halts_bind.2 ⟨descend_halts view state, fun state' t hd => ?_⟩
      exact followWithin_halts h bound state' t
        (Nat.lt_of_lt_of_le (descend_toPass h hview hd) (Nat.le_of_lt_succ hlt))

theorem resolve_halts (h : env.ViewsEnd operation) (written : Range) :
    Halts (resolve env written operation) s := by
  rw [resolve_eq]
  refine halts_bind.2 ⟨followWithin_halts h _ _ _ (toPass_le h _), fun state t _ => ?_⟩
  dsimp only
  split <;> simp

end ViewTarget

/-! ## What is read and resolved -/

section

variable {scope : Scope} {range : Range}

theorem readTarget_halts {operation : Operation} : Halts (Range.readTarget env operation) s :=
  (Range.readTarget_refuses env operation).halts

theorem readClause_halts {mysql : Bool} :
    Halts (liftM (SetClause.read mysql range) : Compiler SetClause) s :=
  (refuses_parsing.2 (SetClause.read_refuses mysql range)).halts

theorem readCondition_halts : Halts Query.readCondition s :=
  Query.readCondition_refuses.halts

theorem readSlice_halts {ranges : List Range} : Halts (Slice.read? env ranges) s :=
  Slice.read?_refuses.halts

theorem expr_halts {e : Expr} : Halts (e.resolve env scope) s :=
  (Expr.resolve_refuses scope e).halts

theorem condition_halts {e : Expr} : Halts (e.resolveCondition env scope) s :=
  (Expr.resolveCondition_refuses scope e).halts

theorem condition?_halts {e : Option Expr} :
    Halts (Query.resolveCondition? (Query.compileTokens env) scope e) s :=
  (Query.resolveCondition?_refuses (Query.compileTokens_refuses env) scope e).halts

end

/-! ## INSERT -/

namespace Insert

variable {target : ViewTarget} {map : ColumnMap}

theorem readRows_halts {overriding : Option Overriding} :
    Halts (readRows env target map overriding) s := by
  simp only [readRows, halts_bind, (refuses_parsing.2 (Rows.read_refuses _)).halts,
    halts_outerGroups, expr_halts, true_and]
  intro rows s₁ _ outer s₂ _ values s₃ _
  split <;> simp

theorem readQuery_halts {overriding : Option Overriding} :
    Halts (readQuery env target map overriding) s := by
  simp only [readQuery, halts_bind, halts_outerGroups, halts_inRange, halts_get, halts_noteQuery,
    Query.compile_refuses.halts, true_and]
  intro outer s₁ _ expected s₂ _ state s₃ _ _ s₄ _ plan s₅ _
  split <;> simp

theorem readSource_halts {mode : InsertMode} {overriding : Option Overriding} :
    Halts (readSource env target map mode overriding) s := by
  simp only [readSource, halts_bind, halts_reader, true_and]
  intro found s₁ _
  split
  · simp [readRows_halts]
  · simp only [halts_bind, halts_get, true_and]
    intro state s₂ _
    split <;> simp [readQuery_halts]

theorem resolveUpsert_halts {scope : Scope} {newRow : Range} {value : Expr} :
    Halts (resolveUpsert env target scope newRow value) s := by
  simp only [resolveUpsert, halts_bind, expr_halts, ViewTarget.onBase_halts, true_and]
  intro value₁ s₁ _ value₂ s₂ _
  split <;> simp

theorem readUpsert?_halts {mode : InsertMode} : Halts (readUpsert? env target mode) s := by
  have hupsert : ∀ s, Halts (readUpsert env target) s := fun s => by
    simp only [readUpsert, halts_bind, readClause_halts, halts_newRange, halts_outerGroups,
      halts_mapM fun _ _ => resolveUpsert_halts, ViewTarget.assign_halts, implies_true, and_self]
  unfold readUpsert?
  split
  · simp only [halts_bind, halts_reader, true_and]
    intro found s₁ _
    split <;> simp [hupsert]
  · exact halts_pure none

theorem compile_halts (h : env.ViewsEnd .insert) : Halts (Insert.compile env) s := by
  simp only [Insert.compile, halts_bind, halts_reader, readTarget_halts, ViewTarget.resolve_halts h,
    true_and]
  intro mode s₁ _ written s₂ _ target s₃ _ found s₄ _
  split
  · simp [defaults, ViewTarget.project, ViewTarget.checkList]
  · simp [ViewTarget.project, ViewTarget.checkList, readSource_halts, readUpsert?_halts]

end Insert

/-! ## UPDATE and DELETE -/

theorem Update.compile_halts (h : env.ViewsEnd .update) : Halts (Update.compile env) s := by
  simp only [Update.compile, halts_bind, halts_reader, halts_outerGroups, halts_pure,
    readTarget_halts, readClause_halts, readCondition_halts, readSlice_halts, condition?_halts,
    ViewTarget.resolve_halts h, ViewTarget.onBase?_halts, ViewTarget.sliceOnBase_halts,
    ViewTarget.assign_halts, halts_mapM fun _ _ => expr_halts,
    halts_mapM fun _ _ => ViewTarget.onBase_halts _, implies_true, and_self]

theorem Delete.compile_halts (h : env.ViewsEnd .delete) : Halts (Delete.compile env) s := by
  simp only [Delete.compile, halts_bind, halts_reader, halts_outerGroups, halts_pure,
    readTarget_halts, readCondition_halts, readSlice_halts, condition?_halts,
    ViewTarget.resolve_halts h, ViewTarget.onBase?_halts, ViewTarget.sliceOnBase_halts,
    implies_true, and_self]

/-! ## MERGE -/

namespace Merge

variable {target : ViewTarget} {scope : Scope}

theorem ifPresent_halts {α β : Type} {step : α → Compiler β} (h : ∀ a s, Halts (step a) s)
    (a : Option α) : Halts (ifPresent step a) s := by
  cases a <;> simp [ifPresent, h]

theorem resolveGuard_halts {guard : Option Expr} : Halts (resolveGuard env scope guard) s :=
  (resolveGuard_refuses guard).halts

theorem resolveUpdate_halts {branch : UpdateBranch} :
    Halts (resolveUpdate env target scope branch) s := by
  have hvalue : ∀ value s, Halts (do
      let value ← Expr.resolve env scope value
      target.onBase value) s := fun value s => by
    simp only [halts_bind, expr_halts, ViewTarget.onBase_halts, implies_true, and_self]
  simp only [resolveUpdate, halts_bind, resolveGuard_halts, halts_mapM hvalue,
    ViewTarget.assign_halts, ViewTarget.onBase_halts, halts_pure, implies_true, and_self]

theorem resolveDelete_halts {guard : Option Expr} :
    Halts (resolveDelete env target scope guard) s := by
  simp only [resolveDelete, halts_bind, resolveGuard_halts, ViewTarget.onBase_halts, implies_true,
    and_self]

theorem resolveInsert_halts {branch : InsertBranch} :
    Halts (resolveInsert env target scope branch) s := by
  simp only [resolveInsert, halts_bind, resolveGuard_halts, expr_halts, ViewTarget.project,
    ViewTarget.checkList, halts_inRange, ColumnPolicy.insertRow_halts, halts_pure, implies_true,
    and_self]

theorem compile_halts (h : env.ViewsEnd .merge) : Halts (Merge.compile env) s := by
  simp only [Merge.compile, halts_bind, halts_reader, halts_except, halts_outerGroups, halts_pure,
    readTarget_halts, readSource_refuses.halts, (refuses_parsing.2 Expr.parse_refuses).halts,
    condition_halts, (refuses_parsing.2 readBranches_refuses).halts, ViewTarget.resolve_halts h,
    ifPresent_halts fun _ _ => resolveUpdate_halts, ifPresent_halts fun _ _ => resolveDelete_halts,
    ifPresent_halts fun _ _ => resolveInsert_halts, ViewTarget.onBase_halts, implies_true, and_self]

end Merge

/-! ## Statements -/

namespace Statement

section

variable (hviews : ∀ operation, operation ≠ .truncate → env.ViewsEnd operation)
include hviews

theorem compileHead_halts : Halts (compileHead env) s := by
  simp only [compileHead, halts_bind, halts_get, true_and]
  intro state s₁ _
  split
  · exact halts_reject _
  · split
    case h_1 => simp [Insert.compile_halts (hviews .insert (by decide))]
    case h_2 => simp [Update.compile_halts (hviews .update (by decide))]
    case h_3 => simp [Delete.compile_halts (hviews .delete (by decide))]
    case h_4 => simp [Merge.compile_halts (hviews .merge (by decide))]
    case h_5 => simp [Truncate.compile_refuses.halts]
    case h_6 => simp [Call.compile_refuses.halts]
    case h_7 =>
      split
      · simp [Insert.compile_halts (hviews .insert (by decide))]
      · exact halts_reject _
    case h_8 => exact halts_reject _

theorem compileTokens_halts (tokens : List Token) : Halts (compileTokens env tokens) s := by
  simp only [compileTokens, halts_onTokens, halts_bind, halts_reader, halts_pure,
    compileHead_halts hviews, implies_true, and_self]

end

/-- Why compiling within an environment comes to an end. -/
structure Terminates (env : Environment) : Prop where
  /-- Every token list gives a statement or an error, or the compiler panics. -/
  ends : ∀ tokens s, (∃ statement t, compileTokens env tokens s = .ok statement t) ∨
    (∃ e t, compileTokens env tokens s = .error (.rejected e) t) ∨
    ∃ t, compileTokens env tokens s = .error .outOfRange t
  /-- In a sound catalog a panic takes a row of several values for a single column. -/
  inRange : env.Sound → ∀ tokens s t, compileTokens env tokens s = .error .outOfRange t →
    Spills env tokens
  /-- An expression takes a token at least, and its subqueries are shorter than the tokens that it
  is read from. -/
  takes : ∀ level s e t, Expr.parseAt level s = .ok e t →
    t.toCome < s.toCome ∧ ∀ body ∈ e.bodies, body.length < s.toCome
  /-- The subqueries of a SET clause are shorter than its tokens, -/
  assigned : ∀ mysql range s clause t, SetClause.read mysql range s = .ok clause t →
    ∀ body ∈ Expr.bodiesOf clause.values, body.length < s.toCome
  /-- and a query between brackets is shorter than the tokens behind the opening one. -/
  derived : ∀ c body d, Reader.parenthesised c = .ok body d → body.length < c.toCome
  text : ComesTo tokensStep tokensFrom fun _ cs => cs.length + 1
  expressions : ComesTo Expr.parseStep Expr.parseAt fun _ s => s.toCome + 1
  operators : ∀ level, ComesTo (Expr.operatorStep Expr.parseAt level) (Expr.operators level)
    fun _ s => s.toCome + 1
  lists : ListsEnd env
  branches : ∀ target, ComesTo (Merge.branchStep env target) (Merge.branchLoop env target)
    fun _ s => s.toCome + 1
  /-- Queries within queries, compiled from the tokens of their own. -/
  queries : ComesTo (Query.compileStep env) (fun site => Query.compile env site.1 site.2)
    fun _ s => s.toCome + 1
  /-- Views, each with the filter that is compiled on the way. -/
  views : ∀ operation, operation ≠ .truncate →
    ComesTo (ViewTarget.followStep env operation) (ViewTarget.follow env operation)
      fun _ _ => env.catalog.views.byId.entries.length + 2

/-- Where from every view the way down its bases has an end, compiling has one: an answer, which is a
statement or an error, or a panic. An ordinal that is out of range is the panic, and no answer. -/
theorem compilation_terminates
    (hviews : ∀ operation, operation ≠ .truncate → env.ViewsEnd operation) : Terminates env where
  ends tokens s := by
    have hhalts := compileTokens_halts hviews (s := s) tokens
    cases h : compileTokens env tokens s with
    | ok statement t => exact .inl ⟨statement, t, rfl⟩
    | error failure t =>
      cases failure with
      | rejected e => exact .inr (.inl ⟨e, t, rfl⟩)
      | outOfRange => exact .inr (.inr ⟨t, rfl⟩)
      | viewCycle => exact absurd h (hhalts t)
  inRange henv tokens s t h := by
    by_contra hspills
    obtain ⟨e, he⟩ := compileTokens_refuses henv hspills _ t h
    cases he
  takes level s e t h := by
    have hreads := Expr.parseAt_reads level s e t h
    refine ⟨hreads.toCome_lt, fun body hbody => ?_⟩
    exact Nat.lt_of_lt_of_le (hreads.consumes.shorter body hbody) (Nat.sub_le _ _)
  assigned mysql range s clause t h body hbody := by
    obtain ⟨-, xs, hscan⟩ := SetClause.read_scans h
    exact Nat.lt_of_lt_of_le (hscan.consumes.shorter body hbody) (Nat.sub_le _ _)
  derived c body d h := by
    obtain ⟨close, -, hrest, -⟩ := splitClosing_eq (Reader.parenthesised_ok h)
    simp [Cursor.toCome, hrest]
  text := tokensFrom_comesTo
  expressions := Expr.parseAt_comesTo
  operators := Expr.operators_comesTo
  lists := lists_end env
  branches := Merge.branches_comesTo env
  queries := Query.compile_comesTo env
  views operation hoperation := ViewTarget.follow_comesTo (hviews operation hoperation)

theorem compilation_terminates_bank :
    (∀ operation, operation ≠ .truncate → Environment.bank.ViewsEnd operation) ∧
      Terminates .bank :=
  ⟨Environment.bank_viewsEnd, compilation_terminates Environment.bank_viewsEnd⟩

end Statement

end DataChange
