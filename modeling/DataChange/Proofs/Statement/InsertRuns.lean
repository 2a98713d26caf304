import DataChange.Proofs.Statement.Runs
import DataChange.Statement.Call

/-!
# INSERT and CALL that compile

The steps of an INSERT or a CALL that compiles. The views on the way are followed before anything
after the target is read.
-/

namespace DataChange

variable {env : Environment} {s t : CompilerState}

namespace Insert

variable {target : ViewTarget} {map : ColumnMap} {overriding : Option Overriding}

/-! ## Sources -/

/-- Where inserted rows come from, and which identity column is overridden. -/
inductive ReadsSource (env : Environment) (target : ViewTarget) (map : ColumnMap)
    (overriding : Option Overriding) (s : CompilerState) :
    InsertSource → Option Nat → CompilerState → Prop
  | values {s₁ s₂ t : CompilerState} {rows rows₁ rows₂ : List Expr} {fragment : Fragment}
      {values : Expr}
      (hskip : (liftM (skipValues env.config.dialect.mysql) : Compiler Bool) s = .ok true s₁)
      (hrows : (liftM (Rows.read map.length) : Compiler _) s₁ = .ok (rows, fragment) s₂)
      (hresolve : (Expr.untyped (.values rows) fragment).resolve env (.outerOnly s₂.outer) s₂ =
        .ok values t)
      (hkind : values.kind = .values rows₁)
      (hinsert : List.Forall₂ (fun row row' => ColumnPolicy.insertRow target.relation.columns map
        (overriding.map (·.kind)) row t = .ok row' t) rows₁ rows₂)
      (hcheck : ColumnPolicy.checkOverriding target.relation.columns map overriding = .ok ()) :
      ReadsSource env target map overriding s (.values { values with kind := .values rows₂ }) none t
  | query {s₁ t : CompilerState} {expected : List SqlType} {queries : List QueryCall} {plan : Plan}
      {fragment : Fragment} {overridden : Option Nat}
      (hskip : (liftM (skipValues env.config.dialect.mysql) : Compiler Bool) s = .ok false s₁)
      (hexpected : map.ordinals.mapM (fun ordinal =>
        target.relation.columns[ordinal]?.map (·.type)) = some expected)
      (hplan : Query.compile env s₁.outer (some expected) { s₁ with queries := queries } =
        .ok plan t)
      (hlen : plan.columns.length = map.length)
      (hcolumns : ColumnPolicy.queryColumnsFrom target.relation.columns (overriding.map (·.kind))
        fragment none map.ordinals plan.columnTypes t = .ok overridden t)
      (hcheck : ColumnPolicy.checkOverriding target.relation.columns map overriding = .ok ()) :
      ReadsSource env target map overriding s (.query plan) overridden t

theorem insertRows_ok {columns : List Column} {rows rows' : List Expr}
    (h : ColumnPolicy.insertRows columns map overriding rows s = .ok rows' t) :
    t = s ∧ ColumnPolicy.checkOverriding columns map overriding = .ok () ∧
      List.Forall₂ (fun row row' => ColumnPolicy.insertRow columns map
        (overriding.map (·.kind)) row s = .ok row' s) rows rows' := by
  simp only [ColumnPolicy.insertRows, bind_ok, lift_except_ok] at h
  obtain ⟨_, _, ⟨hcheck, rfl⟩, h⟩ := h
  induction rows generalizing rows' with
  | nil =>
    obtain ⟨rfl, rfl⟩ := pure_ok.1 h
    exact ⟨rfl, hcheck, .nil⟩
  | cons row rows ih =>
    simp only [List.mapM_cons, bind_ok, pure_ok] at h
    obtain ⟨row', _, hrow, rows'', _, hrows, rfl, rfl⟩ := h
    obtain ⟨rfl, -⟩ := ColumnPolicy.insertRow_ok hrow
    obtain ⟨rfl, -, hall⟩ := ih hrows
    exact ⟨rfl, hcheck, .cons hrow hall⟩

theorem queryColumn_ok {column : Column} {ordinal : Nat} {kind : Option OverridingKind}
    {produced : SqlType} {fragment : Fragment} {found : Option Nat}
    (h : ColumnPolicy.queryColumn column ordinal kind produced fragment = .ok found) :
    column.type.assignableFrom produced = true ∨ column.isIdentity = true ∧ found.isSome = true := by
  unfold ColumnPolicy.queryColumn at h
  split at h
  · cases h
  · split at h
    · next hidentity =>
      cases h
      exact .inr ⟨(Bool.and_eq_true_iff.1 hidentity).1, rfl⟩
    · split at h
      · cases h
      · split at h
        · next haccepts => exact .inl haccepts
        · cases h

/-- The columns of an inserted query are accepted, unless the identity is overridden. -/
theorem queryColumnsFrom_ok {columns : List Column} {kind : Option OverridingKind}
    {fragment : Fragment} {overridden found : Option Nat} {ordinals : List Nat}
    {types : List SqlType}
    (h : ColumnPolicy.queryColumnsFrom columns kind fragment overridden ordinals types s =
      .ok found t) :
    t = s ∧ (overridden.isSome = true → found.isSome = true) ∧ ∀ x ∈ ordinals.zip types,
      ∃ column, columns[x.1]? = some column ∧ (column.type.assignableFrom x.2 = true ∨
        column.isIdentity = true ∧ found.isSome = true) := by
  induction ordinals generalizing types overridden s with
  | nil =>
    obtain ⟨rfl, rfl⟩ := pure_ok.1 h
    simp
  | cons ordinal ordinals ih =>
    cases types with
    | nil =>
      obtain ⟨rfl, rfl⟩ := pure_ok.1 h
      simp
    | cons type types =>
      simp only [ColumnPolicy.queryColumnsFrom, bind_ok, inRange_ok, lift_except_ok] at h
      obtain ⟨column, _, ⟨hcolumn, rfl⟩, mid, _, ⟨hmid, rfl⟩, h⟩ := h
      obtain ⟨rfl, hfound, hrest⟩ := ih h
      rw [Option.isSome_or, Bool.or_eq_true] at hfound
      refine ⟨rfl, fun ho => hfound (.inr ho), ?_⟩
      simp only [List.zip_cons_cons, List.mem_cons, forall_eq_or_imp]
      exact ⟨⟨column, hcolumn, (queryColumn_ok hmid).imp_right (And.imp_right fun h => hfound (.inl h))⟩,
        hrest⟩

theorem readSource_ok {mode : InsertMode} {source : InsertSource × Option Nat × InsertMode}
    (h : readSource env target map mode overriding s = .ok source t) :
    ReadsSource env target map overriding s source.1 source.2.1 t := by
  simp only [readSource, bind_ok] at h
  obtain ⟨found, s₁, hskip, h⟩ := h
  cases found with
  | true =>
    simp only [↓reduceIte, readRows, bind_ok, outerGroups_ok, pure_ok, Prod.exists] at h
    obtain ⟨source', u, ⟨rows, fragment, s₂, hrows, _, _, ⟨rfl, rfl⟩, values, s₃, hresolve, h⟩, rfl,
      rfl⟩ := h
    obtain ⟨m, hm, h⟩ := run_eq h
    split at hm
    · rename_i rows₁ hkind
      subst hm
      simp only [bind_ok, pure_ok] at h
      obtain ⟨rows₂, _, hinsert, rfl, rfl⟩ := h
      obtain ⟨rfl, hcheck, hall⟩ := insertRows_ok hinsert
      exact .values hskip hrows hresolve hkind hall hcheck
    · subst hm
      exact (reject_ok.1 h).elim
  | false =>
    simp only [Bool.false_eq_true, ↓reduceIte, bind_ok, get_ok] at h
    obtain ⟨_, _, ⟨rfl, rfl⟩, h⟩ := h
    split at h
    · simp only [readQuery, Compiler.noteQuery, bind_ok, outerGroups_ok, inRange_ok, get_ok,
        modify_ok, pure_ok, Prod.exists] at h
      obtain ⟨source', overridden, u, ⟨_, _, ⟨rfl, rfl⟩, expected, _, ⟨hexpected, rfl⟩, _, _,
        ⟨rfl, rfl⟩, _, _, rfl, plan, s₂, hplan, h⟩, rfl, rfl⟩ := h
      split at h
      · simp only [bind_ok, reject_ok, false_and, exists_false] at h
      · rename_i hlen
        simp only [ColumnPolicy.queryColumns, bind_ok, lift_except_ok, pure_ok,
          Prod.mk.injEq] at h
        obtain ⟨found, _, ⟨_, _, ⟨hcheck, rfl⟩, hcolumns⟩, ⟨rfl, rfl⟩, rfl⟩ := h
        obtain ⟨rfl, -⟩ := queryColumnsFrom_ok hcolumns
        exact .query hskip hexpected hplan (by simpa using hlen) hcolumns hcheck
    · simp only [bind_ok, get_ok, reject_ok, and_false, exists_false] at h

/-! ## Upserts -/

/-- The range of the proposed row, over the written relation or the one behind it. -/
def newRow (id : Nat) (shown : Range) (fragment : Fragment) : Range :=
  .fresh id newRowName shown.source shown.columns fragment

/-- A value of an upsert moved to the relation behind the written one, in both of its rows. -/
def movedUpsert (target : ViewTarget) (id : Nat) (e : Expr) : Option Expr := do
  let e ← target.moved e
  if target.isMoved then
    e.redirect id (newRow id target.range target.written.fragment) target.columnMap
  else some e

/-- The values of an upsert are resolved and then moved. -/
theorem upsertValues_ok {scope : Scope} {id : Nat} {values values₂ : List Expr}
    (h : values.mapM (resolveUpsert env target scope
      (newRow id target.range target.written.fragment)) s = .ok values₂ t) :
    ∃ values₁, values.mapM (fun value => value.resolve env scope) s = .ok values₁ t ∧
      List.Forall₂ (fun e e' => movedUpsert target id e = some e') values₁ values₂ := by
  refine mapM_bind_stays (fun e s e' t he => ?_) h
  simp only [bind_ok, ViewTarget.onBase_ok] at he
  obtain ⟨e₁, _, ⟨he₁, rfl⟩, he⟩ := he
  split at he
  · next hm =>
    obtain ⟨hr, rfl⟩ := inRange_ok.1 he
    refine ⟨?_, rfl⟩
    simp only [movedUpsert, he₁, hm, Option.bind_eq_bind, Option.bind_some, ↓reduceIte]
    exact hr
  · next hm =>
    obtain ⟨rfl, rfl⟩ := pure_ok.1 he
    exact ⟨by simp [movedUpsert, he₁, hm], rfl⟩

/-- The steps of the assignments of an upsert. -/
structure UpsertRun (env : Environment) (target : ViewTarget) (s : CompilerState) (a : Assignments)
    (t : CompilerState) where
  {s₁ s₂ s₃ s₄ s₅ : CompilerState}
  {duplicate key update : Token}
  {clause : SetClause}
  {values₁ values₂ : List Expr}
  on_ok : (liftM (Reader.skipKeyword .ON) : Compiler Bool) s = .ok true s₁
  duplicate_ok : (liftM (Reader.keyword .DUPLICATE) : Compiler Token) s₁ = .ok duplicate s₂
  key_ok : (liftM (Reader.keyword .KEY) : Compiler Token) s₂ = .ok key s₃
  update_ok : (liftM (Reader.keyword .UPDATE) : Compiler Token) s₃ = .ok update s₄
  clause_ok : (liftM (SetClause.read env.config.dialect.mysql target.written) : Compiler SetClause)
    s₄ = .ok clause s₅
  resolve_values : clause.values.mapM (fun value => value.resolve env
      ⟨[target.written, newRow s₅.nextRange target.written target.written.fragment], s₅.outer⟩)
    { s₅ with nextRange := s₅.nextRange + 1 } = .ok values₁ t
  moved_values : List.Forall₂ (fun e e' => movedUpsert target s₅.nextRange e = some e') values₁
    values₂
  assigned : target.assign clause.columnMap values₂ t = .ok a t

/-- An upsert that is there, or not. -/
inductive ReadsUpsert (env : Environment) (target : ViewTarget) (s : CompilerState) :
    Option Assignments → CompilerState → Prop
  | none : ReadsUpsert env target s none s
  | some {a : Assignments} {t : CompilerState} (run : UpsertRun env target s a t) :
      ReadsUpsert env target s (some a) t

theorem readUpsert?_ok {mode : InsertMode} {a : Option Assignments}
    (h : readUpsert? env target mode s = .ok a t) : ReadsUpsert env target s a t := by
  simp only [readUpsert?] at h
  split at h
  · simp only [bind_ok] at h
    obtain ⟨found, s₁, hon, h⟩ := h
    cases found with
    | false =>
      obtain ⟨rfl, rfl⟩ := pure_ok.1 h
      obtain ⟨c, hc, rfl⟩ := lift_reader_compiler_ok.1 hon
      obtain ⟨rfl, -⟩ := Reader.skipKeyword_false hc
      exact .none
    | true =>
      simp only [↓reduceIte, readUpsert, bind_ok, newRange_ok, outerGroups_ok, pure_ok] at h
      obtain ⟨duplicate, s₂, hduplicate, key, s₃, hkey, update, s₄, hupdate, a', _, ⟨clause, s₅,
        hclause, _, _, ⟨rfl, rfl⟩, _, _, ⟨rfl, rfl⟩, values₂, s₆, hvalues, hassign⟩, rfl, rfl⟩ := h
      obtain ⟨values₁, hvalues₁, hmoved⟩ := upsertValues_ok hvalues
      obtain ⟨-, rfl⟩ := ViewTarget.assign_ok hassign
      exact .some ⟨hon, hduplicate, hkey, hupdate, hclause, hvalues₁, hmoved, hassign⟩
  · obtain ⟨rfl, rfl⟩ := pure_ok.1 h
    exact .none

/-! ## Statements -/

/-- The steps of an INSERT that compiles, after its target. -/
inductive Completes (env : Environment) (written : Range) (target : ViewTarget)
    (s : CompilerState) (i : InsertStatement) (t : CompilerState) : Prop
  | defaults {s₁ : CompilerState} {values : Token}
      (hd : (liftM (Reader.skipKeyword .DEFAULT) : Compiler Bool) s = .ok true s₁)
      (hv : (liftM (Reader.keyword .VALUES) : Compiler Token) s₁ = .ok values t)
      (hs : i.source = .values (.untyped (.values [.untyped (.row []) written.fragment])
        written.fragment)) (hu : i.onDuplicate = none)
      (hm : (ColumnMap.all written.columns.length).project target.columnMap = some i.columnMap)
      (ho : i.overrideIndex = none)
  | rows {s₁ s₂ s₃ s₄ : CompilerState} {columns : ColumnMap} {overriding : Option Overriding}
      (hd : (liftM (Reader.skipKeyword .DEFAULT) : Compiler Bool) s = .ok false s₁)
      (hc : (liftM (readColumns env.config.dialect.oracle written) : Compiler ColumnMap) s₁ =
        .ok columns s₂)
      (hm : columns.project target.columnMap = some i.columnMap)
      (ho : (liftM Overriding.read? : Compiler _) s₂ = .ok overriding s₃)
      (hs : ReadsSource env target i.columnMap overriding s₃ i.source i.overrideIndex s₄)
      (hu : ReadsUpsert env target s₄ i.onDuplicate t)

/-- The steps of an INSERT that compiles. -/
structure Run (env : Environment) (s : CompilerState) (i : InsertStatement)
    (t : CompilerState) where
  {s₁ s₂ s₃ : CompilerState}
  {mode : InsertMode}
  {written : Range}
  {target : ViewTarget}
  mode_ok : (liftM (readMode env.config.dialect.mysql) : Compiler InsertMode) s = .ok mode s₁
  written_ok : Range.readTarget env .insert s₁ = .ok written s₂
  target_ok : ViewTarget.resolve env written .insert s₂ = .ok target s₃
  completes : Completes env written target s₃ i t
  relation : i.target = target.relation
  writes : i.writeTables = [i.target.qualifiedName]

theorem compile_ok {i : InsertStatement} (h : Insert.compile env s = .ok i t) :
    Nonempty (Run env s i t) := by
  simp only [Insert.compile, bind_ok] at h
  obtain ⟨mode, s₁, hmode, written, s₂, hwritten, target, s₃, htarget, found, s₄, hdefault, h⟩ := h
  obtain ⟨_, _, _, _, _, -, -, hw⟩ := ViewTarget.resolve_ok htarget
  have hw : target.written = written := by rw [hw]
  cases found with
  | true =>
    simp only [↓reduceIte, defaults, ViewTarget.project, ViewTarget.checkList, bind_ok, inRange_ok,
      pure_ok] at h
    obtain ⟨values, s₅, hvalues, map, _, ⟨hmap, rfl⟩, checks, _, ⟨-, rfl⟩, rfl, rfl⟩ := h
    rw [hw] at *
    exact ⟨⟨hmode, hwritten, htarget, .defaults hdefault hvalues rfl rfl hmap rfl, rfl, rfl⟩⟩
  | false =>
    simp only [Bool.false_eq_true, ↓reduceIte, ViewTarget.project, ViewTarget.checkList, bind_ok,
      inRange_ok, pure_ok, Prod.exists] at h
    obtain ⟨columns, s₅, hcolumns, map, _, ⟨hmap, rfl⟩, overriding, s₆, hover, source, overridden,
      mode', s₇, hsource, onDuplicate, s₈, hupsert, checks, _, ⟨-, rfl⟩, rfl, rfl⟩ := h
    exact ⟨⟨hmode, hwritten, htarget,
      .rows hdefault hcolumns hmap hover (readSource_ok hsource) (readUpsert?_ok hupsert), rfl,
      rfl⟩⟩

/-! ## The place of the target -/

theorem afterInto?_of_read {mysql : Bool} {c c' : Cursor} {mode mode' : InsertMode}
    (h : (if mysql = true then do
        let _ ← Reader.keyword? .INTO
        return mode
      else do
        let _ ← Reader.keyword .INTO
        return mode : Reader InsertMode) c = .ok mode' c') :
    afterInto? mysql c.rest = some c'.rest := by
  cases mysql with
  | true =>
    simp only [↓reduceIte, bind_ok, pure_ok] at h
    obtain ⟨found, _, hfound, -, rfl⟩ := h
    have hskip : Reader.skipKeyword .INTO c = .ok found.isSome _ := bind_ok.2 ⟨_, _, hfound, rfl⟩
    simp [afterInto?, skippingKeyword_of_skip hskip]
  | false =>
    simp only [Bool.false_eq_true, ↓reduceIte, bind_ok, pure_ok] at h
    obtain ⟨into, _, hinto, -, rfl⟩ := h
    obtain ⟨hkind, hrest⟩ := Reader.keyword_ok hinto
    simp [afterInto?, hrest, afterKeyword?_of_kind hkind]

/-- The target of an INSERT stands after its mode. -/
theorem targetTokens?_of_readMode {mysql : Bool} {c c' : Cursor} {mode : InsertMode}
    (h : readMode mysql c = .ok mode c') :
    targetTokens? mysql c.rest = some (.insert, c'.rest) := by
  simp only [readMode, bind_ok] at h
  obtain ⟨replace, d, hreplace, h⟩ := h
  cases replace with
  | true =>
    obtain ⟨x, hx, hrest⟩ := Reader.skipKeyword_true hreplace
    have hinto := afterInto?_of_read (by simpa only [↓reduceIte, pure_bind] using h)
    simp [targetTokens?, hrest, hx, hinto]
  | false =>
    obtain ⟨rfl, -⟩ := Reader.skipKeyword_false hreplace
    simp only [Bool.false_eq_true, ↓reduceIte, bind_ok] at h
    obtain ⟨x, e, hx, h⟩ := h
    obtain ⟨hkind, hrest⟩ := Reader.keyword_ok hx
    cases mysql with
    | true =>
      simp only [↓reduceIte, bind_ok] at h
      obtain ⟨ignore, f, hignore, h⟩ := h
      have hinto : afterInto? true f.rest = some c'.rest := by
        cases ignore <;>
          exact afterInto?_of_read
            (by simpa only [Bool.false_eq_true, ↓reduceIte, pure_bind, bind_ok] using h)
      simp [targetTokens?, hrest, hkind, skippingKeyword_of_skip hignore, hinto]
    | false =>
      have hinto : afterInto? false e.rest = some c'.rest :=
        afterInto?_of_read (by simpa only [Bool.false_eq_true, ↓reduceIte, pure_bind] using h)
      simp [targetTokens?, hrest, hkind, hinto]

theorem Run.targets {i : InsertStatement} (run : Run env s i t) :
    Targets env s.cursor.rest .insert run.written run.s₂.cursor.rest := by
  obtain ⟨c, hc, hs⟩ := lift_reader_compiler_ok.1 run.mode_ok
  exact .intro (by rw [targetTokens?_of_readMode hc, ← hs]) run.written_ok rfl

end Insert

/-! ## CALL -/

namespace Call

/-- The steps of a CALL that compiles. -/
inductive Runs (env : Environment) (s : CompilerState) : CallStatement → CompilerState → Prop
  | routine {s₁ s₂ s₃ s₄ : CompilerState} {call : Token} {name : QualifiedName × Fragment}
      {r : Routine} {arguments arguments' : List Expr}
      (hcall : (liftM (Reader.keyword .CALL) : Compiler Token) s = .ok call s₁)
      (hname : (liftM Reader.qualifiedName : Compiler _) s₁ = .ok name s₂)
      (hread : (liftM (readArguments env.config.dialect.oracle) : Compiler (List Expr)) s₂ =
        .ok arguments s₃)
      (hfound : (findRoutines env name.1).find? (fun r => r.arity = arguments.length) = some r)
      (hbind : bindArguments env r (.outerOnly s₃.outer) 1 arguments r.parameters s₃ =
        .ok arguments' s₄) :
      Runs env s ⟨.routine r arguments', []⟩ { s₄ with calls := s₄.calls ++ [r] }
  | expression {s₁ s₂ t : CompilerState} {call : Token} {e e' : Expr}
      (hcall : (liftM (Reader.keyword .CALL) : Compiler Token) s = .ok call s₁)
      (hparse : (liftM Expr.parse : Compiler Expr) s₁ = .ok e s₂)
      (hresolve : e.resolve env (.outerOnly s₂.outer) s₂ = .ok e' t) :
      Runs env s ⟨.expression e', []⟩ t

theorem Runs.writes {c : CallStatement} (h : Runs env s c t) : c.writeTables = [] := by
  cases h <;> rfl

/-- The arguments of a CALL are a list of expressions, or none. -/
theorem readArguments_ok {oracle : Bool} {arguments : List Expr} {r u : Reading}
    (h : readArguments oracle r = .ok arguments u) :
    arguments = [] ∨ ∃ v w, Expr.parseList v = .ok arguments w := by
  simp only [readArguments, bind_ok] at h
  obtain ⟨opened, _, -, h⟩ := h
  cases opened with
  | true =>
    simp only [↓reduceIte, bind_ok] at h
    obtain ⟨closed, v, -, h⟩ := h
    cases closed with
    | true => exact .inl (pure_ok.1 h).1.symm
    | false =>
      simp only [Bool.false_eq_true, ↓reduceIte, bind_ok, pure_ok] at h
      obtain ⟨_, w, hitems, _, _, -, rfl, -⟩ := h
      exact .inr ⟨v, w, hitems⟩
  | false =>
    simp only [Bool.false_eq_true, ↓reduceIte] at h
    split at h
    · exact .inl (pure_ok.1 h).1.symm
    · simp only [bind_ok, get_ok, reject_ok, and_false, exists_false] at h

theorem arity_of_found {routines : List Routine} {n : Nat} {r : Routine}
    (h : routines.find? (fun r => r.arity = n) = some r) : r.arity = n := by
  simpa using List.find?_some h

theorem reword_ok {α : Type} {f : Error → Error} {x : Compiler α} {a : α}
    (h : reword f x s = .ok a t) : x s = .ok a t := by
  unfold reword at h
  split at h
  · cases h
  · exact h

theorem compileExpression_ok {c : CallStatement} (h : compileExpression env s = .ok c t) :
    ∃ e s₁ e', (liftM Expr.parse : Compiler Expr) s = .ok e s₁ ∧
      e.resolve env (.outerOnly s₁.outer) s₁ = .ok e' t ∧ c = ⟨.expression e', []⟩ := by
  simp only [compileExpression, bind_ok, outerGroups_ok, pure_ok] at h
  obtain ⟨e, s₁, hparse, _, _, ⟨rfl, rfl⟩, e', _, hresolve, rfl, rfl⟩ := h
  exact ⟨e, s₁, e', hparse, reword_ok hresolve, rfl⟩

theorem compile_ok {c : CallStatement} (h : Call.compile env s = .ok c t) : Runs env s c t := by
  simp only [Call.compile, bind_ok, get_ok] at h
  obtain ⟨call, s₁, hcall, _, _, ⟨rfl, rfl⟩, name, s₂, hname, h⟩ := h
  obtain ⟨d, hd, rfl⟩ := lift_reader_compiler_ok.1 hname
  -- without a routine of the name the tokens are read again as an expression
  have hexpression : (do
        modify fun s => { s with cursor := s₁.cursor }
        compileExpression env : Compiler CallStatement) { s₁ with cursor := d } = .ok c t →
      Runs env s c t := by
    intro h
    simp only [bind_ok, modify_ok] at h
    obtain ⟨_, _, rfl, h⟩ := h
    obtain ⟨e, s₃, e', hparse, hresolve, rfl⟩ := compileExpression_ok h
    exact .expression hcall hparse hresolve
  cases name with
  | none =>
    dsimp only at h
    split at h
    · simp only [bind_ok, get_ok, reject_ok, and_false, exists_false] at h
    · exact hexpression h
  | some found =>
    obtain ⟨name, fragment⟩ := found
    simp only [Option.map_some, Option.getD_some] at h
    cases hroutines : findRoutines env name with
    | nil =>
      simp only [hroutines] at h
      -- a bracket behind the name makes the missing routine an error
      split at h
      · exact (reject_ok.1 h).elim
      · exact hexpression h
    | cons routine others =>
      simp only [hroutines, compileRoutine, bind_ok] at h
      obtain ⟨arguments, s₃, hread, h⟩ := h
      have hname' : Reader.qualifiedName s₁.cursor = .ok (name, fragment) d := by
        simp only [readName?, bind_ok, get_ok] at hd
        obtain ⟨_, _, ⟨rfl, rfl⟩, hd⟩ := hd
        split at hd
        · simp only [bind_ok, pure_ok, Option.some.injEq] at hd
          obtain ⟨_, _, hq, rfl, rfl⟩ := hd
          exact hq
        · simp [pure_ok] at hd
      cases hf : (routine :: others).find? fun r => r.arity = arguments.length with
      | none =>
        simp only [hf] at h
        exact (reject_ok.1 h).elim
      | some r =>
        simp only [hf, noteCall, bind_ok, outerGroups_ok, modify_ok, pure_ok] at h
        obtain ⟨_, _, ⟨rfl, rfl⟩, arguments', s₄, hbind, _, _, rfl, rfl, rfl⟩ := h
        rw [← hroutines] at hf
        exact .routine hcall (lift_reader_compiler_ok.2 ⟨d, hname', rfl⟩) hread hf hbind

end Call

end DataChange
