import DataChange.Proofs.Spelling.Joined
import DataChange.Statement.Merge

/-!
# Respelled changes of rows

INSERT, UPDATE, DELETE and MERGE. Spellings of such a statement name the same relation and pass the
same views, and what is compiled is the same in the common spelling.
-/

namespace DataChange

variable {P : Likeness} {Q : Places} {env : Environment}

/-! ## Targets -/

/-- A text is the filter of a view that is passed on the way from the relation with a name. -/
def Environment.Filters (env : Environment) (operation : Operation) (name : QualifiedName)
    (text : String) : Prop :=
  ∃ r, env.catalog.Names (name.schemaOr env.config.defaultSchema) name.name r ∧
    env.catalog.Filters operation r text

/-- The filters of the views that the statement made of some tokens passes have their places in
`P`. -/
def FiltersFrom (P : Likeness) (env : Environment) (tokens : List Token) : Prop :=
  ∀ operation name text, writtenName? env.config.dialect.mysql tokens = some (operation, name) →
    env.Filters operation name text → P.Holds text

namespace Range

theorem checkAccepts_concur {r r' : Range} (h : r.Respelled P r') (operation : Operation) :
    Concur P (fun _ _ => True) (r.checkAccepts operation) (r'.checkAccepts operation) := by
  have hf := h.fragment
  obtain ⟨-, -, hsource, -, -, -⟩ := h
  cases hsource with
  | relation r =>
    cases r with
    | table => exact .ok trivial
    | view v =>
      unfold checkAccepts
      dsimp only
      split
      · exact .ok trivial
      · exact .error hf
  | derived | routineVariables => exact .ok trivial

theorem readTarget_tracks (env : Environment) (operation : Operation) :
    Tracks (.states P) (Range.Respelled P) (readTarget env operation)
      (readTarget env operation) := by
  refine (Tracks.lift_tokens Reader.qualifiedName_tracks).bind fun (name, f) (name', f') hn => ?_
  have hrange : ∀ asName asName', SameName? P asName asName' →
      Tracks (.states P) (Range.Respelled P)
        (do
          let range ← named env name asName f
          range.checkAccepts operation
          return range)
        (do
          let range ← named env name' asName' f'
          range.checkAccepts operation
          return range) :=
    fun _ _ hname => (named_tracks env hn hname).bind fun _ _ hrange =>
      (Tracks.except (checkAccepts_concur hrange operation)).bind fun _ _ _ => .pure hrange
  cases operation with
  | insert | truncate => exact hrange none none rfl
  | update | delete | merge => exact (Tracks.lift_tokens Reader.asName?_tracks).bind hrange

variable {operation : Operation} {s s' : CompilerState}

/-- The range of a target, on whose way the filters have their places in `P`. -/
theorem readTarget_ends (hs : s.Respelled P s') {tokens : List Token}
    (htokens : targetTokens? env.config.dialect.mysql tokens = some (operation, s.cursor.rest))
    (hfilters : FiltersFrom P env tokens) :
    (Tracking.states P).Ends (fun r r' => r.Respelled P r' ∧ r.FiltersIn P env operation)
      (readTarget env operation s) (readTarget env operation s') := by
  have hread := readTarget_tracks env operation hs
  generalize hr : readTarget env operation s = r at hread
  generalize readTarget env operation s' = r' at hread
  cases hread with
  | error he => exact .error he
  | ok hrange ht =>
    obtain ⟨name, r, hname, hnames, hsource⟩ := readTarget_leading hr
    refine .ok ⟨hrange, fun r' text hr' hfilter => ?_⟩ ht
    obtain rfl : r = r' := RangeSource.relation.inj (hsource.symm.trans hr')
    exact hfilters operation name text (writtenName?_eq htokens hname) ⟨r, hnames, hfilter⟩

end Range

/-! ## Parts of statements -/

theorem Assignments.Respelled.foldCase_eq {a a' : Assignments} (h : a.Respelled Q.likeness a') :
    a.foldCase = a'.foldCase := by
  simp only [Assignments.foldCase, h.columnMap, h.checkList, Expr.Respelled.map_foldCase h.values]

theorem Slice.Respelled.foldCase_eq {s s' : Slice} (h : s.Respelled Q.likeness s') :
    s.foldCase = s'.foldCase := by
  have hkey (k k' : SortKey) (hk : k.Respelled Q.likeness k') : k.foldCase = k'.foldCase := by
    simp only [SortKey.foldCase, hk.key.foldCase_eq, hk.descending]
  have horder : s.orderBy.map SortKey.foldCase = s'.orderBy.map SortKey.foldCase := by
    rw [← List.forall₂_eq_eq_eq, List.forall₂_map_left_iff, List.forall₂_map_right_iff]
    exact h.orderBy.imp hkey
  simp only [Slice.foldCase, horder, h.limit.foldCase_eq, Expr.Respelled.map_foldCase? h.offset]

theorem map_eq_of_rel {α β : Type} {R : α → α → Prop} {f : α → β} {a b : Option α}
    (h : Option.Rel R a b) (hf : ∀ a b, R a b → f a = f b) : a.map f = b.map f := by
  cases h with
  | none => rfl
  | some h => exact congrArg some (hf _ _ h)

/-! ## INSERT -/

/-- Two spellings of where the rows come from. -/
inductive InsertSource.Respelled (P : Likeness) : InsertSource → InsertSource → Prop
  | values {rows rows' : Expr} (h : rows.Respelled P rows') :
      InsertSource.Respelled P (.values rows) (.values rows')
  | query {plan plan' : Plan} (h : plan.Respelled P plan') :
      InsertSource.Respelled P (.query plan) (.query plan')

theorem InsertSource.Respelled.foldCase_eq {s s' : InsertSource} (h : s.Respelled Q.likeness s') :
    s.foldCase = s'.foldCase := by
  cases h with
  | values h => exact congrArg InsertSource.values h.foldCase_eq
  | query h => exact congrArg InsertSource.query h.foldCase_eq

/-- Two spellings of where the rows come from, with the same further data. -/
def InsertSource.RespelledWith {α : Type} (P : Likeness) (r r' : InsertSource × α) : Prop :=
  r.1.Respelled P r'.1 ∧ r'.2 = r.2

namespace Insert

variable {target target' : ViewTarget} {overriding overriding' : Option Overriding}

theorem readMode_tracks (mysql : Bool) :
    Tracks (.cursors P) (· = ·) (readMode mysql) (readMode mysql) := by
  have hinto : ∀ mode : InsertMode, Tracks (.cursors P) (· = ·)
      (if mysql = true then do
        let _ ← Reader.keyword? .INTO
        return mode
      else do
        let _ ← Reader.keyword .INTO
        return mode : Reader InsertMode)
      (if mysql = true then do
        let _ ← Reader.keyword? .INTO
        return mode
      else do
        let _ ← Reader.keyword .INTO
        return mode) :=
    fun _ => .ite Iff.rfl ((Reader.keyword?_tracks _).bind fun _ _ _ => .pure rfl)
      ((Reader.keyword_tracks _).bind fun _ _ _ => .pure rfl)
  refine (Reader.skipKeyword_tracks _).whether (hinto _) ?_
  refine (Reader.keyword_tracks _).bind fun _ _ _ => .ite Iff.rfl ?_ (hinto _)
  exact (Reader.skipKeyword_tracks _).whether (hinto _) (hinto _)

theorem isQueryAhead_eq {c c' : Cursor} (h : c.Respelled P c') :
    isQueryAhead c' = isQueryAhead c := by
  have hrest := h.rest.dropWhile fun t t' (ht : Token.Respelled P t t') => ht.isSymbol .openParen
  unfold isQueryAhead
  generalize c.rest.dropWhile (·.isSymbol .openParen) = ts at hrest ⊢
  generalize c'.rest.dropWhile (·.isSymbol .openParen) = ts' at hrest ⊢
  cases hrest with
  | nil => rfl
  | cons ht _ => simp only [ht.isKeyword]

theorem isQueryStart_eq {c c' : Cursor} (h : c.Respelled P c') :
    isQueryStart c' = isQueryStart c := by
  simp only [isQueryStart, h.isSymbol, h.isKeyword]

theorem readColumns_tracks (oracle : Bool) {range range' : Range} (h : range.Respelled P range') :
    Tracks (.cursors P) (· = ·) (readColumns oracle range) (readColumns oracle range') :=
  .get fun _ _ hc => .ite (by rw [hc.isSymbol, isQueryAhead_eq hc]) (ColumnMap.read_tracks h oracle)
    (.pure (by rw [h.length]))

theorem defaults_tracks (mode : InsertMode) (h : target.Respelled Q.likeness target') :
    Tracks (.states Q.likeness) (fun s s' => s.foldCase = s'.foldCase) (defaults mode target)
      (defaults mode target') := by
  unfold defaults
  rw [h.written.length]
  refine (ViewTarget.project_tracks h _).bindSame fun map => ?_
  refine (ViewTarget.checkList_tracks h map).bindSame fun _ => .pure ?_
  have hrow : Fragment.foldCase target.written.fragment = target'.written.fragment.foldCase :=
    h.written.fragment.foldCase_eq
  simp [InsertStatement.foldCase, InsertSource.foldCase, Expr.untyped, Expr.foldCase,
    ExprKind.foldCase, h.relation, hrow]

theorem readRows_tracks (env : Environment) (h : target.Respelled P target') (map : ColumnMap)
    (ho : Option.Rel (Overriding.Respelled P) overriding overriding') :
    Tracks (.states P) (InsertSource.Respelled P) (readRows env target map overriding)
      (readRows env target' map overriding') := by
  refine (Tracks.lift_parsing (Rows.read_tracks _)).bind fun (_, _) (_, _) hrows => ?_
  refine Tracks.outerGroups.bind fun _ _ houter => ?_
  refine (Expr.resolve_tracks env (.outerOnly houter)
    (.untyped (.values hrows.1) hrows.2)).bind fun values values' hvalues => ?_
  rw [h.relation]
  obtain ⟨hkind, hf⟩ := hvalues
  cases hkind with
  | values hrows =>
    exact (ColumnPolicy.insertRows_tracks _ map ho hrows).bind fun _ _ hrows =>
      .pure (.values (.intro (.values hrows) hf))
  | _ => exact .reject hf

theorem readQuery_tracks (env : Environment) (h : target.Respelled P target') (map : ColumnMap)
    (ho : Option.Rel (Overriding.Respelled P) overriding overriding') :
    Tracks (.states P) (InsertSource.RespelledWith P) (readQuery env target map overriding)
      (readQuery env target' map overriding') := by
  unfold readQuery
  rw [h.relation]
  refine Tracks.outerGroups.bind fun _ _ houter => (Tracks.inRangeSame _).bindSame fun expected => ?_
  refine .get fun s s' hs => Tracks.noteQuery.bind fun _ _ _ => ?_
  have hf := hs.cursor.fragment
  refine (Query.compile_tracks env _ houter).bind fun plan plan' hplan => ?_
  rw [hplan.columnTypes]
  have hcolumns := (ColumnPolicy.queryColumns_tracks target.relation.columns map plan.columnTypes ho
    hf).bindSame fun overridden => Tracks.pure (R := InsertSource.RespelledWith P)
      (a := (InsertSource.query plan, overridden)) (b := (InsertSource.query plan', overridden))
      ⟨.query hplan, rfl⟩
  exact .ite (by rw [hplan.length]) (Tracks.bind (R := fun _ _ => True) (.reject hf)
    fun _ _ _ => hcolumns) hcolumns

theorem resolveUpsert_tracks [P.Numbered] (env : Environment) (h : target.Respelled P target')
    {scope scope' : Scope} (hscope : scope.Respelled P scope') {newRow newRow' : Range}
    (hrow : newRow.Respelled P newRow') {value value' : Expr} (hvalue : value.Respelled P value') :
    Tracks (.states P) (Expr.Respelled P) (resolveUpsert env target scope newRow value)
      (resolveUpsert env target' scope' newRow' value') := by
  refine (Expr.resolve_tracks env hscope hvalue).bind fun _ _ hvalue => ?_
  refine (ViewTarget.onBase_tracks h hvalue).bind fun _ _ hvalue => ?_
  rw [ViewTarget.isMoved_eq h, hrow.id, h.columnMap]
  exact .ite Iff.rfl (.inRange (Expr.redirect_respelled _ hrow _ hvalue)) (.pure hvalue)

theorem readUpsert_tracks [P.Numbered] (env : Environment) (h : target.Respelled P target') :
    Tracks (.states P) (Assignments.Respelled P) (readUpsert env target)
      (readUpsert env target') := by
  refine (Tracks.lift_parsing (SetClause.read_tracks _ h.written)).bind fun clause clause' hclause => ?_
  refine Tracks.newRange.bind fun _ _ hid => Tracks.outerGroups.bind fun _ _ houter => ?_
  have hname : P.fold newRowName = P.fold newRowName := rfl
  have hnew := Range.Respelled.fresh hid hname h.written.source h.written.columns h.written.fragment
  have hbase := Range.Respelled.fresh hid hname h.range.source h.range.columns h.written.fragment
  refine Tracks.bind (.mapM hclause.values fun _ _ hvalue =>
    resolveUpsert_tracks env h ⟨.cons h.written (.cons hnew .nil), houter⟩ hbase hvalue)
    fun _ _ hvalues => ?_
  rw [hclause.columnMap]
  exact ViewTarget.assign_tracks h _ hvalues

theorem readUpsert?_tracks [P.Numbered] (env : Environment) (h : target.Respelled P target')
    (mode : InsertMode) :
    Tracks (.states P) (Option.Rel (Assignments.Respelled P)) (readUpsert? env target mode)
      (readUpsert? env target' mode) := by
  refine .ite Iff.rfl ((Tracks.lift_tokens (Reader.skipKeyword_tracks _)).whether ?_ (.pure .none))
    (.pure .none)
  refine (Tracks.lift_tokens (Reader.keyword_tracks _)).bind fun _ _ _ => ?_
  refine (Tracks.lift_tokens (Reader.keyword_tracks _)).bind fun _ _ _ => ?_
  refine (Tracks.lift_tokens (Reader.keyword_tracks _)).bind fun _ _ _ => ?_
  exact (readUpsert_tracks env h).bind fun _ _ ha => .pure (.some ha)

theorem skipValues_tracks (mysql : Bool) :
    Tracks (.cursors P) (· = ·) (skipValues mysql) (skipValues mysql) :=
  (Reader.skipKeyword_tracks _).whether (.pure rfl)
    (.ite Iff.rfl (Reader.skipKeyword_tracks _) (.pure rfl))

theorem readSource_tracks (env : Environment) (h : target.Respelled P target') (map : ColumnMap)
    (mode : InsertMode) (ho : Option.Rel (Overriding.Respelled P) overriding overriding') :
    Tracks (.states P) (InsertSource.RespelledWith P) (readSource env target map mode overriding)
      (readSource env target' map mode overriding') := by
  refine (Tracks.lift_tokens (skipValues_tracks _)).whether ?_ (.get fun _ _ hs => ?_)
  · exact (readRows_tracks env h map ho).bind fun _ _ hsource => .pure ⟨hsource, rfl⟩
  · refine .ite (by rw [isQueryStart_eq hs.cursor]) ?_ (.get fun _ _ hs => .reject hs.cursor.fragment)
    refine (readQuery_tracks env h map ho).bind fun (_, _) (_, _) hsource => ?_
    exact .pure ⟨hsource.1, congrArg (·, _) hsource.2⟩

theorem compile_ends {s s' : CompilerState} (hs : s.Respelled Q.likeness s')
    (hfilters : FiltersFrom Q.likeness env s.cursor.rest) :
    (Tracking.states Q.likeness).Ends (fun s s' => s.foldCase = s'.foldCase) (compile env s)
      (compile env s') := by
  refine ((Tracks.lift_tokens (readMode_tracks _)).run hs).bind fun mode _ t t' hmode heq ht => ?_
  subst heq
  obtain ⟨c, hc, rfl⟩ := lift_reader_compiler_ok.1 hmode
  refine (Range.readTarget_ends ht (targetTokens?_of_readMode hc) hfilters).bind
    fun written written' _ _ _ ⟨hwritten, hfilters⟩ ht => Tracks.run ?_ ht
  refine (ViewTarget.resolve_tracks hwritten hfilters).bind fun target target' h => ?_
  refine (Tracks.lift_tokens (Reader.skipKeyword_tracks _)).whether ?_ ?_
  · exact (Tracks.lift_tokens (Reader.keyword_tracks _)).bind fun _ _ _ => defaults_tracks mode h
  refine (Tracks.lift_tokens (readColumns_tracks _ hwritten)).bindSame fun columns => ?_
  refine (ViewTarget.project_tracks h columns).bindSame fun map => ?_
  refine (Tracks.lift_tokens Overriding.read?_tracks).bind fun _ _ ho => ?_
  refine (readSource_tracks env h map mode ho).bind fun (_, _) (_, _, _) hsource => ?_
  obtain ⟨hsource, rfl⟩ := hsource
  refine (readUpsert?_tracks env h _).bind fun _ _ ha => ?_
  refine (ViewTarget.checkList_tracks h map).bindSame fun _ => .pure ?_
  simp only [InsertStatement.foldCase, h.relation, hsource.foldCase_eq, ha.isSome_eq,
    map_eq_of_rel ha fun _ _ ha => ha.foldCase_eq]

end Insert

/-! ## UPDATE and DELETE -/

theorem Update.compile_ends {s s' : CompilerState} (hs : s.Respelled Q.likeness s')
    (hfilters : FiltersFrom Q.likeness env s.cursor.rest) :
    (Tracking.states Q.likeness).Ends (fun s s' => s.foldCase = s'.foldCase) (Update.compile env s)
      (Update.compile env s') := by
  refine ((Tracks.lift_tokens (Reader.keyword_tracks _)).run hs).bind fun _ _ t _ hupdate _ ht => ?_
  refine (Range.readTarget_ends ht (targetTokens?_of_update _ hupdate) hfilters).bind
    fun written written' _ _ _ ⟨hwritten, hfilters⟩ ht => Tracks.run ?_ ht
  refine (Tracks.lift_tokens (Reader.keyword_tracks _)).bind fun _ _ _ => ?_
  refine (Tracks.lift_parsing (SetClause.read_tracks _ hwritten)).bind fun _ _ hclause => ?_
  refine Query.readCondition_tracks.bind fun _ _ hcondition => ?_
  refine (Slice.read?_tracks env (.cons hwritten .nil)).bind fun _ _ hslice => ?_
  refine Tracks.outerGroups.bind fun outer outer' houter => ?_
  have hscope : Scope.Respelled Q.likeness ⟨[written], outer⟩ ⟨[written'], outer'⟩ :=
    ⟨.cons hwritten .nil, houter⟩
  refine (Tracks.mapM hclause.values fun _ _ hvalue => Expr.resolve_tracks env hscope hvalue).bind
    fun _ _ hvalues => ?_
  refine (Query.resolveCondition?_tracks (Query.compileTokens_track env) hscope hcondition).bind
    fun _ _ hcondition => ?_
  refine (ViewTarget.resolve_tracks hwritten hfilters).bind fun target target' h => ?_
  refine (Tracks.mapM hvalues fun _ _ hvalue => ViewTarget.onBase_tracks h hvalue).bind
    fun _ _ hvalues => ?_
  refine (ViewTarget.onBase?_tracks h hcondition).bind fun _ _ hcondition => ?_
  refine (ViewTarget.sliceOnBase_tracks h hslice).bind fun _ _ hslice => ?_
  rw [hclause.columnMap]
  refine (ViewTarget.assign_tracks h _ hvalues).bind fun _ _ ha => .pure ?_
  have hcondition := Expr.and?_respelled h.filter hcondition
  have hrange := ViewTarget.rangeFor_respelled h ha.values hcondition
  simp only [UpdateStatement.foldCase, h.relation, ha.foldCase_eq,
    Expr.Respelled.map_foldCase? hcondition, map_eq_of_rel hslice fun _ _ hs => hs.foldCase_eq,
    Range.Respelled.map_foldCase (JoinCondition.distribute_respelled (.cons hrange .nil))]

theorem Delete.compile_ends {s s' : CompilerState} (hs : s.Respelled Q.likeness s')
    (hfilters : FiltersFrom Q.likeness env s.cursor.rest) :
    (Tracking.states Q.likeness).Ends (fun s s' => s.foldCase = s'.foldCase) (Delete.compile env s)
      (Delete.compile env s') := by
  refine ((Tracks.lift_tokens (Reader.keyword_tracks _)).run hs).bind fun _ _ _ _ hdelete _ ht => ?_
  refine ((Tracks.lift_tokens (Reader.keyword_tracks _)).run ht).bind fun _ _ _ _ hfrom _ ht => ?_
  refine (Range.readTarget_ends ht (targetTokens?_of_delete _ hdelete hfrom) hfilters).bind
    fun written written' _ _ _ ⟨hwritten, hfilters⟩ ht => Tracks.run ?_ ht
  refine Query.readCondition_tracks.bind fun _ _ hcondition => ?_
  refine (Slice.read?_tracks env (.cons hwritten .nil)).bind fun _ _ hslice => ?_
  refine Tracks.outerGroups.bind fun outer outer' houter => ?_
  have hscope : Scope.Respelled Q.likeness ⟨[written], outer⟩ ⟨[written'], outer'⟩ :=
    ⟨.cons hwritten .nil, houter⟩
  refine (Query.resolveCondition?_tracks (Query.compileTokens_track env) hscope hcondition).bind
    fun _ _ hcondition => ?_
  refine (ViewTarget.resolve_tracks hwritten hfilters).bind fun target target' h => ?_
  refine (ViewTarget.onBase?_tracks h hcondition).bind fun _ _ hcondition => ?_
  refine (ViewTarget.sliceOnBase_tracks h hslice).bind fun _ _ hslice => .pure ?_
  have hcondition := Expr.and?_respelled h.filter hcondition
  have hrange := ViewTarget.rangeFor_respelled h .nil hcondition
  simp only [DeleteStatement.foldCase, h.relation, Expr.Respelled.map_foldCase? hcondition,
    map_eq_of_rel hslice fun _ _ hs => hs.foldCase_eq,
    Range.Respelled.map_foldCase (JoinCondition.distribute_respelled (.cons hrange .nil))]

/-! ## MERGE -/

/-- Two spellings of a branch that updates. -/
structure Merge.UpdateBranch.Respelled (P : Likeness) (b b' : Merge.UpdateBranch) : Prop where
  guard : Option.Rel (Expr.Respelled P) b.guard b'.guard
  clause : b.clause.Respelled P b'.clause

/-- Two spellings of a branch that inserts. -/
structure Merge.InsertBranch.Respelled (P : Likeness) (b b' : Merge.InsertBranch) : Prop where
  guard : Option.Rel (Expr.Respelled P) b.guard b'.guard
  columnMap : b'.columnMap = b.columnMap
  row : b.row.Respelled P b'.row

/-- Two spellings of the branches read so far. -/
structure Merge.Branches.Respelled (P : Likeness) (b b' : Merge.Branches) : Prop where
  update : Option.Rel (UpdateBranch.Respelled P) b.update b'.update
  delete : Option.Rel (Option.Rel (Expr.Respelled P)) b.delete b'.delete
  insert : Option.Rel (InsertBranch.Respelled P) b.insert b'.insert
  deleteLeads : b'.deleteLeads = b.deleteLeads

/-- Two spellings of a compiled branch that updates. -/
structure MergeUpdate.Respelled (P : Likeness) (u u' : MergeUpdate) : Prop where
  guard : u.guard.Respelled P u'.guard
  assignments : u.assignments.Respelled P u'.assignments

theorem MergeUpdate.Respelled.foldCase_eq {u u' : MergeUpdate} (h : u.Respelled Q.likeness u') :
    u.foldCase = u'.foldCase := by
  simp only [MergeUpdate.foldCase, h.guard.foldCase_eq, h.assignments.foldCase_eq]

namespace Merge

variable {target target' : Range} {branches branches' : Branches}

theorem readDerived_tracks (env : Environment) {opening opening' : Token}
    (h : opening.Respelled P opening') :
    Tracks (.states P) (Range.Respelled P) (readDerived env opening) (readDerived env opening') := by
  refine (Tracks.lift_tokens Reader.parenthesised_tracks).bind fun _ _ hbody => ?_
  refine Tracks.outerGroups.bind fun _ _ houter => ?_
  refine (Query.compileTokens_track env hbody houter).bind fun _ _ hplan => ?_
  refine (Tracks.lift_tokens Reader.asName?_tracks).bind fun asName asName' hname => ?_
  unfold SameName? at hname
  cases asName <;> cases asName' <;>
    simp only [Option.map_none, Option.map_some, reduceCtorEq, Option.some.injEq] at hname
  · exact .get fun _ _ hs => .reject hs.cursor.fragment
  · exact Tracks.newRange.bind fun _ _ hid =>
      .pure (.fresh hid hname (.derived hplan) hplan.columns h.fragment)

theorem readSource_tracks (env : Environment) :
    Tracks (.states P) (Range.Respelled P) (readSource env) (readSource env) := by
  refine (Tracks.lift_tokens (Reader.symbol?_tracks _)).bind fun opening opening' h => ?_
  exact h.elim (Range.readRelation_tracks env) fun _ _ h => readDerived_tracks env h

theorem readGuard_tracks :
    Tracks (.readings P) (Option.Rel (Expr.Respelled P)) readGuard readGuard :=
  (Tracks.lift_reader (Reader.skipKeyword_tracks _)).whether
    (Expr.parse_tracks.bind fun _ _ he => .pure (.some he)) (.pure .none)

theorem readInsertRow_tracks (degree : Nat) :
    Tracks (.readings P) (Expr.Respelled P) (readInsertRow degree) (readInsertRow degree) := by
  refine (Rows.read_tracks degree).bind fun (_, _) (_, _) ⟨hrows, hf⟩ => ?_
  cases hrows with
  | nil => exact .reject hf
  | cons hrow hrows =>
    cases hrows with
    | nil => exact .pure hrow
    | cons => exact .reject hf

theorem checkNew_tracks (isThere : Bool) (branch : MergeBranch) {clause clause' : Token}
    (h : clause.Respelled P clause') :
    Tracks (.readings P) (fun _ _ => True) (checkNew isThere branch clause)
      (checkNew isThere branch clause') :=
  .ite Iff.rfl (.reject h.fragment) (.pure trivial)

theorem readInsert_tracks (env : Environment) (h : target.Respelled P target')
    {clause clause' : Token} (hclause : clause.Respelled P clause')
    (hb : branches.Respelled P branches') :
    Tracks (.readings P) (Branches.Respelled P) (readInsert env target clause branches)
      (readInsert env target' clause' branches') := by
  refine (Tracks.lift_reader (Reader.keyword_tracks _)).bind fun _ _ _ => ?_
  refine readGuard_tracks.bind fun _ _ hguard => ?_
  refine (Tracks.lift_reader (Reader.keyword_tracks _)).bind fun _ _ _ => ?_
  refine (Tracks.lift_reader (Reader.keyword_tracks _)).bind fun _ _ _ => ?_
  rw [hb.insert.isSome_eq]
  refine (checkNew_tracks _ _ hclause).bind fun _ _ _ => .get fun _ _ hs => ?_
  have hrow : ∀ columnMap : ColumnMap, Tracks (.readings P) (Branches.Respelled P)
      (do
        let _ ← Reader.keyword .VALUES
        let row ← readInsertRow columnMap.length
        return { branches with insert := some ⟨_, columnMap, row⟩ } : Parser Branches)
      (do
        let _ ← Reader.keyword .VALUES
        let row ← readInsertRow columnMap.length
        return { branches' with insert := some ⟨_, columnMap, row⟩ }) :=
    fun _ => (Tracks.lift_reader (Reader.keyword_tracks _)).bind fun _ _ _ =>
      (readInsertRow_tracks _).bind fun _ _ hrow =>
        .pure ⟨hb.update, hb.delete, .some ⟨hguard, rfl, hrow⟩, hb.deleteLeads⟩
  refine .ite (by rw [hs.cursor.isSymbol]) ?_ ?_
  · exact (Tracks.lift_reader (ColumnMap.read_tracks h _)).bindSame hrow
  · rw [h.length]
    exact hrow _

theorem readMatched_tracks (env : Environment) (h : target.Respelled P target')
    {clause clause' : Token} (hclause : clause.Respelled P clause')
    (hb : branches.Respelled P branches') :
    Tracks (.readings P) (Branches.Respelled P) (readMatched env target clause branches)
      (readMatched env target' clause' branches') := by
  refine (Tracks.lift_reader (Reader.keyword_tracks _)).bind fun _ _ _ => ?_
  refine readGuard_tracks.bind fun _ _ hguard => ?_
  refine (Tracks.lift_reader (Reader.keyword_tracks _)).bind fun _ _ _ => ?_
  rw [hb.update.isSome_eq, hb.delete.isSome_eq]
  refine (Tracks.lift_reader (Reader.skipKeyword_tracks _)).whether ?_ <|
    (Tracks.lift_reader (Reader.skipKeyword_tracks _)).whether ?_ <|
      .get fun _ _ hs => .reject hs.cursor.fragment
  · refine (checkNew_tracks _ _ hclause).bind fun _ _ _ => ?_
    refine (Tracks.lift_reader (Reader.keyword_tracks _)).bind fun _ _ _ => ?_
    exact (SetClause.read_tracks _ h).bind fun _ _ hset =>
      .pure ⟨.some ⟨hguard, hset⟩, hb.delete, hb.insert, hb.deleteLeads⟩
  · refine (checkNew_tracks _ _ hclause).bind fun _ _ _ => .pure ?_
    refine ⟨hb.update, .some hguard, hb.insert, ?_⟩
    exact hb.update.elim rfl fun _ _ _ => rfl

theorem readBranchesWithin_tracks (env : Environment) (h : target.Respelled P target') :
    ∀ (bound : Nat) {branches branches' : Branches}, branches.Respelled P branches' →
      Tracks (.readings P) (Branches.Respelled P) (readBranchesWithin env target bound branches)
        (readBranchesWithin env target' bound branches')
  | 0, _, _, hb => .pure hb
  | bound + 1, _, _, hb => by
    refine (Tracks.lift_reader (Reader.keyword?_tracks _)).bind fun _ _ hclause => ?_
    refine hclause.elim (.pure hb) fun _ _ hclause => ?_
    refine (Tracks.lift_reader (Reader.skipKeyword_tracks _)).whether ?_ ?_
    · exact (readInsert_tracks env h hclause hb).bind fun _ _ hb =>
        readBranchesWithin_tracks env h bound hb
    · exact (readMatched_tracks env h hclause hb).bind fun _ _ hb =>
        readBranchesWithin_tracks env h bound hb

theorem isEmpty_eq (hb : branches.Respelled P branches') : branches'.isEmpty = branches.isEmpty := by
  simp only [Branches.isEmpty, ← Option.not_isSome, hb.update.isSome_eq, hb.delete.isSome_eq,
    hb.insert.isSome_eq]

theorem readBranches_tracks (env : Environment) (h : target.Respelled P target') :
    Tracks (.readings P) (Branches.Respelled P) (readBranches env target)
      (readBranches env target') := by
  refine (Tracks.lift_reader Reader.remaining_tracks).bindSame fun _ => ?_
  refine (readBranchesWithin_tracks env h _ ⟨.none, .none, .none, rfl⟩).bind fun _ _ hb => ?_
  exact .ite (by rw [isEmpty_eq hb]) (.get fun _ _ hs => .reject hs.cursor.fragment) (.pure hb)

theorem deleteFirst_eq (hb : branches.Respelled P branches') :
    branches'.deleteFirst = branches.deleteFirst := by
  have hguard : branches'.update.all (·.guard.isNone) = branches.update.all (·.guard.isNone) :=
    hb.update.elim rfl fun _ _ h => by
      simp only [Option.all_some, ← Option.not_isSome, h.guard.isSome_eq]
  simp only [Branches.deleteFirst, hb.delete.isSome_eq, hb.deleteLeads, hguard]

section

variable {scope scope' : Scope} {target target' : ViewTarget}

theorem resolveGuard_tracks (env : Environment) (hscope : scope.Respelled P scope')
    {guard guard' : Option Expr} (h : Option.Rel (Expr.Respelled P) guard guard') :
    Tracks (.states P) (Expr.Respelled P) (resolveGuard env scope guard)
      (resolveGuard env scope' guard') := by
  cases h with
  | none => exact .pure (.literal _ (.synthetic rfl))
  | some h => exact Expr.resolveCondition_tracks env hscope h

theorem resolveUpdate_tracks [P.Numbered] (env : Environment) (h : target.Respelled P target')
    (hscope : scope.Respelled P scope') {b b' : UpdateBranch} (hb : b.Respelled P b') :
    Tracks (.states P) (MergeUpdate.Respelled P) (resolveUpdate env target scope b)
      (resolveUpdate env target' scope' b') := by
  refine (resolveGuard_tracks env hscope hb.guard).bind fun _ _ hguard => ?_
  refine (Tracks.mapM hb.clause.values fun _ _ hvalue => (Expr.resolve_tracks env hscope hvalue).bind
    fun _ _ hvalue => ViewTarget.onBase_tracks h hvalue).bind fun _ _ hvalues => ?_
  rw [hb.clause.columnMap]
  exact (ViewTarget.assign_tracks h _ hvalues).bind fun _ _ ha =>
    (ViewTarget.onBase_tracks h hguard).bind fun _ _ hguard => .pure ⟨hguard, ha⟩

theorem resolveDelete_tracks [P.Numbered] (env : Environment) (h : target.Respelled P target')
    (hscope : scope.Respelled P scope') {guard guard' : Option Expr}
    (hguard : Option.Rel (Expr.Respelled P) guard guard') :
    Tracks (.states P) (Expr.Respelled P) (resolveDelete env target scope guard)
      (resolveDelete env target' scope' guard') :=
  (resolveGuard_tracks env hscope hguard).bind fun _ _ hguard => ViewTarget.onBase_tracks h hguard

theorem resolveInsert_tracks (env : Environment) (h : target.Respelled Q.likeness target')
    (hscope : scope.Respelled Q.likeness scope') {b b' : InsertBranch}
    (hb : b.Respelled Q.likeness b') :
    Tracks (.states Q.likeness) (fun i i' => i.foldCase = i'.foldCase)
      (resolveInsert env target scope b)
      (resolveInsert env target' scope' b') := by
  refine (resolveGuard_tracks env hscope hb.guard).bind fun _ _ hguard => ?_
  refine (Expr.resolve_tracks env hscope hb.row).bind fun _ _ hrow => ?_
  rw [hb.columnMap, h.relation]
  refine (ViewTarget.project_tracks h _).bindSame fun map => ?_
  refine (ColumnPolicy.insertRow_tracks _ map none hrow).bind fun _ _ hrow => ?_
  refine (ViewTarget.checkList_tracks h map).bindSame fun _ => .pure ?_
  simp only [MergeInsert.foldCase, hguard.foldCase_eq, hrow.foldCase_eq]

theorem ifPresent_tracks {α β γ δ : Type} {R : α → β → Prop} {S : γ → δ → Prop}
    {step : α → Compiler γ} {step' : β → Compiler δ}
    (h : ∀ a b, R a b → Tracks (.states P) S (step a) (step' b)) {a : Option α} {b : Option β}
    (hab : Option.Rel R a b) :
    Tracks (.states P) (Option.Rel S) (ifPresent step a) (ifPresent step' b) := by
  cases hab with
  | none => exact .pure .none
  | some hab => exact (h _ _ hab).bind fun _ _ h => .pure (.some h)

end

theorem compile_ends {s s' : CompilerState} (hs : s.Respelled Q.likeness s')
    (hfilters : FiltersFrom Q.likeness env s.cursor.rest) :
    (Tracking.states Q.likeness).Ends (fun s s' => s.foldCase = s'.foldCase) (compile env s)
      (compile env s') := by
  refine ((Tracks.lift_tokens (Reader.keyword_tracks _)).run hs).bind fun _ _ _ _ hmerge _ ht => ?_
  refine ((Tracks.lift_tokens (Reader.keyword_tracks _)).run ht).bind fun _ _ _ _ hinto _ ht => ?_
  refine (Range.readTarget_ends ht (targetTokens?_of_merge _ hmerge hinto) hfilters).bind
    fun written written' _ _ _ ⟨hwritten, hfilters⟩ ht => Tracks.run ?_ ht
  refine (Tracks.lift_tokens (Reader.keyword_tracks _)).bind fun _ _ _ => ?_
  refine (readSource_tracks env).bind fun source source' hsource => ?_
  refine (Tracks.lift_tokens (Reader.keyword_tracks _)).bind fun _ _ _ => ?_
  refine (Tracks.lift_parsing Expr.parse_tracks).bind fun _ _ hon => ?_
  refine (Tracks.except (RangeGroup.ofRanges_concur (.cons hsource (.cons hwritten .nil)))).bind
    fun ranges ranges' hranges => ?_
  refine Tracks.outerGroups.bind fun outer outer' houter => ?_
  have hmatched : Scope.Respelled Q.likeness ⟨ranges, outer⟩ ⟨ranges', outer'⟩ :=
    ⟨hranges, houter⟩
  have hunmatched : Scope.Respelled Q.likeness ⟨[source], outer⟩ ⟨[source'], outer'⟩ :=
    ⟨.cons hsource .nil, houter⟩
  refine (Expr.resolveCondition_tracks env hmatched hon).bind fun _ _ hon => ?_
  refine (Tracks.lift_parsing (readBranches_tracks env hwritten)).bind fun _ _ hb => ?_
  refine (ViewTarget.resolve_tracks hwritten hfilters).bind fun target target' h => ?_
  refine (ifPresent_tracks (fun _ _ hb => resolveUpdate_tracks env h hmatched hb) hb.update).bind
    fun update update' hupdate => ?_
  refine (ifPresent_tracks (fun _ _ hb => resolveDelete_tracks env h hmatched hb) hb.delete).bind
    fun _ _ hdelete => ?_
  refine (ifPresent_tracks (fun _ _ hb => resolveInsert_tracks env h hunmatched hb) hb.insert).bind
    fun _ _ hinsert => ?_
  refine (ViewTarget.onBase_tracks h hon).bind fun on on' hon => .pure ?_
  have hcondition : ((Expr.and? target.filter (some on)).getD .always).Respelled Q.likeness
      ((Expr.and? target'.filter (some on')).getD .always) :=
    (Expr.and?_respelled h.filter (.some hon)).elim (.literal _ (.synthetic rfl)) fun _ _ he => he
  have hvalues : List.Forall₂ (Expr.Respelled Q.likeness)
      ((update.map (·.assignments.values)).getD []) ((update'.map (·.assignments.values)).getD []) :=
    hupdate.elim .nil fun _ _ hu => hu.assignments.values
  have hrange := ViewTarget.rangeFor_respelled h hvalues (.some hcondition)
  simp only [MergeStatement.foldCase, h.relation, hcondition.foldCase_eq, deleteFirst_eq hb,
    map_eq_of_rel hupdate fun _ _ hu => hu.foldCase_eq,
    map_eq_of_rel hdelete fun _ _ hd => hd.foldCase_eq, map_eq_of_rel hinsert fun _ _ hi => hi,
    Range.Respelled.map_foldCase
      (JoinCondition.distribute_respelled (.cons hsource (.cons hrange .nil)))]

end Merge

end DataChange
