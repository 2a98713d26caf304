import DataChange.Proofs.Statement.Distinct

/-!
# Columns, flags and degrees

The columns that a statement stores are those behind the columns that it names, in the order of the
names, and each column of the relation has a flag that says whether it is stored. What is inserted
has a column for each of them: every row that is written, and the query, if the rows come from one.
`columns_fit` says so for whole statements.
-/

namespace DataChange

/-! ## What is stored -/

/-- A relation behind some views: a statement is written against a range, the tokens `after` follow,
and what it changes is the relation to which the views lead. -/
inductive Reaches (env : Environment) (tokens : List Token) (operation : Operation)
    (relation : Relation) (written : Range) (layers : List Layer) (after : List Token) : Prop
  | intro {target : ViewTarget} {u v : CompilerState}
      (htargets : Targets env tokens operation written after)
      (hviews : ViewTarget.Descends env operation (ViewTarget.start written) u layers
        ⟨target.range, target.columnMap, target.filter⟩ v)
      (hrelation : target.range.relation? = some relation)

/-- The columns that some columns lead to, one by one. -/
def ColumnMap.Behind (layers : List Layer) (named map : ColumnMap) : Prop :=
  named.ordinals.mapM (Layer.follow layers) = some map.ordinals

/-- The assignments of a statement, up to the last one, after which no comma follows: what is stored
are the columns behind those whose names stand before the equals signs. -/
inductive AssignsColumns (env : Environment) (tokens : List Token) (operation : Operation)
    (relation : Relation) (a : Assignments) : Prop
  | intro {written : Range} {layers : List Layer} {after names : List Token} {clause : SetClause}
      {u v : Reading} (hreaches : Reaches env tokens operation relation written layers after)
      (hplace : SetClause.Place operation after u.cursor.rest)
      (hread : SetClause.Names env.config.dialect.mysql written u names clause v)
      (hend : Lacks (.symbol .comma) v.cursor.rest)
      (hnames : written.FirstOfNames names clause.columnMap.ordinals)
      (hbehind : clause.columnMap.Behind layers a.columnMap)
      (hflagged : a.columnMap.Flagged relation.columns.length a.checkList)

/-- What is inserted has a number of columns. -/
inductive InsertSource.HasDegree (degree : Nat) : InsertSource → Prop
  | values {rows : Expr}
      (h : ∀ row ∈ rows.children, ∃ cells, row.kind = .row cells ∧ cells.length = degree) :
      HasDegree degree (.values rows)
  | query {plan : Plan} (h : plan.columns.length = degree) : HasDegree degree (.query plan)

/-- The columns of an INSERT: those of its list, or all if there is none, and what is inserted has a
column for each; or all columns of a row of defaults. -/
inductive InsertsColumns (env : Environment) (tokens : List Token) (i : InsertStatement) : Prop
  | defaults {written : Range} {layers : List Layer} {after : List Token}
      (hreaches : Reaches env tokens .insert i.target written layers after)
      (hdefaults : startsDefaults after = true)
      (hbehind : (ColumnMap.all written.columns.length).Behind layers i.columnMap)
  | listed {written : Range} {layers : List Layer} {after : List Token} {named : ColumnMap}
      (hreaches : Reaches env tokens .insert i.target written layers after)
      (hdefaults : startsDefaults after = false) (hlisting : named.Listing written after)
      (hbehind : named.Behind layers i.columnMap) (hdegree : i.source.HasDegree i.columnMap.length)

/-- The columns of the branch of a MERGE that inserts, and its row. -/
inductive BranchColumns (env : Environment) (tokens : List Token) (relation : Relation)
    (i : MergeInsert) : Prop
  | intro {written : Range} {layers : List Layer} {after : List Token} {cells : List Expr}
      {named : ColumnMap} (hreaches : Reaches env tokens .merge relation written layers after)
      (hlisting : named.ListingAfter written after) (hbehind : named.Behind layers i.columnMap)
      (hflagged : i.columnMap.Flagged relation.columns.length i.checkList)
      (hrow : i.row.kind = .row cells) (hdegree : cells.length = i.columnMap.length)

/-- The columns that a statement stores fit with their names, their flags and what is inserted. -/
def Statement.ColumnsFit (env : Environment) (tokens : List Token) : Statement → Prop
  | insert i => InsertsColumns env tokens i ∧
      i.columnMap.Flagged i.target.columns.length i.checkList ∧
      ∀ a ∈ i.onDuplicate, AssignsColumns env tokens .insert i.target a
  | update u => AssignsColumns env tokens .update u.target u.assignments
  | merge m => (∀ u ∈ m.update, AssignsColumns env tokens .merge m.target u.assignments) ∧
      ∀ i ∈ m.insert, BranchColumns env tokens m.target i
  | delete _ | truncate _ | call _ => True

/-! ## Flags -/

section

variable {env : Environment} {s t : CompilerState} {tokens : List Token}

theorem ViewTarget.checkList_ok {target : ViewTarget} {map : ColumnMap} {flags : List Bool}
    (h : target.checkList map s = .ok flags t) :
    map.Flagged target.relation.columns.length flags :=
  ColumnMap.checkList_flagged (inRange_ok.1 h).1

theorem ViewTarget.assign_flagged {target : ViewTarget} {map : ColumnMap} {values : List Expr}
    {a : Assignments} (h : target.assign map values s = .ok a t) :
    a.columnMap.Flagged target.relation.columns.length a.checkList := by
  simp only [assign, bind_ok, pure_ok] at h
  obtain ⟨map', _, -, _, _, -, flags, _, hflags, rfl, -⟩ := h
  exact checkList_ok hflags

theorem Insert.compile_flagged {i : InsertStatement} (h : Insert.compile env s = .ok i t) :
    i.columnMap.Flagged i.target.columns.length i.checkList := by
  simp only [Insert.compile, bind_ok] at h
  obtain ⟨_, _, -, _, _, -, target, _, -, found, _, -, h⟩ := h
  cases found with
  | true =>
    simp only [↓reduceIte, defaults, bind_ok, pure_ok] at h
    obtain ⟨_, _, -, map, _, -, flags, _, hflags, rfl, -⟩ := h
    exact ViewTarget.checkList_ok hflags
  | false =>
    simp only [Bool.false_eq_true, ↓reduceIte, bind_ok, pure_ok, Prod.exists] at h
    obtain ⟨_, _, -, map, _, -, _, _, -, _, _, _, _, -, _, _, -, flags, _, hflags, rfl, -⟩ := h
    exact ViewTarget.checkList_ok hflags

theorem Merge.resolveInsert_flagged {target : ViewTarget} {scope : Scope} {branch : InsertBranch}
    {i : MergeInsert} (h : resolveInsert env target scope branch s = .ok i t) :
    i.columnMap.Flagged target.relation.columns.length i.checkList := by
  simp only [resolveInsert, bind_ok, pure_ok] at h
  obtain ⟨_, _, -, _, _, -, map, _, -, _, _, -, flags, _, hflags, rfl, -⟩ := h
  exact ViewTarget.checkList_ok hflags

/-! ## Degrees -/

/-- The rules for columns keep the number of cells. -/
theorem ColumnPolicy.insertRow_degree {columns : List Column} {map : ColumnMap}
    {overriding : Option OverridingKind} {row row' : Expr} {degree : Nat}
    (h : insertRow columns map overriding row s = .ok row' t) (hrow : Rows.IsRow degree row) :
    ∃ cells, row'.kind = .row cells ∧ cells.length = degree := by
  obtain ⟨-, cells, cells', hkind, rfl, hcells, -⟩ := insertRow_ok h
  obtain ⟨items, hitems, rfl⟩ := Expr.shape_eq_row.1 hrow.shape
  obtain rfl : items = cells := by simpa [hitems] using hkind
  exact ⟨cells', rfl, hcells.length_eq.symm⟩

theorem Insert.ReadsSource.hasDegree {target : ViewTarget} {map : ColumnMap}
    {overriding : Option Overriding} {source : InsertSource} {overridden : Option Nat}
    (h : ReadsSource env target map overriding s source overridden t) :
    source.HasDegree map.length := by
  cases h with
  | query _ _ _ hlength _ _ => exact .query hlength
  | @values _ _ _ rows rows₁ rows₂ fragment values _ hrows hresolve hkind hinsert _ =>
    obtain ⟨r, hr, -⟩ := lift_parser_ok.1 hrows
    have hchildren : values.children = rows₁ := by simp [Expr.children, hkind]
    have halike : List.Forall₂ Expr.Alike rows rows₁ :=
      hchildren ▸ (Expr.resolveWith_alike hresolve).children
    refine .values fun row' hrow' => ?_
    obtain ⟨row, hrow, hinsert⟩ := forall₂_exists_left hinsert hrow'
    obtain ⟨row₀, hrow₀, ha⟩ := forall₂_exists_left halike hrow
    exact ColumnPolicy.insertRow_degree hinsert ((Rows.read_isRow hr row₀ hrow₀).alike ha)

/-! ## Statements -/

/-- A statement that finds where it lands reaches it behind the views on the way. -/
theorem ViewTarget.resolve_reaches {operation : Operation} {written : Range} {target : ViewTarget}
    {after : List Token} (htargets : Targets env tokens operation written after)
    (htarget : resolve env written operation s = .ok target t) :
    ∃ layers, Reaches env tokens operation target.relation written layers after ∧
      ∀ named map : ColumnMap, named.project target.columnMap = some map →
        named.Behind layers map := by
  obtain ⟨layers, hviews, -⟩ := resolve_descends htarget
  obtain ⟨_, range, columnMap, filter, relation, -, hrelation, rfl⟩ := resolve_ok htarget
  exact ⟨layers, .intro htargets hviews hrelation, fun named map hmap => project_follow hviews hmap⟩

/-- The assignments of a clause that is read at its place. -/
theorem AssignsColumns.of_assign {operation : Operation} {target : ViewTarget} {written : Range}
    {after : List Token} {clause : SetClause} {groups : List (List Nat)} {values : List Expr}
    {a : Assignments} {u v : CompilerState}
    (htargets : Targets env tokens operation written after)
    (htarget : ViewTarget.resolve env written operation u = .ok target v)
    (hread : clause.ReadAt operation env.config.dialect.mysql written after groups)
    (hassign : target.assign clause.columnMap values s = .ok a t) :
    AssignsColumns env tokens operation target.relation a := by
  obtain ⟨layers, hreaches, hbehind⟩ := ViewTarget.resolve_reaches htargets htarget
  obtain ⟨_, _, hplace, hgroups, hend⟩ := hread
  obtain ⟨names, hnames, hfirst⟩ := hgroups.names
  exact .intro hreaches hplace hnames hend hfirst (hbehind _ _ (ViewTarget.assign_project hassign))
    (ViewTarget.assign_flagged hassign)

theorem Update.Run.assignsColumns {u : UpdateStatement} (run : Update.Run env s u t) :
    AssignsColumns env s.cursor.rest .update u.target u.assignments := by
  obtain ⟨groups, hread⟩ := SetClause.readAt_update run.set_ok run.clause_ok
  rw [run.relation]
  exact .of_assign run.targets run.target_ok hread run.assigned

namespace Merge

variable {m : MergeStatement}

theorem Run.assignsColumns (run : Run env s m t) :
    ∀ u ∈ m.update, AssignsColumns env s.cursor.rest .merge m.target u.assignments := by
  intro u hu
  obtain ⟨branch, hb, hresolve⟩ := ifPresent_some (hu ▸ run.update_ok)
  obtain ⟨guard, s₁, values₁, values₂, -, -, -, hassign, -⟩ := resolveUpdate_ok hresolve
  obtain ⟨groups, hread⟩ := run.branches_written.update branch hb
  rw [run.relation]
  exact .of_assign run.targets run.target_ok hread hassign

theorem Run.branchColumns (run : Run env s m t) :
    ∀ i ∈ m.insert, BranchColumns env s.cursor.rest m.target i := by
  intro i hi
  obtain ⟨branch, hb, hresolve⟩ := ifPresent_some (hi ▸ run.insert_ok)
  obtain ⟨s₁, row, -, hrow, hmap, hinsert⟩ := resolveInsert_ok hresolve
  obtain ⟨hisRow, hlisting⟩ := run.branches_written.insert branch hb
  obtain ⟨cells, hkind, hdegree⟩ := ColumnPolicy.insertRow_degree hinsert
    (hisRow.alike (Expr.resolveWith_alike hrow))
  obtain ⟨layers, hreaches, hbehind⟩ := ViewTarget.resolve_reaches run.targets run.target_ok
  rw [run.relation]
  exact .intro hreaches hlisting (hbehind _ _ hmap) (resolveInsert_flagged hresolve) hkind
    (hdegree.trans (ColumnMap.project_length hmap).symm)

end Merge

namespace Insert

variable {i : InsertStatement}

theorem Run.assignsColumns (run : Run env s i t) :
    ∀ a ∈ i.onDuplicate, AssignsColumns env s.cursor.rest .insert i.target a := by
  intro a ha
  obtain ⟨u, hsuffix, -, ⟨upsert⟩⟩ := run.upsert a ha
  obtain ⟨groups, hread⟩ := run.upsert_readAt hsuffix upsert
  rw [run.relation]
  exact .of_assign run.targets run.target_ok hread upsert.assigned

theorem Run.insertsColumns (run : Run env s i t) : InsertsColumns env s.cursor.rest i := by
  obtain ⟨layers, hreaches, hbehind⟩ := ViewTarget.resolve_reaches run.targets run.target_ok
  rw [← run.relation, ← run.cursor_kept] at hreaches
  cases run.completes with
  | defaults hd _ _ _ hm _ => exact .defaults hreaches (startsDefaults_of_skip hd) (hbehind _ _ hm)
  | rows hd hc hm _ hs _ =>
    obtain ⟨hdefaults, hsame⟩ := startsDefaults_of_absent hd
    obtain ⟨c, hc, -⟩ := lift_reader_compiler_ok.1 hc
    exact .listed hreaches hdefaults (hsame ▸ readColumns_listing hc) (hbehind _ _ hm) hs.hasDegree

end Insert

end

namespace Statement

variable {env : Environment} {s t : CompilerState} {statement : Statement}

/-- In a statement that compiles, the columns that are stored are those behind the named ones, they
have their flags, and what is inserted has a column for each. -/
theorem columns_fit {text : String} (h : compile env text s = .ok statement t) :
    ∃ tokens, tokenize text = .ok tokens ∧ statement.ColumnsFit env tokens := by
  obtain ⟨tokens, u, c, htokens, hhead, -⟩ := compile_ok h
  refine ⟨tokens, htokens, ?_⟩
  obtain ⟨x, rest, -, hrun⟩ := compileHead_ok hhead
  cases hrun with
  | insert _ hcompile =>
    obtain ⟨run⟩ := Insert.compile_ok hcompile
    exact ⟨run.insertsColumns, Insert.compile_flagged hcompile, run.assignsColumns⟩
  | update _ hcompile =>
    obtain ⟨run⟩ := Update.compile_ok hcompile
    exact run.assignsColumns
  | merge _ hcompile =>
    obtain ⟨run⟩ := Merge.compile_ok hcompile
    exact ⟨run.assignsColumns, run.branchColumns⟩
  | delete | truncate | call => trivial

/-- Columns in another order than that of the view, which leads to a table. -/
def listedBehindView : String :=
  "INSERT INTO active_account (balance, name) VALUES (1, 'a'), (2, 'b')"

set_option maxRecDepth 10000 in
theorem columns_fit_view :
    ∃ statement t, compile .bank listedBehindView .initial = .ok statement t ∧
      statement.columnMaps = [⟨[2, 1]⟩] ∧
      ∃ tokens, tokenize listedBehindView = .ok tokens ∧ statement.ColumnsFit .bank tokens := by
  obtain ⟨statement, t, hcompile, hcheck⟩ := exists_compile .bank listedBehindView
    (fun statement => statement.columnMaps == [⟨[2, 1]⟩]) rfl (by decide +kernel)
  exact ⟨statement, t, hcompile, by simpa using hcheck, columns_fit hcompile⟩

end Statement

end DataChange
