import DataChange.Catalog.Banking
import DataChange.Proofs.Statement.Proposed
import DataChange.Proofs.Token.Yields

/-!
# The assignments of an upsert

The assignments after ON DUPLICATE KEY UPDATE are read like those of an UPDATE, but they are
resolved over two ranges: the row of the table, and the row that is proposed, which has the same
columns. So an assignment of an UPDATE means the same in an upsert exactly if none of its references
also names a column of the proposed row (`upsert_compiles_iff`); every reference to a column of the
table does that has no qualifier.
-/

namespace DataChange

/-! ## Assignments in both statements -/

/-- All states are paired: what is computed does not depend on them. -/
def Pairing.unrelated {σ : Type} : Pairing σ :=
  ⟨fun _ _ => True, fun _ => 0⟩

namespace Insert

variable {env : Environment} {table : Table} {id : Nat} {f f' : Fragment} {w t : CompilerState}
  {a : Assignments}

theorem resolveUpsert_table {scope : Scope} {newRow : Range} :
    resolveUpsert env (table.target id f) scope newRow = fun value => value.resolve env scope := by
  funext value
  simp only [resolveUpsert, ViewTarget.onBase, Table.isMoved_target, Bool.false_eq_true, ↓reduceIte,
    bind_pure]

/-- The steps of the assignments of an upsert on a base table. -/
theorem readUpsert_table : readUpsert env (table.target id f) w = .ok a t ↔
    ∃ clause r values, SetClause.read env.config.dialect.mysql (table.range id f) w.toReading =
        .ok clause r ∧
      clause.values.mapM (fun value => value.resolve env
        (table.upsertScope id w.nextRange f f w.outer))
        { w with toReading := r, nextRange := w.nextRange + 1 } = .ok values t ∧
      (table.target id f).assign clause.columnMap values t = .ok a t := by
  simp only [readUpsert, bind_ok, newRange_ok, outerGroups_ok, resolveUpsert_table]
  constructor
  · rintro ⟨clause, _, hclause, _, _, ⟨rfl, rfl⟩, _, _, ⟨rfl, rfl⟩, values, u, hvalues, hassign⟩
    obtain ⟨r, hr, rfl⟩ := lift_parser_ok.1 hclause
    obtain ⟨-, rfl⟩ := ViewTarget.assign_ok hassign
    exact ⟨clause, r, values, hr, hvalues, hassign⟩
  · rintro ⟨clause, r, values, hr, hvalues, hassign⟩
    exact ⟨clause, _, lift_parser_run hr, _, _, ⟨rfl, rfl⟩, _, _, ⟨rfl, rfl⟩, values, t, hvalues,
      hassign⟩

section

variable {q r : Reading} {clause : SetClause}

/-- The references of a clause without subqueries are those of what is assigned. -/
theorem clear_iff (hpaired : (Pairing.readings false []).Paired q w.toReading)
    (h : Update.Assigns env table id f w.outer q r clause a) :
    (∀ ref ∈ clause.values.flatMap Expr.references, table.proposes ref = false) ↔
      ∀ e ∈ a.values, ∀ ref ∈ e.references, table.proposes ref = false := by
  obtain ⟨hclause, values, s₁, s₂, hresolve, hassign⟩ := h
  obtain ⟨clause', r', -, hcopied, -⟩ := SetClause.read_mirrors closing_nil _ _ hpaired hclause
  have hbound := Expr.assigned_references (Expr.copied_flat hcopied.values).1 hresolve hassign
  constructor
  · intro hclear e he ref' href'
    obtain ⟨ref, href, hbound⟩ := forall₂_exists_left hbound (List.mem_flatMap.2 ⟨e, he, href'⟩)
    exact hbound.proposes.trans (hclear ref href)
  · intro hclear ref href
    obtain ⟨ref', href', hbound⟩ := forall₂_exists_right hbound href
    obtain ⟨e, he, href'⟩ := List.mem_flatMap.1 href'
    exact hbound.proposes.symm.trans (hclear e he ref' href')

/-- Assignments without a reference to the proposed row mean in an upsert what they mean in an
UPDATE. -/
theorem readUpsert_copies (hpaired : (Pairing.readings false []).Paired q w.toReading)
    (h : Update.Assigns env table id f w.outer q r clause a)
    (hclear : ∀ ref ∈ clause.values.flatMap Expr.references, table.proposes ref = false) :
    ∃ values' t, readUpsert env (table.target id f') w = .ok { a with values := values' } t ∧
      (Pairing.readings false []).Paired r t.toReading ∧
      List.Forall₂ (Expr.Copied false) a.values values' := by
  obtain ⟨hclause, values, s₁, s₂, hresolve, hassign⟩ := h
  obtain ⟨clause', r', hclause', hcopied, hr, -⟩ := SetClause.read_mirrors closing_nil _ _ hpaired hclause
  obtain ⟨hflat, -⟩ := Expr.copied_flat hcopied.values
  -- the proposed row takes an id before the copied list is resolved
  let u : CompilerState := { w with toReading := r', nextRange := w.nextRange + 1 }
  have hvalues : Mirrors .unrelated 0 (List.Forall₂ (Expr.Copied false))
      (clause.values.mapM fun value => value.resolve env ⟨[table.range id f], w.outer⟩)
      (clause'.values.mapM fun value => value.resolve env
        (table.upsertScope id w.nextRange f' f' w.outer)) := by
    refine Mirrors.mapM hcopied.values fun e he e' hcopy => ?_
    refine Expr.resolveWith_mirrors (fun hexact => by cases hexact) hcopy ?_
    refine ((hflat e he).each_references fun ref href => ?_).imp fun n hn ref hk => hn ref hk
    exact agree_of_not_proposes (hclear ref (List.mem_flatMap.2 ⟨e, he, href⟩))
  have hstart : Pairing.unrelated.Paired s₁ u := trivial
  obtain ⟨values', t, hvalues', hcopies, hend, -⟩ := hvalues hstart hresolve
  have hassigns : Mirrors .unrelated 0 _ ((table.target id f).assign clause.columnMap values)
      ((table.target id f').assign clause.columnMap values') :=
    ViewTarget.assign_mirrors rfl rfl clause.columnMap hcopies
  obtain ⟨a', t', hassign', ⟨ha', hassigned⟩, -⟩ := hassigns hend hassign
  obtain ⟨-, rfl⟩ := ViewTarget.assign_ok hassign'
  have hkept : Resolves u t := mapM_resolves (fun value u value' v hv =>
    Expr.resolveWith_resolves (Query.compileTokens_resolves env) hv) hvalues'
  have hread : SetClause.read env.config.dialect.mysql (table.range id f') w.toReading =
      .ok clause' r' :=
    (congrFun (SetClause.read_fragment _ (table.range id f) f') _).trans hclause'
  refine ⟨a'.values, t, readUpsert_table.2 ⟨clause', r', values', hread, hvalues', ?_⟩, ?_,
    hassigned⟩
  · rw [hcopied.columns, ← ha']
    exact hassign'
  · exact ⟨hkept.cursor ▸ hr.1, fun hexact => by cases hexact⟩

/-- In an upsert that assigns what an UPDATE assigns, no reference names a column of the proposed
row. -/
theorem clear_of_copies (hpaired : (Pairing.readings false []).Paired q w.toReading)
    (h : Update.Assigns env table id f w.outer q r clause a)
    (hid : id < w.nextRange) (houter : w.OuterIssued) {a' : Assignments}
    (hupsert : readUpsert env (table.target id f') w = .ok a' t)
    (hcopies : List.Forall₂ (Expr.Copied false) a.values a'.values) :
    ∀ ref ∈ clause.values.flatMap Expr.references, table.proposes ref = false := by
  obtain ⟨hclause, values, s₁, s₂, hresolve, hassign⟩ := h
  obtain ⟨clause', r', values', hread, hresolve', hassign'⟩ := readUpsert_table.1 hupsert
  obtain ⟨clause₁, r₁, hclause₁, hcopied, -⟩ := SetClause.read_mirrors closing_nil _ _ hpaired hclause
  obtain ⟨rfl, rfl⟩ : clause₁ = clause' ∧ r₁ = r' := by
    have hread := (congrFun (SetClause.read_fragment _ (table.range id f) f') _).symm.trans hread
    cases hclause₁.symm.trans hread
    exact ⟨rfl, rfl⟩
  obtain ⟨hflat, hflat'⟩ := Expr.copied_flat hcopied.values
  have hbound := Expr.assigned_references hflat hresolve hassign
  have hbound' := Expr.assigned_references hflat' hresolve' hassign'
  rw [Expr.copied_references hcopied.values, Expr.copied_references hcopies] at hbound'
  have hraw : ∀ ref ∈ clause.values.flatMap Expr.references, ref.binding = none := by
    intro ref href
    obtain ⟨e, he, href⟩ := List.mem_flatMap.1 href
    exact ((SetClause.read_scans hclause).1 e he).references ref href
  intro ref href
  obtain ⟨ref', -, h, h'⟩ := forall₂_exists_right (forall₂_both hbound hbound') href
  exact not_proposes_of_bound (hraw ref href) hid houter h h'

end

end Insert

/-! ## Upserts after rows -/

namespace Insert

variable {env : Environment} {target : ViewTarget} {s s' t : CompilerState} {on copy : List Token}

theorem readUpsert?_run {past : List Token} (hmysql : env.config.dialect.mysql = true)
    (hon : Spells [.ON, .DUPLICATE, .KEY, .UPDATE] on) (hs : s.cursor = ⟨past, on ++ copy⟩) :
    readUpsert? env target .plain s = (do return some (← readUpsert env target))
      { s with cursor := ⟨on.reverse ++ past, copy⟩ } := by
  obtain ⟨on, _, rfl, hfirst, hspells⟩ := hon.cons
  obtain ⟨duplicate, _, rfl, hduplicate, hspells⟩ := hspells.cons
  obtain ⟨key, _, rfl, hkey, hspells⟩ := hspells.cons
  obtain ⟨update, _, rfl, hupdate, hspells⟩ := hspells.cons
  obtain rfl := hspells.nil
  have hstart : Reader.skipKeyword .ON s.cursor = _ := hs ▸ Reader.skipKeyword_present hfirst
  simp only [readUpsert?, hmysql, Bool.true_and, decide_true, Bool.true_or, ↓reduceIte]
  rw [bind_run (lift_reader_compiler_run hstart)]
  simp only [↓reduceIte]
  rw [bind_run (lift_reader_compiler_run (Reader.keyword_present hduplicate)),
    bind_run (lift_reader_compiler_run (Reader.keyword_present hkey)),
    bind_run (lift_reader_compiler_run (Reader.keyword_present hupdate))]
  rfl

/-- After the rows of an INSERT that ends there, an upsert reads its assignments and nothing
else. -/
theorem afterValues_upsert (hmysql : env.config.dialect.mysql = true) {map : ColumnMap}
    {i : InsertStatement} {c : Cursor} (hinsert : afterValues env target map s = .ok i t)
    (hplain : i.onDuplicate = none) (hfinish : Reader.finish t.cursor = .ok () c)
    (hended : ∀ x ∈ s.cursor.rest.getLast?, x.kind ≠ .symbol .semicolon)
    (hon : Spells [.ON, .DUPLICATE, .KEY, .UPDATE] on)
    (hpaired : (Pairing.states (on ++ copy)).Paired s s') :
    ∃ w, w.cursor.rest = copy ∧ Keeps s w ∧ ∀ j t, afterValues env target map s' = .ok j t ↔
      ∃ a, readUpsert env target w = .ok a t ∧
        j = { i with mode := .update, onDuplicate := some a } := by
  obtain ⟨source, u, onDuplicate, flags, hsource, hnone, hflags, rfl⟩ := afterValues_ok.1 hinsert
  obtain rfl : onDuplicate = none := hplain
  obtain rfl : t = u := by
    cases readUpsert?_ok hnone
    rfl
  obtain ⟨hkeeps, hsuffix⟩ := readRows_keeps hsource
  -- the tokens of the plain statement are read to their end, since none of them is a semicolon
  have hrest : t.cursor.rest = [] := by
    rcases Reader.finish_ok hfinish with h | ⟨semicolon, hsemicolon, h⟩
    · exact h
    · obtain ⟨before, hbefore⟩ := h ▸ hsuffix
      exact absurd hsemicolon (hended semicolon (by simp [← hbefore]))
  have hclosing : Closing (on ++ copy) := by
    obtain ⟨x, _, rfl, hx, -⟩ := hon.cons
    exact .cons (by simp [hx, closings])
  obtain ⟨_, t', hsource', rfl, ⟨hcursor, hstate⟩, -⟩ :=
    readRows_mirrors env target map none hclosing hpaired hsource
  have hcursor' : t'.cursor = ⟨t'.cursor.past, on ++ copy⟩ := by rw [← hcursor.nil hrest]
  have hupsert : readUpsert? env target .plain t' = _ := readUpsert?_run hmysql hon hcursor'
  have hw : ∀ past, Keeps s { t' with cursor := ⟨past, copy⟩ } := by
    intro past
    rw [hstate]
    exact hkeeps.trans ⟨rfl, rfl, Nat.le_refl _⟩
  refine ⟨{ t' with cursor := ⟨on.reverse ++ t'.cursor.past, copy⟩ }, rfl, hw _, fun j v => ?_⟩
  rw [afterValues_ok]
  constructor
  · rintro ⟨source', v', onDuplicate, flags', hsource'', hrun, hflags', rfl⟩
    cases hsource'.symm.trans hsource''
    cases hflags.symm.trans hflags'
    simp only [hupsert, bind_ok, pure_ok] at hrun
    obtain ⟨a, _, ha, rfl, rfl⟩ := hrun
    exact ⟨a, ha, rfl⟩
  · rintro ⟨a, ha, rfl⟩
    refine ⟨source, t', some a, flags, hsource', ?_, hflags, rfl⟩
    simp only [hupsert, bind_ok, pure_ok]
    exact ⟨a, v, ha, rfl, rfl⟩

end Insert

namespace Statement

variable {env : Environment} {table : Table} {s t : CompilerState}

theorem compile_insert {text : String} {i : InsertStatement} {x : Token} {xs : List Token}
    (htext : tokenize text = .ok (x :: xs)) (hx : x.kind = .keyword .INSERT) :
    compile env text s = .ok (.insert i) t ↔
      ∃ u c, Insert.compile env { s with cursor := .ofTokens (x :: xs) } = .ok i u ∧
        Reader.finish u.cursor = .ok () c ∧ t = { u with cursor := s.cursor } := by
  have hhead : ∀ u, compileHead env { s with cursor := .ofTokens (x :: xs) } = .ok (.insert i) u ↔
      Insert.compile env { s with cursor := .ofTokens (x :: xs) } = .ok i u := by
    intro u
    simp only [compileHead, bind_ok, get_ok]
    constructor
    · rintro ⟨_, _, ⟨rfl, rfl⟩, hrun⟩
      simp only [Cursor.ofTokens, hx, bind_ok, pure_ok] at hrun
      obtain ⟨_, _, hi, ⟨⟩, rfl⟩ := hrun
      exact hi
    · intro hi
      refine ⟨_, _, ⟨rfl, rfl⟩, ?_⟩
      simp only [Cursor.ofTokens, hx, bind_ok, pure_ok]
      exact ⟨i, u, hi, rfl, rfl⟩
  simp only [compile_iff htext, hhead]

end Statement

/-! ## Texts -/

/-- Tokens that name a base table between keywords. -/
inductive Opening (env : Environment) (table : Table) (before after : List Keyword) :
    List Token → Prop
  | intro {words names words' : List Token} {name : QualifiedName} {fragment : Fragment}
      (hwords : Spells before words) (hnames : NameTokens names name fragment)
      (hwords' : Spells after words')
      (hbase : env.catalog.relation? (name.schemaOr env.config.defaultSchema) name.name =
        some (.table table)) :
      Opening env table before after (words ++ (names ++ words'))

/-- The texts of an UPDATE of a base table, of an INSERT of rows into it, and of the upsert that is
made of both. The assignments have neither a subquery nor VALUES. -/
structure UpsertTexts (env : Environment) (table : Table) (update insert upsert : String) where
  {head list into rows on copy : List Token}
  update_tokens : tokenize update = .ok (head ++ list)
  insert_tokens : tokenize insert = .ok (into ++ rows)
  upsert_tokens : tokenize upsert = .ok (into ++ (rows ++ (on ++ copy)))
  head_opens : Opening env table [.UPDATE] [.SET] head
  into_opens : Opening env table [.INSERT, .INTO] [.VALUES] into
  on_spells : Spells [.ON, .DUPLICATE, .KEY, .UPDATE] on
  listed : ∀ x ∈ list, x.inList = true
  copied : copy.map (fun x => (x.kind, x.text)) = list.map fun x => (x.kind, x.text)
  open_ended : ∀ x ∈ rows.getLast?, x.kind ≠ .symbol .semicolon

theorem UpsertTexts.copies {env : Environment} {table : Table} {update insert upsert : String}
    (texts : UpsertTexts env table update insert upsert) :
    List.Forall₂ (Token.Copied false) texts.list texts.copy := by
  have hsame : List.Forall₂ (fun x x' : Token => (x.kind, x.text) = (x'.kind, x'.text)) texts.list
      texts.copy :=
    List.forall₂_map_left_iff.1 (List.forall₂_map_right_iff.1
      (List.forall₂_eq_eq_eq ▸ texts.copied.symm))
  refine forall₂_imp_mem hsame fun x hx x' _ h => ?_
  obtain ⟨hkind, htext⟩ := Prod.mk.inj h
  exact ⟨hkind.symm, htext.symm, fun hexact => (by cases hexact), fun _ => texts.listed x hx⟩

namespace Statement

variable {env : Environment} {table : Table} {update insert upsert : String} {s t : CompilerState}

/-- An upsert compiles as its INSERT does, with the assignments that it reads at the end. -/
theorem upsert_runs (texts : UpsertTexts env table update insert upsert)
    (hmysql : env.config.dialect.mysql = true) {i : InsertStatement}
    (hinsert : compile env insert s = .ok (.insert i) t) (hplain : i.onDuplicate = none) :
    ∃ f w, w.cursor.rest = texts.copy ∧ w.outer = s.outer ∧ s.nextRange < w.nextRange ∧
      ∀ j t, compile env upsert s = .ok (.insert j) t ↔
        ∃ a u c, Insert.readUpsert env (table.target s.nextRange f) w = .ok a u ∧
          Reader.finish u.cursor = .ok () c ∧
          j = { i with mode := .update, onDuplicate := some a } ∧
          t = { u with cursor := s.cursor } := by
  have hrows := texts.insert_tokens
  have hupsert := texts.upsert_tokens
  generalize hinto : texts.into = into at hrows hupsert
  cases hinto ▸ texts.into_opens with
  | @intro words names words' name f hwords hnames hwords' hbase =>
  obtain ⟨x, _, rfl, hx, hwords⟩ := hwords.cons
  obtain ⟨y, _, rfl, hy, hwords⟩ := hwords.cons
  obtain rfl := hwords.nil
  obtain ⟨z, _, rfl, hz, hwords'⟩ := hwords'.cons
  obtain rfl := hwords'.nil
  simp only [List.cons_append, List.nil_append, List.append_assoc] at hrows hupsert
  -- both texts are read alike up to VALUES; what comes after is what they differ in
  let before : List Token → CompilerState := fun more =>
    { s with cursor := ⟨z :: (names.reverse ++ [y, x]), more⟩, nextRange := s.nextRange + 1 }
  have htable : ∀ more, Insert.compile env
      { s with cursor := .ofTokens (x :: y :: (names ++ z :: more)) } =
        Insert.afterValues env (table.target s.nextRange f) (.all table.columns.length)
          (before more) :=
    fun more => Insert.compile_table hmysql hx hy hz hnames hbase rfl
  have hpaired : (Pairing.states (texts.on ++ texts.copy)).Paired (before texts.rows)
      (before (texts.rows ++ (texts.on ++ texts.copy))) :=
    ⟨Cursor.Copied.exact_iff.2 rfl, rfl⟩
  obtain ⟨u, c, hrun, hfinish, -⟩ := (compile_insert hrows hx).1 hinsert
  rw [htable] at hrun
  obtain ⟨w, hcopy, hkeeps, hiff⟩ := Insert.afterValues_upsert hmysql hrun hplain hfinish
    texts.open_ended texts.on_spells hpaired
  refine ⟨f, w, hcopy, hkeeps.outer, hkeeps.ranges, fun j t => ?_⟩
  simp only [compile_insert hupsert hx, htable, hiff]
  constructor
  · rintro ⟨u, c, ⟨a, ha, rfl⟩, hend, rfl⟩
    exact ⟨a, u, c, ha, hend, rfl, rfl⟩
  · rintro ⟨a, u, c, ha, hend, rfl, rfl⟩
    exact ⟨u, c, ⟨a, ha, rfl⟩, hend, rfl⟩

/-- The assignments of an UPDATE, of which the upsert has a copy. -/
theorem update_runs (texts : UpsertTexts env table update insert upsert) {u : UpdateStatement}
    (hupdate : compile env update s = .ok (.update u) t) :
    ∃ f past clause r c, Reader.finish r.cursor = .ok () c ∧
      Update.Assigns env table s.nextRange f s.outer ⟨⟨past, texts.list⟩, s.parameters⟩ r clause
        u.assignments := by
  have hlist := texts.update_tokens
  generalize hhead : texts.head = head at hlist
  cases hhead ▸ texts.head_opens with
  | @intro words names words' name f hwords hnames hwords' hbase =>
  obtain ⟨x, _, rfl, hx, hwords⟩ := hwords.cons
  obtain rfl := hwords.nil
  obtain ⟨y, _, rfl, hy, hwords'⟩ := hwords'.cons
  obtain rfl := hwords'.nil
  simp only [List.cons_append, List.nil_append, List.append_assoc] at hlist
  obtain ⟨tokens, v, c, htokens, hrun, hfinish, -⟩ := compile_ok hupdate
  cases hlist.symm.trans htokens
  obtain ⟨_, _, -, hrun⟩ := compileHead_ok hrun
  cases hrun with
  | update _ hcompile =>
    obtain ⟨past, clause, r, hend, hassigns⟩ :=
      Update.compile_table hx hy hnames hbase texts.listed rfl hcompile
    exact ⟨f, past, clause, r, c, hend ▸ hfinish, hassigns⟩

/-- Where an UPDATE of a base table and an INSERT of rows into it compile, the upsert made of both
compiles with the same rows and the same assignments, expression by expression, exactly if none of
their references names a column of the proposed row. -/
theorem upsert_compiles_iff (texts : UpsertTexts env table update insert upsert)
    (hmysql : env.config.dialect.mysql = true) (houter : s.OuterIssued) {u : UpdateStatement}
    {i : InsertStatement} {s₁ s₂ : CompilerState}
    (hupdate : compile env update s = .ok (.update u) s₁)
    (hinsert : compile env insert s = .ok (.insert i) s₂) (hplain : i.onDuplicate = none) :
    (∃ values t, compile env upsert s = .ok (.insert { i with
          mode := .update, onDuplicate := some { u.assignments with values := values } }) t ∧
        List.Forall₂ (Expr.Copied false) u.assignments.values values) ↔
      ∀ e ∈ u.assignments.values, ∀ ref ∈ e.references, table.proposes ref = false := by
  obtain ⟨f, past, clause, r, c, hfinish, hassigns⟩ := update_runs texts hupdate
  obtain ⟨f', w, hcopy, hsame, hid, hruns⟩ := upsert_runs texts hmysql hinsert hplain
  have hpaired : (Pairing.readings false []).Paired ⟨⟨past, texts.list⟩, s.parameters⟩
      w.toReading :=
    ⟨⟨texts.copy, texts.copies, by simp [hcopy]⟩, fun hexact => by cases hexact⟩
  rw [← hsame] at hassigns
  rw [← Insert.clear_iff hpaired hassigns]
  constructor
  · rintro ⟨values, t, hcompile, hcopies⟩
    obtain ⟨a, v, _, hread, -, hstored, -⟩ := (hruns _ _).1 hcompile
    have ha : { u.assignments with values := values } = a :=
      Option.some.inj (congrArg InsertStatement.onDuplicate hstored)
    refine Insert.clear_of_copies hpaired hassigns hid ?_ hread (ha ▸ hcopies)
    intro group hgroup range hrange
    exact Nat.lt_trans (houter group (hsame ▸ hgroup) range hrange) hid
  · intro hclear
    obtain ⟨values, v, hread, hend, hcopies⟩ := Insert.readUpsert_copies hpaired hassigns hclear
    obtain ⟨_, d, hd, -⟩ := Reader.finish_mirrors hend.1 hfinish
    exact ⟨values, _, (hruns _ _).2 ⟨_, v, d, hread, hd, rfl, rfl⟩, hcopies⟩

/-! ### Two upserts of the bank -/

/-- The bank with the extensions of MySQL. -/
def mysqlBank : Environment :=
  ⟨Catalog.Banking.catalog, .mysql⟩

/-- The table `t` of the bank. -/
def bankTable : Table :=
  Catalog.Banking.table 2 Catalog.Banking.publicSchema "t"
    (Catalog.Banking.integerColumns ["id", "a", "b"])

/-- The UPDATE that a statement is. -/
def update? : Statement → Option UpdateStatement
  | .update u => some u
  | _ => none

/-- The INSERT that a statement is. -/
def insert? : Statement → Option InsertStatement
  | .insert i => some i
  | _ => none

theorem eq_of_update? {statement : Statement} {u : UpdateStatement}
    (h : statement.update? = some u) : statement = .update u := by
  cases statement <;> cases h
  rfl

theorem eq_of_insert? {statement : Statement} {i : InsertStatement}
    (h : statement.insert? = some i) : statement = .insert i := by
  cases statement <;> cases h
  rfl

def qualifiedUpdate : String :=
  "UPDATE t SET a = t.b"

def bankInsert : String :=
  "INSERT INTO t VALUES (1, 2, 3)"

def qualifiedUpsert : String :=
  "INSERT INTO t VALUES (1, 2, 3) ON DUPLICATE KEY UPDATE a = t.b"

set_option maxRecDepth 10000 in
def qualifiedTexts :
    UpsertTexts mysqlBank bankTable qualifiedUpdate bankInsert qualifiedUpsert where
  head := [tokenAt qualifiedUpdate rfl 0] ++
    ([tokenAt qualifiedUpdate rfl 1] ++ [tokenAt qualifiedUpdate rfl 2])
  list := (scanned qualifiedUpdate rfl).drop 3
  into := [tokenAt bankInsert rfl 0, tokenAt bankInsert rfl 1] ++
    ([tokenAt bankInsert rfl 2] ++ [tokenAt bankInsert rfl 3])
  rows := (scanned bankInsert rfl).drop 4
  on := ((scanned qualifiedUpsert rfl).drop 11).take 4
  copy := (scanned qualifiedUpsert rfl).drop 15
  update_tokens := tokenize_eq rfl (by decide +kernel)
  insert_tokens := tokenize_eq rfl (by decide +kernel)
  upsert_tokens := tokenize_eq rfl (by decide +kernel)
  head_opens := .intro (by decide +kernel) (.plain (by decide +kernel)) (by decide +kernel)
    (by decide +kernel)
  into_opens := .intro (by decide +kernel) (.plain (by decide +kernel)) (by decide +kernel)
    (by decide +kernel)
  on_spells := by decide +kernel
  listed := by decide +kernel
  copied := by decide +kernel
  open_ended := by decide +kernel

set_option maxRecDepth 10000 in
theorem bankInsert_compiles : ∃ i s, compile mysqlBank bankInsert .initial = .ok (.insert i) s ∧
    i.onDuplicate = none := by
  obtain ⟨_, s, hinsert, hchecked⟩ := exists_compile mysqlBank bankInsert
    (fun statement => statement.insert?.any fun i => i.onDuplicate.isNone) rfl (by decide +kernel)
  obtain ⟨i, hi, hplain⟩ := (Option.any_eq_true _ _).1 hchecked
  exact ⟨i, s, eq_of_insert? hi ▸ hinsert, Option.isNone_iff_eq_none.1 hplain⟩

set_option maxRecDepth 10000 in
theorem upsert_compiles_iff_qualified :
    ∃ u i values s₁ s₂ t, compile mysqlBank qualifiedUpdate .initial = .ok (.update u) s₁ ∧
      compile mysqlBank bankInsert .initial = .ok (.insert i) s₂ ∧
      compile mysqlBank qualifiedUpsert .initial = .ok (.insert { i with
        mode := .update, onDuplicate := some { u.assignments with values := values } }) t ∧
      List.Forall₂ (Expr.Copied false) u.assignments.values values := by
  obtain ⟨_, s₁, hupdate, hchecked⟩ := exists_compile mysqlBank qualifiedUpdate
    (fun statement => statement.update?.any fun u => u.assignments.values.all fun e =>
      e.references.all fun ref => !bankTable.proposes ref) rfl (by decide +kernel)
  obtain ⟨u, hu, hclear⟩ := (Option.any_eq_true _ _).1 hchecked
  obtain rfl := eq_of_update? hu
  obtain ⟨i, s₂, hinsert, hplain⟩ := bankInsert_compiles
  obtain ⟨values, t, hupsert, hcopies⟩ := (upsert_compiles_iff qualifiedTexts rfl
    CompilerState.initial_outerIssued hupdate hinsert hplain).2 (by simpa using hclear)
  exact ⟨u, i, values, s₁, s₂, t, hupdate, hinsert, hupsert, hcopies⟩

set_option maxRecDepth 10000 in
/-- An unqualified reference means nothing in the upsert, though it does in the UPDATE. -/
theorem unqualified_ambiguous :
    (∃ u s, compile mysqlBank "UPDATE t SET a = b" .initial = .ok (.update u) s) ∧
      (∃ i s, compile mysqlBank bankInsert .initial = .ok (.insert i) s ∧ i.onDuplicate = none) ∧
      ∃ s, compile mysqlBank (bankInsert ++ " ON DUPLICATE KEY UPDATE a = b") .initial =
        .error (.rejected ⟨.ambiguousReference "b", .written "b" 1 60⟩) s := by
  obtain ⟨_, s, hupdate, hchecked⟩ := exists_compile mysqlBank "UPDATE t SET a = b"
    (fun statement => statement.update?.isSome) rfl (by decide +kernel)
  obtain ⟨u, hu⟩ := Option.isSome_iff_exists.1 hchecked
  exact ⟨⟨u, s, eq_of_update? hu ▸ hupdate⟩, bankInsert_compiles,
    exists_failure _ _ _ (append_eq_ofList rfl rfl) (by decide +kernel)⟩

end Statement

end DataChange
