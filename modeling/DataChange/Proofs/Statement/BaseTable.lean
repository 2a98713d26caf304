import DataChange.Proofs.Copy.Clauses
import DataChange.Proofs.Copy.Resolved
import DataChange.Proofs.Marker.Clauses
import DataChange.Proofs.Statement.CompileRuns
import DataChange.Proofs.Statement.InsertRuns
import DataChange.Proofs.Token.Yields
import DataChange.Proofs.View.Written

/-!
# Statements against a base table

What an INSERT of rows and an UPDATE do whose tokens name a base table: nothing is moved on the way,
and what remains is to read and resolve the rows (`Insert.compile_table`) or the assignments
(`Update.compile_table`). The rows are the same when an upsert follows them
(`Insert.readRows_mirrors`).
-/

namespace DataChange

theorem lift_reader_compiler_run {α : Type} {x : Reader α} {s : CompilerState} {a : α} {c : Cursor}
    (h : x s.cursor = .ok a c) : (liftM x : Compiler α) s = .ok a { s with cursor := c } :=
  lift_reader_compiler_ok.2 ⟨c, h, rfl⟩

/-! ## Reading known tokens -/

namespace Reader

variable {past ts : List Token} {t : Token}

theorem identifier_run (h : t.isIdentifier = true) :
    identifier ⟨past, t :: ts⟩ = .ok t ⟨t :: past, ts⟩ := by
  show (if t.isIdentifier then next else throw (.unexpected .identifier t.fragment) : Reader Token)
    ⟨past, t :: ts⟩ = _
  rw [if_pos h]
  exact next_run

end Reader

/-- Tokens that name a relation, with the name and where it stands. -/
inductive NameTokens : List Token → QualifiedName → Fragment → Prop
  | plain {x : Token} (hx : x.isIdentifier = true) :
      NameTokens [x] (.unqualified x.text) x.fragment
  | qualified {q dot x : Token} (hq : q.isIdentifier = true) (hdot : dot.kind = .symbol .dot)
      (hx : x.isIdentifier = true) :
      NameTokens [q, dot, x] ⟨some q.text, x.text⟩ (q.fragment.withText (q.text ++ "." ++ x.text))

/-- A name is read as long as no dot goes on with it. -/
theorem NameTokens.read_lacks {names past ts : List Token} {name : QualifiedName}
    {fragment : Fragment} (h : NameTokens names name fragment) (hts : Lacks (.symbol .dot) ts) :
    Reader.qualifiedName ⟨past, names ++ ts⟩ = .ok (name, fragment) ⟨names.reverse ++ past, ts⟩ := by
  cases h with
  | plain hx =>
    rw [Reader.qualifiedName, List.cons_append, List.nil_append,
      bind_run (Reader.identifier_run hx)]
    simp only [bind_ok, get_ok]
    refine ⟨_, _, ⟨rfl, rfl⟩, ?_⟩
    rcases ts with _ | ⟨t, _ | ⟨t', ts⟩⟩
    · rfl
    · rfl
    · have hdot : t.isSymbol .dot = false := by simpa [Token.isSymbol] using hts t rfl
      simp only [hdot, Bool.false_and, Bool.false_eq_true, ↓reduceIte]
      rfl
  | @qualified q dot x hq hdot hx =>
    rw [Reader.qualifiedName, List.cons_append, bind_run (Reader.identifier_run hq)]
    simp only [bind_ok, get_ok]
    refine ⟨_, _, ⟨rfl, rfl⟩, ?_⟩
    have hsymbol : dot.isSymbol .dot = true := by simp [Token.isSymbol, hdot]
    simp only [List.cons_append, List.nil_append, hsymbol, hx, Bool.and_self, ↓reduceIte]
    rfl

/-- A name is read up to a keyword. -/
theorem NameTokens.read {names past ts : List Token} {name : QualifiedName} {fragment : Fragment}
    (h : NameTokens names name fragment) {t : Token} {k : Keyword} (ht : t.kind = .keyword k) :
    Reader.qualifiedName ⟨past, names ++ t :: ts⟩ =
      .ok (name, fragment) ⟨names.reverse ++ past, t :: ts⟩ :=
  h.read_lacks (.cons (by simp [ht]))

/-! ## Base tables -/

/-- The range over a base table that a statement names. -/
def Table.range (table : Table) (id : Nat) (fragment : Fragment) : Range :=
  .ofRelation id (.table table) none fragment

/-- Where a statement against a base table lands. -/
def Table.target (table : Table) (id : Nat) (fragment : Fragment) : ViewTarget where
  written := table.range id fragment
  relation := .table table
  range := table.range id fragment
  columnMap := List.range table.columns.length
  filter := none

theorem Table.isMoved_target {table : Table} {id : Nat} {fragment : Fragment} :
    (table.target id fragment).isMoved = false := by
  simp [ViewTarget.isMoved, Table.target]

/-- Nothing is moved where no view is passed. -/
theorem Table.moved_target {table : Table} {id : Nat} {fragment : Fragment} (e : Expr) :
    (table.target id fragment).moved e = some e := by
  simp [ViewTarget.moved, Table.isMoved_target]

section

variable {env : Environment} {table : Table} {s : CompilerState}

theorem ViewTarget.resolve_table {id : Nat} {fragment : Fragment} {operation : Operation} :
    ViewTarget.resolve env (table.range id fragment) operation s =
      .ok (table.target id fragment) s := by
  have hcolumns : (table.range id fragment).columns.length = table.columns.length :=
    List.length_map _
  simp only [ViewTarget.resolve, hcolumns]
  rfl

theorem Range.readTarget_table {names ts past : List Token} {name : QualifiedName}
    {fragment : Fragment} {t : Token} {k : Keyword} {operation : Operation}
    (hnames : NameTokens names name fragment) (ht : t.kind = .keyword k) (hk : k ≠ .AS)
    (hbase : env.catalog.relation? (name.schemaOr env.config.defaultSchema) name.name =
      some (.table table)) (hs : s.cursor = ⟨past, names ++ t :: ts⟩) :
    readTarget env operation s = .ok (table.range s.nextRange fragment)
      { s with cursor := ⟨names.reverse ++ past, t :: ts⟩, nextRange := s.nextRange + 1 } := by
  have hname : Reader.qualifiedName s.cursor = _ := hs ▸ hnames.read ht
  have hrelation : env.relation name fragment = .ok (.table table) := by
    simp only [Environment.relation, hbase]
  -- a base table accepts every operation, so the name is all that is read of it
  have hrange : ∀ u : CompilerState, (do
      let range ← named env name none fragment
      range.checkAccepts operation
      return range : Compiler Range) u =
        .ok (table.range u.nextRange fragment) { u with nextRange := u.nextRange + 1 } := by
    intro u
    simp only [named, hrelation]
    rfl
  have has : Reader.asName? ⟨names.reverse ++ past, t :: ts⟩ =
      .ok none ⟨names.reverse ++ past, t :: ts⟩ := by
    rw [Reader.asName?, bind_run (Reader.skipKeyword_other ht hk)]
    simp only [Bool.false_eq_true, ↓reduceIte, bind_ok, get_ok]
    exact ⟨_, _, ⟨rfl, rfl⟩, by simp [ht, pure_ok]⟩
  rw [readTarget, bind_run (lift_reader_compiler_run hname)]
  cases operation
  case insert | truncate => exact hrange _
  all_goals
    dsimp only
    rw [bind_run (lift_reader_compiler_run has)]
    exact hrange _

end

/-! ## INSERT into a base table -/

namespace ColumnMap

/-- A map that is in range stays itself when nothing is moved. -/
theorem project_range {m : ColumnMap} {n : Nat} (h : ∀ i ∈ m.ordinals, i < n) :
    m.project (List.range n) = some m := by
  obtain ⟨ordinals⟩ := m
  have hmap : ordinals.mapM (fun i => (List.range n)[i]?) = some ordinals := by
    induction ordinals with
    | nil => rfl
    | cons i is ih =>
      have hi : (List.range n)[i]? = some i := by simp [h i (by simp)]
      simp [List.mapM_cons, hi, ih fun j hj => h j (by simp [hj])]
  simp [project, hmap]

end ColumnMap

namespace Insert

variable {env : Environment} {table : Table} {s : CompilerState}

/-! ### Rows -/

section

variable {P : Pairing CompilerState} {columns : List Column} {more : List Token}

theorem insertCells_mirrors (overriding : Option OverridingKind) (cells : List Expr)
    (ordinals : List Nat) :
    Mirrors P 0 (· = ·) (ColumnPolicy.insertCells columns overriding cells ordinals)
      (ColumnPolicy.insertCells columns overriding cells ordinals) := by
  induction cells generalizing ordinals with
  | nil => exact .pure rfl
  | cons cell cells ih =>
    cases ordinals with
    | nil => exact .pure rfl
    | cons ordinal ordinals =>
      simp only [ColumnPolicy.insertCells]
      refine (Mirrors.inRange _).bind fun column _ hcolumn => ?_
      subst hcolumn
      refine (Mirrors.lift_except (R := (· = ·)) fun c hc => ⟨c, hc, rfl⟩).bind fun c _ hc => ?_
      subst hc
      exact (ih ordinals).bind fun cs _ hcs => .pure (by rw [hcs])

theorem insertRows_mirrors (map : ColumnMap) (overriding : Option Overriding) (rows : List Expr) :
    Mirrors P 0 (· = ·) (ColumnPolicy.insertRows columns map overriding rows)
      (ColumnPolicy.insertRows columns map overriding rows) := by
  have hrow : ∀ row : Expr,
      Mirrors P 0 (· = ·) (ColumnPolicy.insertRow columns map (overriding.map (·.kind)) row)
        (ColumnPolicy.insertRow columns map (overriding.map (·.kind)) row) := by
    intro row
    unfold ColumnPolicy.insertRow
    split
    · exact (insertCells_mirrors _ _ _).bind fun cells _ hcells => .pure (by rw [hcells])
    · exact .reject _
  refine (Mirrors.lift_except (R := (· = ·)) fun a ha => ⟨a, ha, rfl⟩).bind fun _ _ _ => ?_
  have hsame : List.Forall₂ (· = ·) rows rows := List.forall₂_same.2 fun _ _ => rfl
  refine (Mirrors.mapM (S := (· = ·)) hsame fun row _ row' heq => ?_).imp ?_
  · subst heq
    exact hrow row
  · exact fun rows rows' hrows => List.forall₂_eq_eq_eq ▸ hrows

/-- The rows of an INSERT are the same when an upsert follows. -/
theorem readRows_mirrors (env : Environment) (target : ViewTarget) (map : ColumnMap)
    (overriding : Option Overriding) (hmore : Closing more) :
    Mirrors (.states more) 0 (· = ·) (readRows env target map overriding)
      (readRows env target map overriding) := by
  refine ((Rows.read_mirrors hmore map.length).lift_parsing.mono (Nat.zero_le _)).bind
    fun r r' hr => ?_
  obtain ⟨rows, f⟩ := r
  obtain ⟨rows', f'⟩ := r'
  obtain ⟨hrows, hf⟩ := hr
  obtain rfl : f = f' := (hf rfl).symm
  obtain rfl : rows = rows' :=
    List.forall₂_eq_eq_eq ▸ hrows.imp fun _ _ hrow => hrow.eq.symm
  refine Mirrors.outerGroups.bind fun outer _ houter => ?_
  subst houter
  have hcopied : (Expr.untyped (.values rows) f).Copied true (.untyped (.values rows) f) :=
    .intro (.values hrows) fun _ => rfl
  have hresolve : Mirrors (.states more) 0 (Expr.Copied true)
      ((Expr.untyped (.values rows) f).resolve env (.outerOnly outer))
      ((Expr.untyped (.values rows) f).resolve env (.outerOnly outer)) :=
    Expr.resolveWith_mirrors (fun _ => ⟨rfl, fun body outer => .onTokens body _⟩) hcopied
      (.of_forall (fun _ ref _ => .refl _ ref) _)
  refine hresolve.bind fun values values' hvalues => ?_
  rw [hvalues.eq]
  split
  · refine (insertRows_mirrors map overriding _).bind fun rows _ hrows => ?_
    subst hrows
    exact .pure rfl
  · exact .reject _

end

/-- Reading rows hands out ids and leaves some of the tokens. -/
theorem readRows_keeps {target : ViewTarget} {map : ColumnMap} {overriding : Option Overriding}
    {source : InsertSource} {t : CompilerState}
    (h : readRows env target map overriding s = .ok source t) :
    Keeps s t ∧ t.cursor.rest <:+ s.cursor.rest := by
  simp only [readRows, bind_ok, outerGroups_ok, Prod.exists] at h
  obtain ⟨rows, fragment, u, hrows, _, _, ⟨rfl, rfl⟩, values, v, hresolve, h⟩ := h
  have hresolves := Expr.resolveWith_resolves (Query.compileTokens_resolves env) hresolve
  have hend : v = t := by
    obtain ⟨m, hm, h⟩ := run_eq h
    split at hm
    · subst hm
      simp only [bind_ok, pure_ok] at h
      obtain ⟨_, _, hinsert, -, rfl⟩ := h
      exact (insertRows_ok hinsert).1.symm
    · subst hm
      exact (reject_ok.1 h).elim
  subst hend
  obtain ⟨r, hr, rfl⟩ := lift_parser_ok.1 hrows
  obtain ⟨⟨-, xs, hscan⟩, -⟩ := Rows.read_scans hr
  exact ⟨(parser_keeps hrows).trans hresolves.toKeeps, hresolves.cursor ▸ hscan.suffix⟩

theorem readMode_run {insert into : Token} {past ts : List Token}
    (hinsert : insert.kind = .keyword .INSERT) (hinto : into.kind = .keyword .INTO) :
    readMode true ⟨past, insert :: into :: ts⟩ = .ok .plain ⟨into :: insert :: past, ts⟩ := by
  simp only [readMode]
  rw [bind_run (Reader.skipKeyword_other hinsert (by decide))]
  simp only [Bool.false_eq_true, ↓reduceIte]
  rw [bind_run (Reader.keyword_present hinsert), bind_run (Reader.skipKeyword_other hinto (by decide))]
  simp only [Bool.false_eq_true, ↓reduceIte, pure_bind]
  exact bind_run (Reader.ofKind?_present hinto)

/-- What an INSERT into all columns does after VALUES. -/
def afterValues (env : Environment) (target : ViewTarget) (map : ColumnMap) :
    Compiler InsertStatement := do
  let source ← readRows env target map none
  let onDuplicate ← readUpsert? env target .plain
  return {
    target := target.relation
    mode := if onDuplicate.isSome then .update else .plain
    columnMap := map
    checkList := ← target.checkList map
    source := source
    overrideIndex := none
    onDuplicate := onDuplicate
    writeTables := [target.relation.qualifiedName] }

theorem afterValues_ok {target : ViewTarget} {map : ColumnMap} {i : InsertStatement}
    {t : CompilerState} : afterValues env target map s = .ok i t ↔
      ∃ source v onDuplicate flags, readRows env target map none s = .ok source v ∧
        readUpsert? env target .plain v = .ok onDuplicate t ∧
        map.checkList target.relation.columns.length = some flags ∧
        i = ⟨target.relation, if onDuplicate.isSome then .update else .plain, map, flags, source,
          none, onDuplicate, [target.relation.qualifiedName]⟩ := by
  simp only [afterValues, ViewTarget.checkList, bind_ok, inRange_ok, pure_ok]
  constructor
  · rintro ⟨source, v, hsource, onDuplicate, _, hupsert, flags, _, ⟨hflags, rfl⟩, rfl, rfl⟩
    exact ⟨source, v, onDuplicate, flags, hsource, hupsert, hflags, rfl⟩
  · rintro ⟨source, v, onDuplicate, flags, hsource, hupsert, hflags, rfl⟩
    exact ⟨source, v, hsource, onDuplicate, t, hupsert, flags, t, ⟨hflags, rfl⟩, rfl, rfl⟩

theorem readColumns_run {values : Token} {past ts : List Token} {oracle : Bool} {range : Range}
    (hvalues : values.kind = .keyword .VALUES) :
    readColumns oracle range ⟨past, values :: ts⟩ =
      .ok (.all range.columns.length) ⟨past, values :: ts⟩ := by
  have hopen : Cursor.isSymbol ⟨past, values :: ts⟩ .openParen = false := by
    simp [Cursor.isSymbol, Cursor.peek?, Token.isSymbol, hvalues]
  simp only [readColumns, bind_ok, get_ok]
  exact ⟨_, _, ⟨rfl, rfl⟩, by simp [hopen, pure_ok]⟩

theorem readOverriding_run {values : Token} {past ts : List Token}
    (hvalues : values.kind = .keyword .VALUES) :
    Overriding.read? ⟨past, values :: ts⟩ = .ok none ⟨past, values :: ts⟩ := by
  refine bind_ok.2 ⟨none, _, Reader.ofKind?_absent fun t' ts' ht => ?_, rfl⟩
  obtain ⟨rfl, -⟩ := List.cons.inj ht
  simp [hvalues]

theorem skipValues_run {values : Token} {past ts : List Token} {mysql : Bool}
    (hvalues : values.kind = .keyword .VALUES) :
    skipValues mysql ⟨past, values :: ts⟩ = .ok true ⟨values :: past, ts⟩ :=
  bind_ok.2 ⟨true, _, Reader.skipKeyword_present hvalues, rfl⟩

theorem compile_table {insert into values : Token} {names rows past : List Token}
    {name : QualifiedName} {fragment : Fragment} (hmysql : env.config.dialect.mysql = true)
    (hinsert : insert.kind = .keyword .INSERT) (hinto : into.kind = .keyword .INTO)
    (hvalues : values.kind = .keyword .VALUES) (hnames : NameTokens names name fragment)
    (hbase : env.catalog.relation? (name.schemaOr env.config.defaultSchema) name.name =
      some (.table table))
    (hs : s.cursor = ⟨past, insert :: into :: (names ++ values :: rows)⟩) :
    compile env s = afterValues env (table.target s.nextRange fragment)
      (.all table.columns.length)
      { s with
        cursor := ⟨values :: (names.reverse ++ into :: insert :: past), rows⟩
        nextRange := s.nextRange + 1 } := by
  have hmode : readMode env.config.dialect.mysql s.cursor = _ :=
    hmysql ▸ hs ▸ readMode_run hinsert hinto
  -- a base table has no view to pass, so its column map is the list of its ordinals
  have hproject : ∀ u : CompilerState, (table.target s.nextRange fragment).project
      (.all (table.range s.nextRange fragment).columns.length) u =
        .ok (.all table.columns.length) u := by
    intro u
    have hcolumns : (table.range s.nextRange fragment).columns.length = table.columns.length :=
      List.length_map _
    refine inRange_ok.2 ⟨?_, rfl⟩
    rw [hcolumns]
    exact ColumnMap.project_range fun i hi => by simpa [ColumnMap.all] using hi
  rw [compile, bind_run (lift_reader_compiler_run hmode),
    bind_run (Range.readTarget_table hnames hvalues (by decide) hbase rfl),
    bind_run ViewTarget.resolve_table,
    bind_run (lift_reader_compiler_run (Reader.skipKeyword_other hvalues (by decide)))]
  simp only [Bool.false_eq_true, ↓reduceIte]
  rw [bind_run (lift_reader_compiler_run (readColumns_run hvalues)), bind_run (hproject _),
    bind_run (lift_reader_compiler_run (readOverriding_run hvalues)), readSource,
    bind_assoc, bind_run (lift_reader_compiler_run (skipValues_run hvalues))]
  simp only [↓reduceIte, bind_assoc, pure_bind]
  rfl

end Insert

/-! ## UPDATE of a base table -/

namespace Update

variable {env : Environment} {table : Table} {s t : CompilerState}

theorem skipKeyword_listed {k : Keyword} (hk : ∀ x : Token, x.kind = .keyword k → x.inList = false)
    (hs : ∀ x ∈ s.cursor.rest, x.inList = true) {found : Bool}
    (h : (liftM (Reader.skipKeyword k) : Compiler Bool) s = .ok found t) :
    found = false ∧ t = s := by
  have habsent : Reader.skipKeyword k s.cursor = .ok false s.cursor := by
    refine Reader.skipKeyword_absent fun x xs hx hkind => ?_
    simpa [hk x hkind] using hs x (by simp [hx])
  cases (lift_reader_compiler_run habsent).symm.trans h
  exact ⟨rfl, rfl⟩

/-- What a SET clause leaves is of the tokens that it is read from. -/
theorem readClause_listed {mysql : Bool} {range : Range} {r r' : Reading} {clause : SetClause}
    (hr : ∀ x ∈ r.cursor.rest, x.inList = true)
    (h : SetClause.read mysql range r = .ok clause r') : ∀ x ∈ r'.cursor.rest, x.inList = true := by
  have hself : List.Forall₂ (Token.Copied false) r.cursor.rest r.cursor.rest :=
    List.forall₂_same.2 fun x hx => ⟨rfl, rfl, fun _ => rfl, fun _ => hr x hx⟩
  have hpaired : (Pairing.readings false []).Paired r r :=
    ⟨⟨_, hself, (List.append_nil _).symm⟩, fun _ => rfl⟩
  obtain ⟨_, _, -, -, hpaired', -⟩ := SetClause.read_mirrors closing_nil _ _ hpaired h
  exact hpaired'.1.listed

/-- No condition and no slice begins among the tokens of a SET clause. -/
theorem readCondition_listed (hs : ∀ x ∈ s.cursor.rest, x.inList = true)
    {condition : Option Expr} (h : Query.readCondition s = .ok condition t) :
    condition = none ∧ t = s := by
  simp only [Query.readCondition, bind_ok] at h
  obtain ⟨found, u, hfound, h⟩ := h
  obtain ⟨rfl, rfl⟩ := skipKeyword_listed (fun x hx => by simp [Token.inList, hx]) hs hfound
  obtain ⟨rfl, rfl⟩ := pure_ok.1 h
  exact ⟨rfl, rfl⟩

theorem slice_listed (hs : ∀ x ∈ s.cursor.rest, x.inList = true) {slice : Option Slice}
    {ranges : List Range} (h : Slice.read? env ranges s = .ok slice t) : t = s := by
  obtain ⟨found, u, orderBy, v, hfound, hkeys, hbounds⟩ := Slice.read?_ok h
  obtain ⟨rfl, rfl⟩ := skipKeyword_listed (fun x hx => by simp [Token.inList, hx]) hs hfound
  obtain ⟨rfl, rfl⟩ := pure_ok.1 hkeys
  cases hbounds with
  | none _ hlimit =>
    exact (skipKeyword_listed (fun x hx => by simp [Token.inList, hx]) hs hlimit).2
  | some hlimit =>
    cases (skipKeyword_listed (fun x hx => by simp [Token.inList, hx]) hs hlimit).1

/-- The steps of the assignments of an UPDATE of a base table within some enclosing scopes. -/
structure Assigns (env : Environment) (table : Table) (id : Nat) (f : Fragment)
    (outer : List RangeGroup) (q r : Reading) (clause : SetClause) (a : Assignments) : Prop where
  read : SetClause.read env.config.dialect.mysql (table.range id f) q = .ok clause r
  resolved : ∃ values s t, clause.values.mapM (fun value =>
      value.resolve env ⟨[table.range id f], outer⟩) s = .ok values t ∧
    (table.target id f).assign clause.columnMap values t = .ok a t

/-- An UPDATE of a base table without a condition and a slice. -/
theorem compile_table {update set : Token} {names list past : List Token} {name : QualifiedName}
    {fragment : Fragment} {u : UpdateStatement} (hupdate : update.kind = .keyword .UPDATE)
    (hset : set.kind = .keyword .SET) (hnames : NameTokens names name fragment)
    (hbase : env.catalog.relation? (name.schemaOr env.config.defaultSchema) name.name =
      some (.table table))
    (hlisted : ∀ x ∈ list, x.inList = true)
    (hs : s.cursor = ⟨past, update :: (names ++ set :: list)⟩)
    (h : compile env s = .ok u t) :
    ∃ past clause r, t.cursor = r.cursor ∧ Assigns env table s.nextRange fragment s.outer
      ⟨⟨past, list⟩, s.parameters⟩ r clause u.assignments := by
  obtain ⟨@⟨s₁, s₂, s₃, s₄, s₅, s₆, s₇, s₈, _, _, written, clause, condition, condition₁, _, _,
    values₁, values₂, target, hupdate', hwritten, hset', hclause, hcondition, hslice, hvalues,
    hcondition', htarget, hmoved, -, -, hassign, -, -, -⟩⟩ := compile_ok h
  have hkeyword : Reader.keyword .UPDATE s.cursor = _ := hs ▸ Reader.keyword_present hupdate
  cases (lift_reader_compiler_run hkeyword).symm.trans hupdate'
  cases (Range.readTarget_table hnames hset (by decide) hbase rfl).symm.trans hwritten
  cases (lift_reader_compiler_run (Reader.keyword_present hset)).symm.trans hset'
  obtain ⟨r, hr, rfl⟩ := lift_parser_ok.1 hclause
  have hrest : ∀ x ∈ r.cursor.rest, x.inList = true := readClause_listed hlisted hr
  obtain ⟨rfl, rfl⟩ := readCondition_listed hrest hcondition
  obtain rfl := slice_listed hrest hslice
  obtain ⟨rfl, rfl⟩ := pure_ok.1 hcondition'
  cases ViewTarget.resolve_table.symm.trans htarget
  have hresolves : Resolves _ t :=
    mapM_resolves (fun value u value' v hv =>
      Expr.resolveWith_resolves (Query.compileTokens_resolves env) hv) hvalues
  have hmoved : List.Forall₂ (· = ·) values₁ _ :=
    hmoved.imp fun e e' he => Option.some.inj ((Table.moved_target e).symm.trans he)
  obtain rfl := List.forall₂_eq_eq_eq ▸ hmoved
  exact ⟨_, clause, r, hresolves.cursor, hr, values₁, _, t, hvalues, hassign⟩

end Update

end DataChange
