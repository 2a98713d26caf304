import DataChange.Proofs.Marker.Inserts
import DataChange.Proofs.Marker.Merges
import DataChange.Proofs.Statement.CompileRuns
import DataChange.Proofs.Target.Names
import DataChange.Proofs.View.Descent

/-!
# How a statement stores its values

The updating branch of a MERGE is read as a SET clause, one group of targets after the other, from
tokens of the statement. The row of the inserting branch has an item for each column of its map.

A value is read, resolved and moved to the relation that is changed, and then checked against the
columns that it goes to. `Assigns`, `InsertsRow` and `Passes` record this for the assignments, the
rows and the arguments of a compiled statement; up to the last check the value keeps the shape that
it is read with and becomes settled (`Expr.SettledFrom`).
-/

namespace DataChange

/-! ## The branches of a MERGE -/

namespace Merge

variable {env : Environment} {target : Range} {s t : Reading}

/-- Branches read from some tokens or from later ones of them. -/
structure Branches.Written (env : Environment) (target : Range) (tokens : List Token)
    (b : Branches) : Prop where
  update : ∀ branch ∈ b.update, ∃ groups,
    branch.clause.ReadAt .merge env.config.dialect.mysql target tokens groups
  insert : ∀ branch ∈ b.insert, Rows.IsRow branch.columnMap.length branch.row ∧
    branch.columnMap.ListingAfter target tokens

theorem Branches.Written.mono {b : Branches} {tokens tokens' : List Token}
    (h : b.Written env target tokens) (hsub : tokens <:+ tokens') : b.Written env target tokens' where
  update branch hb := by
    obtain ⟨groups, hread⟩ := h.update branch hb
    exact ⟨groups, hread.mono (by decide) hsub⟩
  insert branch hb := (h.insert branch hb).imp_right (·.mono hsub)

theorem readInsertRow_isRow {degree : Nat} {row : Expr} (h : readInsertRow degree s = .ok row t) :
    Rows.IsRow degree row := by
  simp only [readInsertRow, bind_ok, Prod.exists] at h
  obtain ⟨rows, fragment, u, hrows, h⟩ := h
  obtain ⟨m, hm, h⟩ := run_eq h
  split at hm <;> subst hm
  · obtain ⟨rfl, -⟩ := pure_ok.1 h
    exact Rows.read_isRow hrows _ (by simp)
  · exact (reject_ok.1 h).elim

theorem readInsert_written {clause : Token} {b b' : Branches}
    (h : readInsert env target clause b s = .ok b' t) {tokens : List Token}
    (hb : b.Written env target tokens) (hsub : s.cursor.rest <:+ tokens) :
    b'.Written env target tokens := by
  simp only [readInsert, bind_ok, get_ok] at h
  obtain ⟨_, s₁, h₁, guard, s₂, hguard, x, s₃, h₂, y, s₄, h₃, _, s₅, hnew, _, _, ⟨rfl, rfl⟩, h⟩ := h
  obtain ⟨ht₁, -⟩ := Reading.keyword_takes h₁
  obtain ⟨-, xs, hx⟩ := readGuard_scans hguard
  obtain ⟨ht₂, hthen⟩ := Reading.keyword_takes h₂
  obtain ⟨ht₃, hinsert⟩ := Reading.keyword_takes h₃
  obtain ⟨-, rfl⟩ := checkNew_ok hnew
  -- what stands before the column list tells which branch it belongs to
  have hbefore := (hx.suffix.trans ht₁.suffix).trans hsub
  have hafter : ∀ {map : ColumnMap}, map.Listing target s₅.cursor.rest →
      map.ListingAfter target tokens := by
    intro map hlisting
    have hrest : s₂.cursor.rest = [] ++ x :: y :: s₅.cursor.rest := by
      rw [ht₂.rest, ht₃.rest, List.nil_append]
    exact ColumnMap.ListingAfter.mono ⟨[], _, _, _, hrest, hthen, hinsert, hlisting⟩ hbefore
  have hend : ∀ {map : ColumnMap} {u : Reading}, map.Listing target s₅.cursor.rest →
      (do let _ ← Reader.keyword .VALUES
          let row ← readInsertRow map.length
          return { b with insert := some ⟨guard, map, row⟩ } : Parser Branches) u = .ok b' t →
      b'.Written env target tokens := by
    intro map u hlisting h
    simp only [bind_ok, pure_ok] at h
    obtain ⟨_, _, -, row, _, hrow, rfl, -⟩ := h
    refine ⟨hb.update, ?_⟩
    rintro _ ⟨⟩
    exact ⟨readInsertRow_isRow hrow, hafter hlisting⟩
  split at h
  · simp only [bind_ok] at h
    obtain ⟨map, _, hmap, h⟩ := h
    obtain ⟨c, hc, rfl⟩ := lift_reader_ok.1 hmap
    obtain ⟨names, hnames, hfirst⟩ := ColumnMap.read_names hc
    exact hend (.list hnames hfirst (ColumnMap.read_nodup hc)) (by simpa only [bind_ok] using h)
  -- without a bracket there is no list to be read
  · next hnone =>
    have hnone : ∀ names rest, ¬ ColumnList s₅.cursor.rest names rest :=
      fun names rest hnames => hnone hnames.head.1
    exact hend (.all hnone) (by simpa only [bind_ok, pure_bind] using h)

theorem readMatched_written {clause : Token} {b b' : Branches}
    (h : readMatched env target clause b s = .ok b' t) {tokens : List Token}
    (hb : b.Written env target tokens) (hsub : s.cursor.rest <:+ tokens) :
    b'.Written env target tokens := by
  simp only [readMatched, bind_ok] at h
  obtain ⟨_, s₁, h₁, guard, s₂, hguard, x, s₃, h₂, found, s₄, hskip, h⟩ := h
  obtain ⟨ht₁, -⟩ := Reading.keyword_takes h₁
  obtain ⟨ht₂, hthen⟩ := Reading.keyword_takes h₂
  obtain ⟨-, xs, hx⟩ := readGuard_scans hguard
  have hbefore := (hx.suffix.trans ht₁.suffix).trans hsub
  rcases Reading.skipKeyword_takes hskip with ⟨rfl, y, ht, hupdate⟩ | ⟨rfl, rfl⟩
  · simp only [↓reduceIte, bind_ok, pure_ok] at h
    obtain ⟨_, _, hnew, z, s₅, hset, setClause, _, hclause, rfl, rfl⟩ := h
    obtain ⟨-, rfl⟩ := checkNew_ok hnew
    obtain ⟨htset, hkset⟩ := Reading.keyword_takes hset
    refine ⟨?_, hb.insert⟩
    rintro _ ⟨⟩
    obtain ⟨groups, hread⟩ := SetClause.read_groups hclause
    have hrest : s₂.cursor.rest = [] ++ [x, y, z] ++ s₅.cursor.rest := by
      rw [ht₂.rest, ht.rest, htset.rest]
      rfl
    have hplace : SetClause.Place .merge s₂.cursor.rest s₅.cursor.rest :=
      hrest ▸ .branch (by simp [hthen, hupdate, hkset])
    exact ⟨groups, SetClause.ReadAt.mono ⟨_, _, hplace, hread, SetClause.read_lacks hclause⟩
      (by decide) hbefore⟩
  · simp only [Bool.false_eq_true, ↓reduceIte, bind_ok] at h
    obtain ⟨found, _, -, h⟩ := h
    cases found with
    | true =>
      simp only [↓reduceIte, bind_ok, pure_ok] at h
      obtain ⟨_, _, -, rfl, -⟩ := h
      exact ⟨hb.update, hb.insert⟩
    | false =>
      simp only [Bool.false_eq_true, ↓reduceIte, bind_ok, reject_ok, and_false, exists_false] at h

theorem ReadsBranch.suffix {b b' : Branches} (h : ReadsBranch s t b b') :
    t.cursor.rest <:+ s.cursor.rest :=
  (h.after.suffix.trans h.then_takes.suffix).trans h.before.suffix

/-- All branches, by induction on their number. -/
theorem readBranchesWithin_written : ∀ (bound : Nat) {s t : Reading} {tokens : List Token}
    {b b' : Branches}, readBranchesWithin env target bound b s = .ok b' t →
    b.Written env target tokens → s.cursor.rest <:+ tokens → b'.Written env target tokens
  | 0, _, _, _, _, _, h, hb, _ => by
    obtain ⟨rfl, -⟩ := pure_ok.1 h
    exact hb
  | bound + 1, s, t, tokens, b, b', h, hb, hsub => by
    simp only [readBranchesWithin, bind_ok] at h
    obtain ⟨clause, u, hwhen, h⟩ := h
    obtain ⟨c, hc, rfl⟩ := lift_reader_ok.1 hwhen
    cases clause with
    | none =>
      obtain ⟨rfl, -⟩ := pure_ok.1 h
      exact hb
    | some w =>
      obtain ⟨-, hrest⟩ := Reader.ofKind?_some hc
      have hc : c.rest <:+ s.cursor.rest := ⟨[w], by simp [hrest]⟩
      simp only [bind_ok] at h
      obtain ⟨found, v, hskip, h⟩ := h
      rcases Reading.skipKeyword_takes hskip with ⟨rfl, x, ht, -⟩ | ⟨rfl, rfl⟩
      · simp only [↓reduceIte, bind_ok] at h
        obtain ⟨b₁, w, hinsert, h⟩ := h
        obtain ⟨run⟩ := readInsert_scans hinsert
        have hsub := ht.suffix.trans (hc.trans hsub)
        exact readBranchesWithin_written bound h (readInsert_written hinsert hb hsub)
          (run.suffix.trans hsub)
      · simp only [Bool.false_eq_true, ↓reduceIte, bind_ok] at h
        obtain ⟨b₁, w, hmatched, h⟩ := h
        obtain ⟨run⟩ := readMatched_scans hmatched
        exact readBranchesWithin_written bound h (readMatched_written hmatched hb (hc.trans hsub))
          (run.suffix.trans (hc.trans hsub))

theorem readBranches_written {b : Branches} (h : readBranches env target s = .ok b t) :
    b.Written env target s.cursor.rest := by
  simp only [readBranches, bind_ok] at h
  obtain ⟨n, u, hn, b', v, hb, h⟩ := h
  obtain rfl := Reading.remaining_stays hn
  split at h
  · simp only [bind_ok, get_ok, reject_ok, and_false, exists_false] at h
  · obtain ⟨rfl, -⟩ := pure_ok.1 h
    exact readBranchesWithin_written n hb ⟨by simp, by simp⟩ (List.suffix_refl _)

end Merge

/-! ## Values that are settled -/

variable {env : Environment} {scope : Scope} {s t : CompilerState}

namespace Expr

/-- An expression as it is read, and as it is resolved. -/
structure SettledFrom (e e' : Expr) : Prop where
  alike : e.Alike e'
  settled : e'.Settled

variable {e e' : Expr}

theorem SettledFrom.moves {change : ColumnChange} {m : Expr} (hkeeps : change.KeepsBound)
    (hm : e'.Moves change m) (h : e.SettledFrom e') : e.SettledFrom m :=
  ⟨h.alike.trans hm.alike, h.settled.moves hkeeps hm⟩

theorem resolve_settledFrom (hraw : Raw e) (h : e.resolve env scope s = .ok e' t) :
    e.SettledFrom e' :=
  ⟨resolveWith_alike h, (resolve_resolved hraw h).isSettled⟩

theorem mapM_settledFrom {es es' : List Expr} (hraw : ∀ e ∈ es, e.Raw)
    (h : es.mapM (fun e => e.resolve env scope) s = .ok es' t) :
    List.Forall₂ SettledFrom es es' := by
  refine ((List.forall₂_and_left _ _).2 ⟨hraw, mapM_forall₂ h⟩).imp ?_
  rintro e e' ⟨hraw, s, t, h⟩
  exact resolve_settledFrom hraw h

end Expr

/-- Values that are resolved and then moved. -/
theorem ViewTarget.moved_settledFrom {target : ViewTarget} {values values₁ values₂ : List Expr}
    (h : List.Forall₂ Expr.SettledFrom values values₁)
    (hm : List.Forall₂ (fun e e' => target.moved e = some e') values₁ values₂) :
    List.Forall₂ Expr.SettledFrom values values₂ :=
  forall₂_comp h hm fun _ _ _ _ hs hm => moved_keeps Expr.SettledFrom.moves hm hs

theorem Insert.movedUpsert_settledFrom {target : ViewTarget} {id : Nat} {e e' m : Expr}
    (h : e.SettledFrom e') (hm : movedUpsert target id e' = some m) : e.SettledFrom m := by
  simp only [movedUpsert, Option.bind_eq_bind, Option.bind_eq_some_iff] at hm
  obtain ⟨e₁, he₁, hm⟩ := hm
  have h₁ := ViewTarget.moved_keeps Expr.SettledFrom.moves he₁ h
  split at hm
  · exact h₁.moves (ColumnRef.redirect_keepsBound ..) hm
  · obtain rfl := Option.some.inj hm
    exact h₁

/-! ## Assignments -/

namespace Statement

/-- The columns of the relation that a statement changes. -/
def columns : Statement → List Column
  | insert i => i.target.columns
  | update u => u.target.columns
  | delete d => d.target.columns
  | merge m => m.target.columns
  | truncate _ | call _ => []

/-- The SET clauses of a statement. -/
def assignments : Statement → List Assignments
  | insert i => i.onDuplicate.toList
  | update u => [u.assignments]
  | merge m => m.update.toList.map (·.assignments)
  | delete _ | truncate _ | call _ => []

end Statement

/-- How assignments to some columns come about: a clause is read at its place behind the target, its
values are resolved and moved, and then assigned. -/
inductive Assigns (env : Environment) (tokens : List Token) (columns : List Column)
    (a : Assignments) : Prop
  | intro {operation : Operation} {written : Range} {after : List Token}
      {groups : List (List Nat)} {clause : SetClause} {target : ViewTarget} {values : List Expr}
      {t : CompilerState} (htargets : Targets env tokens operation written after)
      (hread : clause.ReadAt operation env.config.dialect.mysql written after groups)
      (hvalues : List.Forall₂ Expr.SettledFrom clause.values values)
      (hcolumns : target.relation.columns = columns)
      (hassign : target.assign clause.columnMap values t = .ok a t) : Assigns env tokens columns a

/-- The assignments of an UPDATE stand after SET. -/
theorem SetClause.readAt_update {mysql : Bool} {range : Range} {set : Token} {clause : SetClause}
    {u : CompilerState} (hset : (liftM (Reader.keyword .SET) : Compiler Token) s = .ok set t)
    (h : (liftM (SetClause.read mysql range) : Compiler SetClause) t = .ok clause u) :
    ∃ groups, clause.ReadAt .update mysql range s.cursor.rest groups := by
  obtain ⟨hkind, hrest⟩ := keyword_rest hset
  obtain ⟨r, hr, -⟩ := lift_parser_ok.1 h
  obtain ⟨groups, hread⟩ := read_groups hr
  exact ⟨groups, _, _, hrest ▸ .update hkind, hread, read_lacks hr⟩

/-- The assignments of an upsert stand after ON DUPLICATE KEY UPDATE. -/
theorem SetClause.readAt_upsert {mysql : Bool} {range : Range} {duplicate key update : Token}
    {clause : SetClause} {s₁ s₂ s₃ s₄ : CompilerState}
    (hon : (liftM (Reader.skipKeyword .ON) : Compiler Bool) s = .ok true s₁)
    (hduplicate : (liftM (Reader.keyword .DUPLICATE) : Compiler Token) s₁ = .ok duplicate s₂)
    (hkey : (liftM (Reader.keyword .KEY) : Compiler Token) s₂ = .ok key s₃)
    (hupdate : (liftM (Reader.keyword .UPDATE) : Compiler Token) s₃ = .ok update s₄)
    (h : (liftM (SetClause.read mysql range) : Compiler SetClause) s₄ = .ok clause t) :
    ∃ groups, clause.ReadAt .insert mysql range s.cursor.rest groups := by
  obtain ⟨on, hon, htakes, -⟩ := takes_skipKeyword hon
  have h₁ : s.cursor.rest = on :: s₁.cursor.rest := htakes.rest
  obtain ⟨hduplicate, h₂⟩ := keyword_rest hduplicate
  obtain ⟨hkey, h₃⟩ := keyword_rest hkey
  obtain ⟨hupdate, h₄⟩ := keyword_rest hupdate
  obtain ⟨r, hr, -⟩ := lift_parser_ok.1 h
  obtain ⟨groups, hread⟩ := read_groups hr
  have hrest : s.cursor.rest = [] ++ [on, duplicate, key, update] ++ s₄.cursor.rest := by
    rw [h₁, h₂, h₃, h₄]
    rfl
  exact ⟨groups, _, _, hrest ▸ .upsert (by simp [hon, hduplicate, hkey, hupdate]), hread,
    read_lacks hr⟩

theorem Update.Run.assigns {u : UpdateStatement} (run : Update.Run env s u t) :
    Assigns env s.cursor.rest u.target.columns u.assignments := by
  obtain ⟨hraw, -⟩ := Scans.lift run.clause_ok fun _ hr => SetClause.read_scans hr
  obtain ⟨groups, hread⟩ := SetClause.readAt_update run.set_ok run.clause_ok
  refine .intro run.targets hread ?_ (congrArg Relation.columns run.relation.symm) run.assigned
  exact ViewTarget.moved_settledFrom (Expr.mapM_settledFrom hraw run.resolve_values)
    run.moved_values

/-- The branches of a MERGE come after its source and its condition. -/
theorem Merge.condition_suffix {scope : Scope} {usingWord onWord : Token} {source : Range}
    {on on' : Expr} {s₁ s₂ s₃ s₄ : CompilerState}
    (husing : (liftM (Reader.keyword .USING) : Compiler Token) s = .ok usingWord s₁)
    (hsource : ReadsSource env s₁ source s₂)
    (hon : (liftM (Reader.keyword .ON) : Compiler Token) s₂ = .ok onWord s₃)
    (hparse : (liftM Expr.parse : Compiler Expr) s₃ = .ok on s₄)
    (hresolve : on.resolveCondition env scope s₄ = .ok on' t) : t.cursor.rest <:+ s.cursor.rest := by
  obtain ⟨-, h₁⟩ : _ ∧ Scan false _ _ _ _ _ := Scan.keyword husing rfl
  obtain ⟨-, -, ys, h₂⟩ := readSource_inOrder hsource
  obtain ⟨c, hc, hs₃⟩ := lift_reader_compiler_ok.1 hon
  have h₃ : s₃.cursor.rest <:+ s₂.cursor.rest := hs₃ ▸ ⟨[onWord], (Reader.keyword_ok hc).2.symm⟩
  obtain ⟨-, zs, h₄⟩ := Scan.parsed Expr.parse_reads hparse
  have h₅ := Expr.resolveConditionWith_resolves (Query.compileTokens_resolves env) hresolve
  rw [h₅.cursor]
  exact ((h₄.suffix.trans h₃).trans ⟨ys, h₂.rest.symm⟩).trans h₁.suffix

/-- The branches of a MERGE are read from what follows its target. -/
theorem Merge.Run.branches_written {m : MergeStatement} (run : Merge.Run env s m t) :
    run.branches.Written env run.written run.s₃.cursor.rest := by
  obtain ⟨r, hr, -⟩ := lift_parser_ok.1 run.branches_ok
  have hsuffix : run.s₈.cursor.rest <:+ run.s₃.cursor.rest :=
    condition_suffix run.using_ok run.source_ok run.on_ok run.parse_ok run.resolve_on
  exact (readBranches_written hr).mono hsuffix

theorem Merge.Run.assigns {m : MergeStatement} (run : Merge.Run env s m t) :
    ∀ u ∈ m.update, Assigns env s.cursor.rest m.target.columns u.assignments := by
  intro u hu
  obtain ⟨branch, hb, hresolve⟩ := ifPresent_some (hu ▸ run.update_ok)
  obtain ⟨guard, s₁, values₁, values₂, -, hvalues, hmoved, hassign, -⟩ := resolveUpdate_ok hresolve
  have hraw : ∀ e ∈ branch.clause.values, e.Raw :=
    fun e he => run.branches_raw e (by simp [Branches.updating, hb, he])
  obtain ⟨groups, hread⟩ := run.branches_written.update branch hb
  refine .intro run.targets hread ?_ (congrArg Relation.columns run.relation.symm) hassign
  exact ViewTarget.moved_settledFrom (Expr.mapM_settledFrom hraw hvalues) hmoved

namespace Insert

variable {target : ViewTarget}

/-- Following the views reads none of the tokens. -/
theorem Run.cursor_kept {i : InsertStatement} (run : Run env s i t) :
    run.s₃.cursor = run.s₂.cursor := by
  obtain ⟨layers, hviews, -⟩ := ViewTarget.resolve_descends run.target_ok
  exact hviews.resolves.cursor

/-- An upsert comes after the rows. -/
theorem Run.upsert {i : InsertStatement} (run : Run env s i t) : ∀ a ∈ i.onDuplicate,
    ∃ u, u.cursor.rest <:+ run.s₃.cursor.rest ∧ Keeps run.s₃ u ∧
      Nonempty (UpsertRun env run.target u a t) := by
  intro a ha
  cases run.completes with
  | defaults _ _ _ hu => simp [hu] at ha
  | rows hd hc _ ho hs hu =>
    obtain ⟨xs, h₁⟩ : ∃ xs, Scan false _ _ xs [] [] := Scan.skipKeyword hd rfl
    obtain ⟨ys, h₂⟩ := Cursor.Passes.scan_ok hc fun _ _ hc => readColumns_passes hc
    obtain ⟨zs, h₃⟩ := Cursor.Passes.scan_ok ho fun _ _ hc => Overriding.read?_passes hc
    obtain ⟨hkeeps, us, h₄⟩ := readSource_inOrder hs
    have hsuffix := List.IsSuffix.trans ⟨us, h₄.rest.symm⟩ ((h₁.trans h₂).trans h₃).suffix
    have hkeeps := (reader_keeps hd).trans ((reader_keeps hc).trans ((reader_keeps ho).trans hkeeps))
    rw [Option.mem_def.1 ha] at hu
    cases hu with
    | some upsert => exact ⟨_, hsuffix, hkeeps, ⟨upsert⟩⟩

/-- The clause of an upsert stands at its place after the target. -/
theorem Run.upsert_readAt {i : InsertStatement} {a : Assignments} {u : CompilerState}
    (run : Run env s i t) (hsuffix : u.cursor.rest <:+ run.s₃.cursor.rest)
    (upsert : UpsertRun env run.target u a t) : ∃ groups,
      upsert.clause.ReadAt .insert env.config.dialect.mysql run.written run.s₂.cursor.rest groups := by
  obtain ⟨-, -, hwritten⟩ := ViewTarget.resolve_descends run.target_ok
  obtain ⟨groups, hread⟩ := SetClause.readAt_upsert upsert.on_ok upsert.duplicate_ok upsert.key_ok
    upsert.update_ok upsert.clause_ok
  exact ⟨groups, hwritten ▸ hread.mono (by decide) (run.cursor_kept ▸ hsuffix)⟩

theorem Run.assigns {i : InsertStatement} (run : Run env s i t) :
    ∀ a ∈ i.onDuplicate, Assigns env s.cursor.rest i.target.columns a := by
  intro a ha
  obtain ⟨u, hsuffix, -, ⟨upsert⟩⟩ := run.upsert a ha
  obtain ⟨hraw, -⟩ := Scans.lift upsert.clause_ok fun _ hr => SetClause.read_scans hr
  obtain ⟨groups, hread⟩ := run.upsert_readAt hsuffix upsert
  refine .intro run.targets hread ?_ (congrArg Relation.columns run.relation.symm) upsert.assigned
  exact forall₂_comp (Expr.mapM_settledFrom hraw upsert.resolve_values) upsert.moved_values
    fun _ _ _ _ hs hm => movedUpsert_settledFrom hs hm

end Insert

theorem Statement.compileHead_assigns {statement : Statement}
    (h : compileHead env s = .ok statement t) :
    ∀ a ∈ statement.assignments, Assigns env s.cursor.rest statement.columns a := by
  obtain ⟨x, rest, -, hrun⟩ := compileHead_ok h
  intro a ha
  cases hrun with
  | insert _ hcompile =>
    obtain ⟨run⟩ := Insert.compile_ok hcompile
    exact run.assigns a (by simpa [assignments] using ha)
  | update _ hcompile =>
    obtain ⟨run⟩ := Update.compile_ok hcompile
    obtain rfl := List.mem_singleton.1 ha
    exact run.assigns
  | merge _ hcompile =>
    obtain ⟨run⟩ := Merge.compile_ok hcompile
    simp only [assignments, List.mem_map, Option.mem_toList] at ha
    obtain ⟨u, hu, rfl⟩ := ha
    exact run.assigns u hu
  | delete | truncate | call => cases ha

/-! ## Rows -/

/-- The rows that a statement inserts, each with the columns that it is for. -/
def Statement.insertedRows : Statement → List (ColumnMap × Expr)
  | insert i => i.source.exprs.flatMap fun rows => rows.children.map (i.columnMap, ·)
  | merge m => m.insert.toList.map fun i => (i.columnMap, i.row)
  | update _ | delete _ | truncate _ | call _ => []

/-- How an inserted row comes about: it has no more items than it has columns, and these are
resolved and then checked. -/
inductive InsertsRow (columns : List Column) (map : ColumnMap) (row : Expr) : Prop
  | intro {degree : Nat} {row₀ : Expr} {overriding : Option OverridingKind} {t : CompilerState}
      (hdegree : degree ≤ map.length) (hrow : Rows.IsRow degree row₀) (hsettled : row₀.Settled)
      (hinsert : ColumnPolicy.insertRow columns map overriding row₀ t = .ok row t) :
      InsertsRow columns map row

namespace Insert

theorem readSource_insertsRow {target : ViewTarget} {map : ColumnMap}
    {overriding : Option Overriding} {source : InsertSource} {overridden : Option Nat}
    (h : ReadsSource env target map overriding s source overridden t) :
    ∀ rows ∈ source.exprs, rows.type? = none ∧ rows.shape = .rows ∧
      ∀ row ∈ rows.children, InsertsRow target.relation.columns map row := by
  cases h with
  | query => simp [InsertSource.exprs]
  | @values s₁ s₂ _ rows rows₁ rows₂ fragment values hskip hrows hresolve hkind hinsert =>
    obtain ⟨hraw, -⟩ := Scans.lift hrows fun _ hr => (Rows.read_scans hr).1
    obtain ⟨r, hr, -⟩ := lift_parser_ok.1 hrows
    have hisRow := Rows.read_isRow hr
    have halike := (Expr.resolveWith_alike hresolve).children
    have hchildren : values.children = rows₁ := by simp [Expr.children, hkind]
    obtain ⟨htype, hsettled⟩ := Expr.resolveRows_resolved (Query.compileTokens_resolves env)
      (Query.compileTokens_resolvesPlans env) hraw hresolve
    rw [hchildren] at halike hsettled
    simp only [InsertSource.exprs, List.mem_singleton, forall_eq]
    refine ⟨htype, rfl, fun row hrow => ?_⟩
    obtain ⟨row₁, hrow₁, hinsert⟩ := forall₂_exists_left hinsert hrow
    obtain ⟨row₀, hrow₀, ha⟩ := forall₂_exists_left halike hrow₁
    exact .intro (Nat.le_refl _) ((hisRow row₀ hrow₀).alike ha) (hsettled row₁ hrow₁).isSettled
      hinsert

theorem Run.insertsRow {i : InsertStatement} (run : Run env s i t) :
    ∀ rows ∈ i.source.exprs, rows.type? = none ∧ rows.shape = .rows ∧
      ∀ row ∈ rows.children, InsertsRow i.target.columns i.columnMap row := by
  rw [run.relation]
  cases run.completes with
  | defaults _ _ hs _ =>
    rw [hs]
    simp only [InsertSource.exprs, List.mem_singleton, forall_eq]
    refine ⟨rfl, rfl, ?_⟩
    simp only [Expr.untyped, Expr.children, List.mem_singleton, forall_eq]
    have hinsert : ColumnPolicy.insertRow run.target.relation.columns i.columnMap none
        (.untyped (.row []) run.written.fragment) s =
          .ok (.untyped (.row []) run.written.fragment) s := rfl
    exact .intro (Nat.zero_le _) ⟨rfl, by simp [Expr.children]⟩
      (.intro (.row [] _) (by simp [Expr.children]) (by simp)) hinsert
  | rows _ _ _ _ hs _ => exact readSource_insertsRow hs

end Insert

theorem Merge.Run.insertsRow {m : MergeStatement} (run : Merge.Run env s m t) :
    ∀ i ∈ m.insert, InsertsRow m.target.columns i.columnMap i.row := by
  intro i hi
  obtain ⟨branch, hb, hresolve⟩ := ifPresent_some (hi ▸ run.insert_ok)
  obtain ⟨s₁, row, -, hrow, hmap, hpolicy⟩ := resolveInsert_ok hresolve
  obtain ⟨r, hr, -⟩ := lift_parser_ok.1 run.branches_ok
  obtain ⟨segments, hbranches⟩ := readBranches_scans hr
  have hraw : branch.row.Raw := hbranches.raw branch.row (by simp [Branches.inserting, hb])
  have hfrom := Expr.resolve_settledFrom hraw hrow
  obtain ⟨hisRow, -⟩ := (readBranches_written hr).insert branch hb
  rw [run.relation]
  exact .intro (Nat.le_of_eq (ColumnMap.project_length hmap).symm) (hisRow.alike hfrom.alike)
    hfrom.settled hpolicy

theorem Statement.compileHead_insertsRow {statement : Statement}
    (h : compileHead env s = .ok statement t) :
    ∀ x ∈ statement.insertedRows, InsertsRow statement.columns x.1 x.2 := by
  obtain ⟨x, rest, -, hrun⟩ := compileHead_ok h
  intro x hx
  cases hrun with
  | insert _ hcompile =>
    obtain ⟨run⟩ := Insert.compile_ok hcompile
    simp only [insertedRows, List.mem_flatMap, List.mem_map] at hx
    obtain ⟨rows, hrows, row, hrow, rfl⟩ := hx
    exact (run.insertsRow rows hrows).2.2 row hrow
  | merge _ hcompile =>
    obtain ⟨run⟩ := Merge.compile_ok hcompile
    simp only [insertedRows, List.mem_map, Option.mem_toList] at hx
    obtain ⟨i, hi, rfl⟩ := hx
    exact run.insertsRow i hi
  | update | delete | truncate | call => cases hx

/-! ## Arguments -/

/-- How an argument comes about: it is resolved and then checked. -/
inductive Passes (parameter : RoutineParameter) (argument : Expr) : Prop
  | intro {routine : Routine} {position : Nat} {argument₀ : Expr} (hregular : argument₀.Regular)
      (hsettled : argument₀.Settled)
      (hcheck : Call.checkArgument routine parameter position argument₀ = .ok argument) :
      Passes parameter argument

namespace Call

theorem readArguments_plain {oracle : Bool} {arguments : List Expr} {r u : Reading}
    (h : readArguments oracle r = .ok arguments u) : ∀ e ∈ arguments, e.Plain := by
  rcases readArguments_ok h with rfl | ⟨_, _, hitems⟩
  · simp
  · exact (Expr.parseList_reads _ _ _ hitems).plain

/-- Every argument is resolved and then checked for its parameter. -/
theorem bindArguments_forall₂ {routine : Routine} {R : RoutineParameter → Expr → Prop}
    {parameters : List RoutineParameter} {arguments arguments' : List Expr} {position : Nat}
    (hlen : parameters.length = arguments.length)
    (h : bindArguments env routine scope position arguments parameters s = .ok arguments' t)
    (hone : ∀ argument ∈ arguments, ∀ parameter position resolved argument' s t,
      argument.resolve env scope s = .ok resolved t →
      checkArgument routine parameter position resolved = .ok argument' → R parameter argument') :
    List.Forall₂ R parameters arguments' := by
  induction parameters generalizing arguments arguments' position s with
  | nil =>
    obtain rfl := List.length_eq_zero_iff.1 hlen.symm
    obtain ⟨rfl, -⟩ := pure_ok.1 h
    exact .nil
  | cons parameter parameters ih =>
    cases arguments with
    | nil => simp at hlen
    | cons argument arguments =>
      simp only [bindArguments, bind_ok, lift_except_ok, pure_ok] at h
      obtain ⟨resolved, u, hresolve, argument', _, ⟨hcheck, rfl⟩, rest, _, hrest, rfl, rfl⟩ := h
      obtain ⟨hfirst, hothers⟩ := List.forall_mem_cons.1 hone
      exact .cons (hfirst _ _ _ _ _ _ hresolve hcheck) (ih (by simpa using hlen) hrest hothers)

theorem bindArguments_passes {routine : Routine} {parameters : List RoutineParameter}
    {arguments arguments' : List Expr} {position : Nat} (hplain : ∀ e ∈ arguments, e.Plain)
    (hlen : parameters.length = arguments.length)
    (h : bindArguments env routine scope position arguments parameters s = .ok arguments' t) :
    List.Forall₂ Passes parameters arguments' := by
  refine bindArguments_forall₂ hlen h fun argument hmem _ _ _ _ _ _ hresolve hcheck => ?_
  have hp := hplain argument hmem
  have hfrom := Expr.resolve_settledFrom hp.raw hresolve
  exact .intro (hp.regular.alike hfrom.alike) hfrom.settled hcheck

theorem Runs.passes {r : Routine} {arguments : List Expr} {tables : WriteSet}
    (h : Runs env s ⟨.routine r arguments, tables⟩ t) :
    List.Forall₂ Passes r.parameters arguments := by
  cases h with
  | routine _ _ hread hfound hbind =>
    obtain ⟨u, hu, -⟩ := lift_parser_ok.1 hread
    exact bindArguments_passes (readArguments_plain hu) (arity_of_found hfound) hbind

end Call

theorem Statement.compileHead_passes {r : Routine} {arguments : List Expr} {tables : WriteSet}
    (h : compileHead env s = .ok (.call ⟨.routine r arguments, tables⟩) t) :
    List.Forall₂ Passes r.parameters arguments := by
  obtain ⟨x, rest, -, hrun⟩ := compileHead_ok h
  cases hrun with
  | call _ hcompile => exact (Call.compile_ok hcompile).passes

end DataChange
