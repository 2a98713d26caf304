import DataChange.Proofs.Marker.Changes
import DataChange.Proofs.Statement.InsertRuns
import DataChange.Statement.Truncate

/-!
# Question marks of INSERT, CALL and TRUNCATE

An INSERT reads and resolves its rows or its query at once, and then its upsert. A CALL reads all of
its arguments before it resolves them. A TRUNCATE has no place for a question mark.
-/

namespace DataChange

variable {env : Environment} {s t : CompilerState}

/-! ## Words that hold nothing -/

/-- A keyword that may be missing. -/
theorem Cursor.Passes.skipKeyword {commas found : Bool} {k : Keyword} {c d : Cursor}
    (h : Reader.skipKeyword k c = .ok found d) (hk : (TokenKind.keyword k).isPlain commas = true) :
    Cursor.Passes commas c d := by
  cases found with
  | true =>
    obtain ⟨x, hx⟩ := Reader.skipKeyword_true h
    exact .keyword hx hk
  | false =>
    obtain ⟨rfl, -⟩ := Reader.skipKeyword_false h
    exact .refl commas _

theorem Cursor.Passes.keyword? {commas : Bool} {k : Keyword} {x : Option Token} {c d : Cursor}
    (h : Reader.keyword? k c = .ok x d) (hk : (TokenKind.keyword k).isPlain commas = true) :
    Cursor.Passes commas c d := by
  cases x with
  | some x => exact .keyword (Reader.ofKind?_some h) hk
  | none =>
    obtain ⟨rfl, -⟩ := Reader.ofKind?_none h
    exact .refl commas _

theorem OverridingKind.read_passes {kind : OverridingKind} {c d : Cursor}
    (h : OverridingKind.read c = .ok kind d) : Cursor.Passes false c d := by
  simp only [OverridingKind.read, bind_ok] at h
  obtain ⟨user, u, huser, h⟩ := h
  have hu : Cursor.Passes false c u := .skipKeyword huser rfl
  cases user with
  | true =>
    obtain ⟨-, rfl⟩ := pure_ok.1 h
    exact hu
  | false =>
    simp only [Bool.false_eq_true, ↓reduceIte, bind_ok] at h
    obtain ⟨system, v, hsystem, h⟩ := h
    cases system with
    | true =>
      obtain ⟨-, rfl⟩ := pure_ok.1 h
      exact hu.trans (.skipKeyword hsystem rfl)
    | false =>
      simp only [Bool.false_eq_true, ↓reduceIte, bind_ok, throw_ok, and_false, exists_false] at h

theorem Overriding.read?_passes {overriding : Option Overriding} {c d : Cursor}
    (h : Overriding.read? c = .ok overriding d) : Cursor.Passes false c d := by
  simp only [Overriding.read?, bind_ok] at h
  obtain ⟨x, u, hx, h⟩ := h
  have hu : Cursor.Passes false c u := .keyword? hx rfl
  cases x with
  | none =>
    obtain ⟨-, rfl⟩ := pure_ok.1 h
    exact hu
  | some x =>
    simp only [bind_ok, pure_ok] at h
    obtain ⟨kind, v, hkind, y, _, hy, -, rfl⟩ := h
    exact (hu.trans (OverridingKind.read_passes hkind)).trans (.keyword (Reader.keyword_ok hy) rfl)

namespace Insert

theorem readMode_passes {mysql : Bool} {mode : InsertMode} {c d : Cursor}
    (h : readMode mysql c = .ok mode d) : Cursor.Passes false c d := by
  simp only [readMode, bind_ok] at h
  obtain ⟨replace, u, hreplace, h⟩ := h
  have hinto : ∀ {mode' : InsertMode} {w : Cursor}, Cursor.Passes false c w →
      (if mysql = true then do
          let _ ← Reader.keyword? .INTO
          return mode'
        else do
          let _ ← Reader.keyword .INTO
          return mode' : Reader InsertMode) w = .ok mode d → Cursor.Passes false c d := by
    intro mode' w hw h
    split at h
    · simp only [bind_ok, pure_ok] at h
      obtain ⟨y, _, hy, -, rfl⟩ := h
      exact hw.trans (.keyword? hy rfl)
    · simp only [bind_ok, pure_ok] at h
      obtain ⟨y, _, hy, -, rfl⟩ := h
      exact hw.trans (.keyword (Reader.keyword_ok hy) rfl)
  have hu : Cursor.Passes false c u := .skipKeyword hreplace rfl
  cases replace with
  | true => exact hinto hu (by simpa only [↓reduceIte, pure_bind] using h)
  | false =>
    simp only [Bool.false_eq_true, ↓reduceIte, bind_ok] at h
    obtain ⟨x, v, hx, h⟩ := h
    have hv : Cursor.Passes false c v := hu.trans (.keyword (Reader.keyword_ok hx) rfl)
    cases mysql with
    | true =>
      simp only [↓reduceIte, bind_ok] at h
      obtain ⟨ignore, w, hignore, h⟩ := h
      have hw : Cursor.Passes false c w := hv.trans (.skipKeyword hignore rfl)
      cases ignore with
      | true => exact hinto hw (by simpa only [↓reduceIte, pure_bind, bind_ok] using h)
      | false =>
        exact hinto hw (by simpa only [Bool.false_eq_true, ↓reduceIte, pure_bind, bind_ok] using h)
    | false => exact hinto hv (by simpa only [Bool.false_eq_true, ↓reduceIte, pure_bind] using h)

theorem readColumns_passes {oracle : Bool} {range : Range} {map : ColumnMap} {c d : Cursor}
    (h : readColumns oracle range c = .ok map d) : Cursor.Passes false c d := by
  simp only [readColumns, bind_ok, get_ok] at h
  obtain ⟨_, _, ⟨rfl, rfl⟩, h⟩ := h
  split at h
  · exact ColumnMap.read_passes h
  · obtain ⟨-, rfl⟩ := pure_ok.1 h
    exact .refl false _

theorem skipValues_passes {mysql found : Bool} {c d : Cursor}
    (h : skipValues mysql c = .ok found d) : Cursor.Passes false c d := by
  simp only [skipValues, bind_ok] at h
  obtain ⟨values, u, hvalues, h⟩ := h
  have hu : Cursor.Passes false c u := .skipKeyword hvalues rfl
  cases values with
  | true =>
    obtain ⟨-, rfl⟩ := pure_ok.1 h
    exact hu
  | false =>
    simp only [Bool.false_eq_true, ↓reduceIte] at h
    split at h
    · exact hu.trans (.skipKeyword h rfl)
    · obtain ⟨-, rfl⟩ := pure_ok.1 h
      exact hu

/-! ## Sources and upserts -/

variable {target : ViewTarget} {map : ColumnMap} {overriding : Option Overriding}

/-- The marks of what is inserted. -/
def sourceMarks (source : InsertSource) : List Mark :=
  Expr.marksOf source.exprs ++ source.plans.flatMap Query.marks

theorem readSource_inOrder {source : InsertSource} {overridden : Option Nat}
    (h : ReadsSource env target map overriding s source overridden t) :
    Keeps s t ∧ ∃ xs, InOrder false s t xs (sourceMarks source) := by
  cases h with
  | @values s₁ s₂ _ rows rows₁ rows₂ fragment values hskip hrows hresolve hkind hinsert =>
    obtain ⟨xs, hx⟩ := Cursor.Passes.scan_ok hskip fun _ _ hc => skipValues_passes hc
    obtain ⟨hraw, ys, hy⟩ := Scans.lift hrows fun _ hr => (Rows.read_scans hr).1
    have hr := Expr.resolveWith_resolves (Query.compileTokens_resolves env) hresolve
    have hn := Expr.resolveRows_numbers (Query.compileTokens_numbers env) hraw hresolve
    -- some cells of a row give way to DEFAULT, and none gets a question mark
    have hm : (Expr.mk (.values rows₂) values.fragment values.type?).marks ⊆ values.marks := by
      have hsub : Expr.marksOf rows₂ ⊆ Expr.marksOf rows₁ :=
        Expr.marksOf_subset (hinsert.imp fun _ _ h => ColumnPolicy.insertRow_marks h)
      obtain ⟨kind, fragment', type⟩ := values
      subst hkind
      simpa [Expr.marks_mk, Expr.children, Expr.planNodes, Expr.mark?] using hsub
    have hin := InOrder.prepend hx (.of_scan hy hr (hn.subset hm))
    exact ⟨((reader_keeps hskip).trans (parser_keeps hrows)).trans hr.toKeeps, _,
      by simpa [sourceMarks, InsertSource.exprs, InsertSource.plans] using hin⟩
  | query hskip _ hplan _ _ =>
    obtain ⟨xs, hx⟩ := Cursor.Passes.scan_ok hskip fun _ _ hc => skipValues_passes hc
    obtain ⟨ys, hy⟩ := Query.compile_numbers hplan
    have hk := Query.compile_keeps hplan
    have hin := InOrder.prepend hx ⟨hy.rest, hy.closed, hy.numbers⟩
    exact ⟨(reader_keeps hskip).trans ⟨hk.outer, hk.calls, hk.ranges⟩, _,
      by simpa [sourceMarks, InsertSource.exprs, InsertSource.plans] using hin⟩

theorem marks_movedUpsert {id : Nat} {e e' : Expr} (h : movedUpsert target id e = some e') :
    e'.marks = e.marks := by
  simp only [movedUpsert, Option.bind_eq_bind, Option.bind_eq_some_iff] at h
  obtain ⟨e₁, he₁, h⟩ := h
  rw [← ViewTarget.marks_moved he₁]
  split at h
  · exact (Expr.marks_mapColumns h).1
  · cases h
    rfl

theorem separates_startsUpsert : Separates false Token.startsUpsert := by
  intro x hx
  refine .inl ?_
  simp only [Token.startsUpsert, Token.isKeyword, Token.isSymbol, Bool.or_eq_true,
    decide_eq_true_eq] at hx
  rcases hx with hx | hx <;> simp [Token.isClause, hx]

/-- An upsert is a segment of its own. -/
theorem readsUpsert_inOrder {a : Option Assignments} (h : ReadsUpsert env target s a t) :
    ∃ segments : List (List Token), s.cursor.rest = segments.flatten ++ t.cursor.rest ∧
      (∀ ts ∈ segments, Segment Token.startsUpsert ts) ∧
      Numbers s.parameters t.parameters (segments.flatMap readingOrder) []
        (Expr.marksOf (a.toList.flatMap (·.values))) := by
  cases h with
  | none => exact ⟨[], rfl, by simp, .refl _ _⟩
  | @some a _ run =>
    obtain ⟨x, hx, htakes, -⟩ := takes_skipKeyword run.on_ok
    obtain ⟨-, h₁⟩ : _ ∧ Scan false _ _ _ _ _ := Scan.keyword run.duplicate_ok rfl
    obtain ⟨-, h₂⟩ : _ ∧ Scan false _ _ _ _ _ := Scan.keyword run.key_ok rfl
    obtain ⟨-, h₃⟩ : _ ∧ Scan false _ _ _ _ _ := Scan.keyword run.update_ok rfl
    obtain ⟨hraw, ys, hy⟩ := Scans.lift run.clause_ok fun _ hr => SetClause.read_scans hr
    obtain ⟨hr, hn⟩ := resolveValues_numbers hraw run.resolve_values
    have hin : InOrder false run.s₁ t ([run.duplicate] ++ [run.key] ++ [run.update] ++ ys)
        (Expr.marksOf run.values₁) :=
      .of_scan (((h₁.trans h₂).trans h₃).trans hy)
        ⟨⟨hr.outer, hr.calls, Nat.le_trans (Nat.le_succ _) hr.ranges⟩, hr.cursor⟩ (by simpa using hn)
    obtain ⟨hassigned, -⟩ := ViewTarget.assign_ok run.assigned
    have hmarks : Expr.marksOf a.values = Expr.marksOf run.values₁ :=
      (Expr.marksOf_congr (hassigned.imp fun _ _ h => h.marks)).trans
        (Expr.marksOf_congr (run.moved_values.imp fun _ _ h => marks_movedUpsert h))
    have hsymbol : ∀ symbol, x.isSymbol symbol = false := by simp [Token.isSymbol, hx]
    refine ⟨[x :: ([run.duplicate] ++ [run.key] ++ [run.update] ++ ys)], ?_, ?_, ?_⟩
    · rw [List.flatten_singleton, List.cons_append, ← hin.rest]
      exact htakes.rest
    · exact List.forall_mem_singleton.2 ⟨x, _, rfl,
        by simp [Token.startsUpsert, Token.isKeyword, hx], hsymbol _, hsymbol _, hin.closed.paired,
        hin.closed.whole _ separates_startsUpsert⟩
    · have hp : run.s₁.parameters = s.parameters := htakes.parameters
      have hread := readingOrder_cons (by simp [hx] : x.kind ≠ .parameter) (hsymbol _)
      have hn := hin.numbers
      rw [hp, ← hmarks, ← hread] at hn
      simpa using hn

/-! ## Statements -/

/-- How an INSERT is cut. -/
theorem insertOrder_eq {head rest : List Token} {segments : List (List Token)}
    (hhead : Closed false head) (hsegments : ∀ ts ∈ segments, Segment Token.startsUpsert ts)
    (hrest : IsTail rest) :
    insertOrder (head ++ segments.flatten ++ rest) =
      readingOrder head ++ segments.flatMap readingOrder := by
  have hwhole := hhead.whole _ separates_startsUpsert
  rcases hrest with rfl | ⟨x, hx, rfl⟩
  · rw [List.append_nil, insertOrder, pieces_segments hwhole hsegments, List.flatMap_cons]
  · have hsymbol : ∀ symbol, x.isSymbol symbol = decide (symbol = .semicolon) := by
      intro symbol
      simp [Token.isSymbol, hx, eq_comm]
    have hall : ∀ ts ∈ segments ++ [[x]], Segment Token.startsUpsert ts := by
      intro ts hts
      rcases List.mem_append.1 hts with hts | hts
      · exact hsegments ts hts
      · rw [List.mem_singleton.1 hts]
        exact ⟨x, [], rfl, by simp [Token.startsUpsert, hsymbol], hsymbol _, hsymbol _, .nil,
          Closed.nil.whole _ separates_startsUpsert⟩
    have hread : readingOrder [x] = [] := readingOrder_eq_nil (by simp [hx])
    have happend : head ++ segments.flatten ++ [x] = head ++ (segments ++ [[x]]).flatten := by simp
    rw [happend, insertOrder, pieces_segments hwhole hall]
    simp [hread]

/-- What an INSERT reads after its target. -/
theorem completes_inOrder {written : Range} {i : InsertStatement}
    (h : Completes env written target s i t) :
    ∃ (xs : List Token) (segments : List (List Token)), Closed false xs ∧
      s.cursor.rest = xs ++ segments.flatten ++ t.cursor.rest ∧
      (∀ ts ∈ segments, Segment Token.startsUpsert ts) ∧
      Numbers s.parameters t.parameters (readingOrder xs ++ segments.flatMap readingOrder) []
        (sourceMarks i.source ++ Expr.marksOf (i.onDuplicate.toList.flatMap (·.values))) := by
  cases h with
  | defaults hd hv hs hu =>
    obtain ⟨xs, hx⟩ : ∃ xs, Scan false _ _ xs [] [] := Scan.skipKeyword hd rfl
    obtain ⟨-, hy⟩ : _ ∧ Scan false _ _ _ _ _ := Scan.keyword hv rfl
    have hin := InOrder.of_scan (hx.trans hy) (.refl t) (.refl _ _)
    refine ⟨_, [], hin.closed, by simpa using hin.rest, by simp, ?_⟩
    rw [hs, hu]
    simpa [sourceMarks, InsertSource.exprs, InsertSource.plans, Expr.untyped, Expr.marks_mk,
      Expr.children, Expr.planNodes, Expr.mark?] using hin.numbers
  | rows hd hc _ ho hs hu =>
    obtain ⟨xs, hx⟩ : ∃ xs, Scan false _ _ xs [] [] := Scan.skipKeyword hd rfl
    obtain ⟨ys, hy⟩ := Cursor.Passes.scan_ok hc fun _ _ hc => readColumns_passes hc
    obtain ⟨zs, hz⟩ := Cursor.Passes.scan_ok ho fun _ _ hc => Overriding.read?_passes hc
    obtain ⟨-, us, hsource⟩ := readSource_inOrder hs
    obtain ⟨segments, hrest, hsegments, hupsert⟩ := readsUpsert_inOrder hu
    have hin := InOrder.prepend ((hx.trans hy).trans hz) hsource
    refine ⟨_, segments, hin.closed, ?_, hsegments, hin.numbers.trans hupsert⟩
    rw [hin.rest, hrest]
    simp

theorem Run.readWritten {i : InsertStatement} (run : Run env s i t) {x : Token} {rest : List Token}
    (hfirst : s.cursor.rest = x :: rest)
    (hk : x.kind = .keyword .INSERT ∨ x.kind = .keyword .REPLACE) :
    Statement.readWritten env s = .ok (.insert, run.written) run.s₂ := by
  simp only [Statement.readWritten, bind_ok, get_ok]
  refine ⟨s, s, ⟨rfl, rfl⟩, ?_⟩
  rcases hk with hk | hk <;>
  · simp only [hfirst, hk, bind_ok, pure_ok]
    exact ⟨_, _, run.mode_ok, _, _, run.written_ok, rfl, rfl⟩

/-- An INSERT has all of its marks from the text: the filters of the views are read, but not kept. -/
theorem Run.readsMarks {i : InsertStatement} (run : Run env s i t) {x : Token} {rest : List Token}
    (hfirst : s.cursor.rest = x :: rest)
    (hk : x.kind = .keyword .INSERT ∨ x.kind = .keyword .REPLACE) {layers : List Layer}
    {state : ViewTarget.Descent}
    (h : ViewTarget.Descends env .insert (ViewTarget.start run.written) run.s₂ layers state run.s₃)
    (htail : IsTail t.cursor.rest) :
    ∃ views, Statement.Peels env s views ∧ ReadsMarks s t (insertOrder s.cursor.rest) views
      (sourceMarks i.source ++ Expr.marksOf (i.onDuplicate.toList.flatMap (·.values)))
      (layers.map fun layer => Expr.marksOf layer.filter.toList) := by
  obtain ⟨xs, hmode⟩ := Cursor.Passes.scan_ok run.mode_ok fun _ _ hc => readMode_passes hc
  obtain ⟨-, ⟨relation, hrelation⟩, -, ys, hwritten⟩ := Range.readTarget_scan run.written_ok
  obtain ⟨views, hpeels, hfilters⟩ := h.numbers hrelation
  obtain ⟨zs, segments, hclosed, hrest, hsegments, hn⟩ := completes_inOrder run.completes
  have hscan := hmode.trans hwritten
  obtain ⟨hout, hcount⟩ := hscan.empty
  -- neither the name nor the column list has a question mark, so reading begins with the source
  have hread : readingOrder (xs ++ ys ++ zs) = readingOrder zs := by
    rw [readingOrder_eq, readingOrder_eq, deferredOrder, deferredOrder, hscan.closed.outlined, hout,
      Outline.empty_append]
  have hstart : s.cursor.rest = xs ++ ys ++ zs ++ segments.flatten ++ t.cursor.rest := by
    rw [hscan.rest, ← h.resolves.cursor, hrest]
    simp
  have hwhole : Paired s.cursor.rest := by
    rw [hstart]
    exact ((hscan.closed.append hclosed).paired.append
      (.flatten fun ts hts => (hsegments ts hts).paired)).append htail.paired
  have hcount : run.s₂.parameters = s.parameters := hcount
  rw [hcount] at hfilters
  -- The views are followed before any question mark of the text is read.
  refine ⟨views, .change (run.readWritten hfirst hk) hrelation hpeels, hwhole.pieces_perm _ _,
    [], insertOrder s.cursor.rest, s.parameters, run.s₃.parameters, [], List.nil_append _, .refl _ _,
    hfilters, ?_⟩
  rw [hstart, insertOrder_eq (hscan.closed.append hclosed) hsegments htail, hread]
  exact hn

end Insert

/-! ## CALL -/

namespace Call

theorem readArguments_scans {oracle : Bool} {arguments : List Expr} {r u : Reading}
    (h : readArguments oracle r = .ok arguments u) : Scans r u arguments := by
  simp only [readArguments, bind_ok] at h
  obtain ⟨opened, v, hopen, h⟩ := h
  rcases Reading.skipSymbol_takes hopen with ⟨rfl, o, ho, hko⟩ | ⟨rfl, rfl⟩
  · simp only [↓reduceIte, bind_ok] at h
    obtain ⟨closed, w, hclose, h⟩ := h
    rcases Reading.skipSymbol_takes hclose with ⟨rfl, x, hx, hkx⟩ | ⟨rfl, rfl⟩
    · obtain ⟨rfl, rfl⟩ := pure_ok.1 h
      exact .nil (Scan.bracket false ho hko (Scan.refl false _) (by simp) hx hkx)
    · simp only [Bool.false_eq_true, ↓reduceIte, bind_ok, pure_ok] at h
      obtain ⟨items, v', hitems, x, _, hx, rfl, rfl⟩ := h
      obtain ⟨hx, hkx⟩ := Reading.symbol_takes hx
      exact .bracket ho hko (Expr.parseList_reads _ _ _ hitems) hx hkx
  · simp only [Bool.false_eq_true, ↓reduceIte] at h
    split at h
    · obtain ⟨rfl, rfl⟩ := pure_ok.1 h
      exact .nil (.refl false _)
    · simp only [bind_ok, get_ok, reject_ok, and_false, exists_false] at h

theorem checkArgument_marks {routine : Routine} {parameter : RoutineParameter} {position : Nat}
    {argument argument' : Expr} (h : checkArgument routine parameter position argument = .ok argument') :
    argument'.marks = argument.marks := by
  unfold checkArgument at h
  dsimp only at h
  split at h
  · cases h
  · split at h
    · cases h
      exact Expr.marks_asColumn ..
    · split at h
      · cases h
        rfl
      · split at h
        · cases h
          rfl
        · cases h

theorem bindArguments_numbers {routine : Routine} {scope : Scope} :
    ∀ {position : Nat} {arguments arguments' : List Expr} {parameters : List RoutineParameter}
      {s t : CompilerState}, parameters.length = arguments.length → (∀ e ∈ arguments, e.Raw) →
      bindArguments env routine scope position arguments parameters s = .ok arguments' t →
      Resolves s t ∧ Numbers s.parameters t.parameters
        ((Expr.bodiesOf arguments).flatMap readingOrder) (Expr.marksOf arguments)
        (Expr.marksOf arguments')
  | _, [], _, _, _, _, _, _, h => by
    obtain ⟨rfl, rfl⟩ := pure_ok.1 h
    exact ⟨.refl _, .refl _ _⟩
  | _, argument :: arguments, _, [], _, _, hlen, _, _ => by simp at hlen
  | _, argument :: arguments, _, parameter :: parameters, _, _, hlen, hraw, h => by
    simp only [bindArguments, bind_ok, lift_except_ok, pure_ok] at h
    obtain ⟨resolved, u, hresolve, checked, _, ⟨hcheck, rfl⟩, rest, _, hrest, rfl, rfl⟩ := h
    have hr := Expr.resolveWith_resolves (Query.compileTokens_resolves env) hresolve
    have hn := Expr.resolveWith_numbers (Query.compileTokens_numbers env) (hraw argument (by simp))
      hresolve
    rw [← checkArgument_marks hcheck] at hn
    obtain ⟨hr', hn'⟩ := bindArguments_numbers (by simpa using hlen)
      (fun e he => hraw e (by simp [he])) hrest
    exact ⟨hr.trans hr', by simpa using hn.trans hn'⟩

/-- Every question mark of a call is read once. -/
theorem compile_numbers {c : CallStatement} (h : Call.compile env s = .ok c t)
    (htail : IsTail t.cursor.rest) :
    ReadsMarks s t (readingOrder s.cursor.rest) [] (Expr.marksOf (Statement.call c).exprs) [] := by
  cases Call.compile_ok h with
  | routine hcall hname hread hfound hbind =>
    obtain ⟨-, h₁⟩ : _ ∧ Scan false _ _ _ _ _ := Scan.keyword hcall rfl
    obtain ⟨xs, h₂⟩ := Cursor.Passes.scan_ok hname fun _ _ hc => Reader.qualifiedName_passes hc
    obtain ⟨hraw, ys, h₃⟩ := Scans.lift hread fun _ hr => readArguments_scans hr
    obtain ⟨hr, hn⟩ := bindArguments_numbers (arity_of_found hfound) hraw hbind
    exact ReadsMarks.of_inOrder (.of_scan ((h₁.trans h₂.weaken).trans h₃) hr
      (by simpa [Statement.exprs] using hn)) rfl htail
  | expression hcall hparse hresolve =>
    obtain ⟨-, h₁⟩ : _ ∧ Scan false _ _ _ _ _ := Scan.keyword hcall rfl
    obtain ⟨hraw, ys, h₂⟩ := Scan.parsed Expr.parse_reads hparse
    have hr := Expr.resolveWith_resolves (Query.compileTokens_resolves env) hresolve
    have hn := Expr.resolveWith_numbers (Query.compileTokens_numbers env) hraw hresolve
    exact ReadsMarks.of_inOrder
      (.of_scan (h₁.trans h₂.weaken) hr (by simpa [Statement.exprs] using hn)) rfl htail

end Call

/-! ## TRUNCATE -/

namespace Truncate

theorem readTarget_scan {written : TruncateTarget × WriteSet} (h : readTarget env s = .ok written t) :
    ∃ xs, Scan false s.toReading t.toReading xs [] [] := by
  simp only [readTarget, bind_ok] at h
  obtain ⟨isTable, u, htable, h⟩ := h
  obtain ⟨xs, hx⟩ : ∃ xs, Scan false _ _ xs [] [] := Scan.skipKeyword htable rfl
  cases isTable with
  | true =>
    simp only [↓reduceIte, readTable, bind_ok] at h
    obtain ⟨range, v, hread, h⟩ := h
    obtain ⟨-, -, -, ys, hy⟩ := Range.readTarget_scan hread
    obtain ⟨m, hm, h⟩ := run_eq h
    split at hm <;> subst hm
    · obtain ⟨-, rfl⟩ := pure_ok.1 h
      exact ⟨_, hx.trans hy⟩
    · exact (reject_ok.1 h).elim
  | false =>
    simp only [Bool.false_eq_true, ↓reduceIte, bind_ok] at h
    obtain ⟨isSchema, v, hschema, h⟩ := h
    obtain ⟨ys, hy⟩ : ∃ ys, Scan false _ _ ys [] [] := Scan.skipKeyword hschema rfl
    cases isSchema with
    | true =>
      simp only [↓reduceIte, readSchema, bind_ok] at h
      obtain ⟨name, w, hname, h⟩ := h
      obtain ⟨zs, hz⟩ : ∃ zs, Scan false _ _ zs [] [] :=
        Cursor.Passes.scan_ok hname fun _ _ hc => .identifier (Reader.identifier_ok hc)
      obtain ⟨m, hm, h⟩ := run_eq h
      split at hm <;> subst hm
      · obtain ⟨-, rfl⟩ := pure_ok.1 h
        exact ⟨_, (hx.trans hy).trans hz⟩
      · exact (reject_ok.1 h).elim
    | false =>
      simp only [Bool.false_eq_true, ↓reduceIte, bind_ok, get_ok, reject_ok, and_false,
        exists_false] at h

theorem readRestart_passes {restart : Bool} {c d : Cursor} (h : readRestart c = .ok restart d) :
    Cursor.Passes false c d := by
  simp only [readRestart, bind_ok] at h
  obtain ⟨restarts, e, hrestart, h⟩ := h
  have he : Cursor.Passes false c e := .skipKeyword hrestart rfl
  cases restarts with
  | true =>
    simp only [↓reduceIte, bind_ok, pure_ok] at h
    obtain ⟨x, _, hx, -, rfl⟩ := h
    exact he.trans (.keyword (Reader.keyword_ok hx) rfl)
  | false =>
    simp only [Bool.false_eq_true, ↓reduceIte, bind_ok] at h
    obtain ⟨continues, f, hcontinue, h⟩ := h
    have hf : Cursor.Passes false c f := he.trans (.skipKeyword hcontinue rfl)
    cases continues with
    | true =>
      simp only [↓reduceIte, bind_ok, pure_ok] at h
      obtain ⟨x, _, hx, -, rfl⟩ := h
      exact hf.trans (.keyword (Reader.keyword_ok hx) rfl)
    | false =>
      obtain ⟨-, rfl⟩ := pure_ok.1 h
      exact hf

theorem readForm_passes {target : TruncateTarget} {form : TruncateForm} {c d : Cursor}
    (h : readForm target c = .ok form d) : Cursor.Passes false c d := by
  simp only [readForm, bind_ok] at h
  obtain ⟨commits, e, hand, h⟩ := h
  have he : Cursor.Passes false c e := .skipKeyword hand rfl
  cases commits with
  | true =>
    simp only [↓reduceIte, bind_ok] at h
    obtain ⟨x, f, hx, no, g, hno, h⟩ := h
    have hg : Cursor.Passes false c g :=
      (he.trans (.keyword (Reader.keyword_ok hx) rfl)).trans (.skipKeyword hno rfl)
    cases no with
    | true =>
      simp only [↓reduceIte, bind_ok, pure_ok] at h
      obtain ⟨y, _, hy, -, rfl⟩ := h
      exact hg.trans (.keyword (Reader.keyword_ok hy) rfl)
    | false =>
      obtain ⟨-, rfl⟩ := pure_ok.1 h
      exact hg
  -- without a commit option TRUNCATE SCHEMA is refused
  | false =>
    cases target with
    | table =>
      obtain ⟨-, rfl⟩ := pure_ok.1 h
      exact he
    | schema =>
      simp only [Bool.false_eq_true, ↓reduceIte, bind_ok, get_ok, throw_ok, and_false,
        exists_false] at h

/-- A TRUNCATE reads no question mark, and there is none. -/
theorem compile_numbers {r : TruncateStatement} (h : Truncate.compile env s = .ok r t)
    (htail : IsTail t.cursor.rest) : ReadsMarks s t (readingOrder s.cursor.rest) [] [] [] := by
  simp only [compile, bind_ok, pure_ok] at h
  obtain ⟨x, u, hx, ⟨target, tables⟩, v, htarget, restart, w, hrestart, form, _, hform, -, rfl⟩ := h
  obtain ⟨-, h₁⟩ : _ ∧ Scan false _ _ _ _ _ := Scan.keyword hx rfl
  obtain ⟨xs, h₂⟩ := readTarget_scan htarget
  obtain ⟨ys, h₃⟩ := Cursor.Passes.scan_ok hrestart fun _ _ hc => readRestart_passes hc
  obtain ⟨zs, h₄⟩ := Cursor.Passes.scan_ok hform fun _ _ hc => readForm_passes hc
  exact ReadsMarks.of_inOrder
    (.of_scan (((h₁.trans h₂).trans h₃).trans h₄) (.refl _) (.refl _ _)) rfl htail

end Truncate

end DataChange
