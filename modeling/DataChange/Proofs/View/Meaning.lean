import DataChange.Proofs.Expr.Meaning
import DataChange.Proofs.View.Written

/-!
# What a statement against a view means

Each view that a statement passes shows some columns of its base. So one row of the range that is
changed has a projection at every range on the way (`Layer.rows`), and there the filters of the
views and what the statement says can be evaluated. `means_written` says that the compiled
statement evaluates to the same on the row itself: its condition to the conjunction of all filters,
the lowest first, and of the condition that is written, and each of its other expressions to what
is written.
-/

namespace DataChange

variable {V : Type}

/-! ## Conjunctions of values -/

namespace Evaluator

variable (E : Evaluator V)

/-- The conjunction of two values. -/
def and (a b : V) : V :=
  E.node (.binary .and) (some .boolean) [a, b]

/-- The evaluator does not look at how conjunctions are nested. -/
def AndAssoc : Prop :=
  ∀ a b c, E.and (E.and a b) c = E.and a (E.and b c)

/-- The conjunction of two values that may be missing. -/
def and? : Option V → Option V → Option V
  | some a, some b => some (E.and a b)
  | some a, none => some a
  | none, b => b

/-- The conjunction of some values. -/
def conj : List V → Option V
  | [] => none
  | a :: as => E.and? (some a) (conj as)

variable {E}

@[simp] theorem and?_none (a : Option V) : E.and? a none = a := by
  cases a <;> rfl

@[simp] theorem none_and? (a : Option V) : E.and? none a = a := rfl

theorem AndAssoc.and? (h : E.AndAssoc) (a b c : Option V) :
    E.and? (E.and? a b) c = E.and? a (E.and? b c) := by
  cases a <;> cases b <;> cases c <;> simp [Evaluator.and?, h _ _ _]

theorem AndAssoc.conj_append (h : E.AndAssoc) (as bs : List V) :
    E.conj (as ++ bs) = E.and? (E.conj as) (E.conj bs) := by
  induction as with
  | nil => rfl
  | cons a as ih => rw [List.cons_append, conj, ih, conj, h.and?]

@[simp] theorem conj_toList (a : Option V) : E.conj a.toList = a := by
  cases a <;> rfl

end Evaluator

/-- The evaluator that lists the columns that are read, by range and ordinal. -/
def Evaluator.reads : Evaluator (List (Nat × Nat)) where
  missing := []
  parameter _ := []
  node _ _ operands := operands.flatten
  select _ _ _ values :=
    let row := values fun id column => [(id, column)]
    row.projection.flatten ++ (row.joins.flatMap Option.toList).flatten ++ row.condition.toList.flatten
  values _ _ rows := rows

theorem Evaluator.reads_andAssoc : reads.AndAssoc := by
  simp [AndAssoc, and, reads]

theorem Expr.eval_and? {E : Evaluator V} {ρ : Valuation V} (e f : Option Expr) :
    (Expr.and? e f).map (fun e => e.eval E ρ) =
      E.and? (e.map fun e => e.eval E ρ) (f.map fun f => f.eval E ρ) := by
  cases e <;> cases f <;> rfl

/-! ## Projections -/

/-- The valuation in which the range `source` shows the columns of the range `target` that a map
leads to. -/
def Valuation.project (E : Evaluator V) (source : Nat) (columnMap : List Nat) (target : Nat)
    (ρ : Valuation V) : Valuation V :=
  fun id column =>
    if id = source then (columnMap[column]?.map (ρ target)).getD E.missing else ρ id column

namespace Layer

/-- The rows of the ranges from `source` on, as projections of the row of the last one. -/
def rows (E : Evaluator V) (source : Nat) : List Layer → Valuation V → Valuation V
  | [], ρ => ρ
  | l :: ls, ρ => (rows E l.range.id ls ρ).project E source l.base.columnMap l.range.id

/-- The filters of some views on the projections of a row, those of the lowest view first. -/
def filters (E : Evaluator V) : List Layer → Valuation V → List V
  | [], _ => []
  | l :: ls, ρ => filters E ls ρ ++ (l.filter.map fun e => e.eval E (rows E l.range.id ls ρ)).toList

variable {E : Evaluator V} {ρ : Valuation V}

/-- Projecting leaves all other ranges alone. -/
theorem rows_of_not_mem {id source : Nat} {layers : List Layer}
    (h : id ∉ source :: layers.map (·.range.id)) : rows E source layers ρ id = ρ id := by
  induction layers generalizing source with
  | nil => rfl
  | cons l ls ih =>
    simp only [List.map_cons, List.mem_cons, not_or] at h
    funext column
    simp only [rows, Valuation.project, if_neg h.1]
    rw [ih (by simpa using h.2)]

end Layer

namespace ViewTarget

variable {E : Evaluator V} {ρ : Valuation V} {env : Environment} {operation : Operation}
  {s t : CompilerState}

/-- The composed map leads to the column that is shown. -/
theorem Descends.rows_column {state state' : Descent} {layers : List Layer}
    (h : Descends env operation state s layers state' t) {i column : Nat}
    (hi : state.columnMap[i]? = some column) :
    ∃ ordinal, state'.columnMap[i]? = some ordinal ∧
      Layer.rows E state.range.id layers ρ state.range.id column = ρ state'.range.id ordinal := by
  induction h generalizing column with
  | done => exact ⟨column, hi, rfl⟩
  | @pass state state' s t u view base relation range filter outerFilter columnMap layers hview hbase
      hrelation hrange houter hfilter hmap hrest ih =>
    obtain ⟨next, hnext, hmapped⟩ := getElem?_mapM hmap hi
    obtain ⟨ordinal, hordinal, hvalue⟩ := ih hmapped
    refine ⟨ordinal, hordinal, ?_⟩
    rw [← hvalue]
    simp only [Layer.rows, Valuation.project, if_pos, hnext, Option.map_some, Option.getD_some,
      Range.markAllUsed]

/-- What a filter means on the projection at one range, it means at the next range once moved. -/
theorem eval_outerFilter {state : Descent} {past : List Nat} {view : View} {base : ViewBase}
    {relation : Relation} {range : Range} {outerFilter : Option Expr} (hviews : env.MapsColumns)
    (hinv : Descent.Inv env state s past) (hview : viewToPass? operation state.range = some view)
    (hbase : view.base = some base)
    (hrange : range = .ofRelation s.nextRange relation none state.range.fragment)
    (houter : state.filter.mapM (Expr.redirect state.range.id range base.columnMap) =
      some outerFilter) :
    outerFilter.map (fun e => e.eval E ρ) =
      state.filter.map fun e => e.eval E (ρ.project E state.range.id base.columnMap range.id) := by
  have hlength := columnMap_length hviews hinv.known hview hbase
  cases hf : state.filter with
  | none =>
    obtain rfl : none = outerFilter := by simpa [hf] using houter
    rfl
  | some filter =>
    obtain ⟨moved, hmoved, rfl⟩ : ∃ moved,
        Expr.redirect state.range.id range base.columnMap filter = some moved ∧
          some moved = outerFilter := by
      simpa [hf, Option.map_eq_some_iff] using houter
    have hshows : (ρ.project E state.range.id base.columnMap range.id).Shows ρ state.range.id
        range.id base.columnMap [state.range.heading] := by
      intro x hx column hcolumn
      obtain rfl := List.mem_singleton.1 hx
      -- the filter refers to the range that is left only, and the map has an entry for each column
      refine ⟨fun _ => ?_, fun hne => absurd rfl hne⟩
      have hlt : column < base.columnMap.length := hlength ▸ hcolumn
      exact ⟨base.columnMap[column], List.getElem?_eq_getElem hlt, by
        simp [Valuation.project, List.getElem?_eq_getElem hlt]⟩
    have hid : range.id = s.nextRange := by simp [hrange, Range.ofRelation, Range.fresh]
    have hfilter := (hinv.filter filter hf).resolved
    have hsource : ¬ Aside s.nextRange past state.range.id := fun h => h.2 hinv.passed
    have htarget : ¬ Aside s.nextRange past range.id := fun h => absurd h.1 (by omega)
    simp only [Option.map_some, Expr.eval_redirect hmoved hshows hfilter hsource htarget]

/-- The filter that is collected means what the filters of all views mean on the projections. -/
theorem Descends.eval_filter {state state' : Descent} {layers : List Layer} {past : List Nat}
    (h : Descends env operation state s layers state' t) (hviews : env.MapsColumns)
    (hassoc : E.AndAssoc) (hinv : Descent.Inv env state s past) :
    state'.filter.map (fun e => e.eval E ρ) = E.and? (E.conj (Layer.filters E layers ρ))
      (state.filter.map fun e => e.eval E (Layer.rows E state.range.id layers ρ)) := by
  induction h generalizing past with
  | done => rfl
  | @pass state state' s t u view base relation range filter outerFilter columnMap layers hview hbase
      hrelation hrange houter hfilter hmap hrest ih =>
    have hinv' := hinv.pass hviews.covers hview hbase hrelation hrange houter hfilter columnMap
    rw [ih hinv', Expr.eval_and?, eval_outerFilter hviews hinv hview hbase hrange houter]
    simp only [Layer.filters, Layer.rows, Range.markAllUsed, hassoc.conj_append,
      Evaluator.conj_toList, hassoc.and?]

end ViewTarget

/-! ## Statements -/

/-- The rows of the ranges from the one that a statement names, as projections of the row that is
changed. -/
def Written.rows (w : Written) (E : Evaluator V) (ρ : Valuation V) : Valuation V :=
  Layer.rows E w.range.id w.layers ρ

section

variable {E : Evaluator V} {ρ : Valuation V} {env : Environment} {s : CompilerState} {w : Written}
  {beside : List Range} {next : Nat} {statement : Statement}

/-- The rules for columns do not change what a value means. -/
theorem Expr.Assigned.eval {e e' : Expr} (h : e.Assigned e') : e'.eval E ρ = e.eval E ρ := by
  rcases h.2 with rfl | ⟨type, writeable, rfl⟩
  · rfl
  · exact eval_asColumn e type writeable

theorem Expr.AssignedValue.eval {e e' : Expr} (h : e.AssignedValue e') :
    e'.eval E ρ = e.eval E ρ := by
  cases h with
  | cell _ h => exact h.eval
  | query => rfl
  | row h =>
    simp only [Expr.eval, ExprKind.eval]
    rw [evalOfList_congr (h.imp fun _ _ h => h.eval)]

namespace Moved

/-- The composed map shows the range that a statement names. -/
theorem shows (h : Moved env s w beside next statement) (houter : s.OuterIssued) :
    (w.rows E ρ).Shows ρ w.range.id w.target.range.id w.target.columnMap
      (w.range.heading :: Scope.headings ⟨beside, s.outer⟩) := by
  obtain ⟨operation, a, b, hdescends, -, -⟩ := h.descends
  intro x hx column hcolumn
  rcases List.mem_cons.1 hx with rfl | hx
  · refine ⟨fun _ => ?_, fun hne => absurd rfl hne⟩
    have hlt : column < w.range.columns.length := hcolumn
    exact hdescends.rows_column (by simp [ViewTarget.start, hlt])
  · have hpast := h.apart houter x hx
    refine ⟨fun heq => absurd ?_ hpast, fun _ => ?_⟩
    · simp [heq, Written.past, Layer.past]
    · exact congrFun (Layer.rows_of_not_mem fun hmem => hpast (by
        simpa [Written.past, Layer.past, or_comm] using hmem)) column

/-- What is moved means on the row that is changed what it meant on its projection. -/
theorem eval_moved (h : Moved env s w beside next statement) (houter : s.OuterIssued) {e m : Expr}
    (he : e.Resolved (ViewTarget.Aside next w.past)
      (w.range.heading :: Scope.headings ⟨beside, s.outer⟩))
    (hm : w.target.moved e = some m) : m.eval E ρ = e.eval E (w.rows E ρ) := by
  rcases h.lands with ⟨hnil, -, hstays⟩ | ⟨hpast, -, hmoves⟩
  · obtain rfl : e = m := by simpa [hstays] using hm
    simp [Written.rows, hnil, Layer.rows]
  · rw [hmoves] at hm
    refine Expr.eval_redirect hm (h.shows houter) he (fun haside => haside.2 ?_)
      fun haside => haside.2 hpast
    simp [Written.past, Layer.past]

theorem eval_condition (h : Moved env s w beside next statement) (houter : s.OuterIssued)
    (hviews : env.MapsColumns) (hassoc : E.AndAssoc) :
    statement.condition?.map (fun e => e.eval E ρ) = E.conj (Layer.filters E w.layers ρ ++
      (w.condition.map fun e => e.eval E (w.rows E ρ)).toList) := by
  obtain ⟨operation, a, b, hdescends, hlt, -⟩ := h.descends
  obtain ⟨c, hc, hcondition⟩ := h.condition
  have hfilter : w.target.filter.map (fun e => e.eval E ρ) = E.conj (Layer.filters E w.layers ρ) := by
    have hall : w.target.filter.map (fun e => e.eval E ρ) =
        E.and? (E.conj (Layer.filters E w.layers ρ)) none :=
      hdescends.eval_filter hviews hassoc (h.starts hlt)
    simpa using hall
  have hmoved : c.map (fun e => e.eval E ρ) = w.condition.map fun e => e.eval E (w.rows E ρ) := by
    cases hw : w.condition with
    | none =>
      obtain rfl : none = c := by simpa [hw] using hc
      rfl
    | some e =>
      obtain ⟨m, hm, rfl⟩ : ∃ m, w.target.moved e = some m ∧ some m = c := by
        simpa [hw, Option.map_eq_some_iff] using hc
      simp only [Option.map_some, h.eval_moved houter (h.typed e hw).resolved hm]
  rw [hcondition, Expr.eval_and?, hassoc.conj_append, Evaluator.conj_toList, hfilter, hmoved]

theorem eval_exprs (h : Moved env s w beside next statement) (houter : s.OuterIssued) :
    List.Forall₂ (fun e e' => e'.eval E ρ = e.eval E (w.rows E ρ)) w.exprs statement.changing := by
  refine ((List.forall₂_and_left _ _).2 ⟨h.resolved, h.exprs⟩).imp fun e e' hboth => ?_
  obtain ⟨he, m, hm, rfl | hassigned⟩ := hboth
  · exact h.eval_moved houter he hm
  · rw [hassigned.eval, h.eval_moved houter he hm]

end Moved

end

namespace Statement

/-- The compiled form of an UPDATE, DELETE or MERGE means on the row that is changed what is
written means on its projections, with the filters of all views that are passed. -/
theorem means_written {env : Environment} {s t : CompilerState} {text : String}
    {statement : Statement} (hviews : env.MapsColumns) (houter : s.OuterIssued)
    (h : compile env text s = .ok statement t) (hkind : statement.changesRows = true) :
    ∃ tokens u w, tokenize text = .ok tokens ∧
      Writes env { s with cursor := .ofTokens tokens } u statement w ∧
      ∀ {V : Type} (E : Evaluator V), E.AndAssoc → ∀ ρ : Valuation V,
        statement.condition?.map (fun e => e.eval E ρ) =
          E.conj (Layer.filters E w.layers ρ ++
            (w.condition.map fun e => e.eval E (w.rows E ρ)).toList) ∧
        List.Forall₂ (fun e e' => e'.eval E ρ = e.eval E (w.rows E ρ)) w.exprs
          statement.changing := by
  obtain ⟨tokens, u, c, htokens, hhead, -, -⟩ := compile_ok h
  obtain ⟨w, beside, hwrites, hmoved⟩ := compileHead_writes hhead hkind
  exact ⟨tokens, u, w, htokens, hwrites, fun E hassoc ρ =>
    ⟨hmoved.eval_condition houter hviews hassoc, hmoved.eval_exprs houter⟩⟩

/-- A statement against a view of a view, with a subquery that reads the row of the view. -/
def correlated : String :=
  "UPDATE rich_active SET balance = (SELECT amount FROM ledger WHERE memo = name) WHERE id = 1"

set_option maxRecDepth 10000 in
theorem means_written_correlated :
    ∃ statement t tokens u w, compile .bank correlated .initial = .ok statement t ∧
      statement.writeTables = [⟨some "public", "account"⟩] ∧ tokenize correlated = .ok tokens ∧
      Writes .bank { CompilerState.initial with cursor := .ofTokens tokens } u statement w ∧
      ∀ ρ : Valuation (List (Nat × Nat)),
        statement.condition?.map (fun e => e.eval .reads ρ) =
          Evaluator.reads.conj (Layer.filters .reads w.layers ρ ++
            (w.condition.map fun e => e.eval .reads (w.rows .reads ρ)).toList) ∧
        List.Forall₂ (fun e e' => e'.eval .reads ρ = e.eval .reads (w.rows .reads ρ)) w.exprs
          statement.changing := by
  obtain ⟨statement, t, hcompile, hcheck⟩ := exists_compile .bank correlated
    (fun statement => statement.changesRows &&
      statement.writeTables = [⟨some "public", "account"⟩]) rfl (by decide +kernel)
  simp only [Bool.and_eq_true, decide_eq_true_eq] at hcheck
  obtain ⟨tokens, u, w, htokens, hwrites, hmeans⟩ := means_written Environment.bank_mapsColumns
    CompilerState.initial_outerIssued hcompile hcheck.1
  exact ⟨statement, t, tokens, u, w, hcompile, hcheck.2, htokens, hwrites,
    hmeans .reads Evaluator.reads_andAssoc⟩

end Statement

end DataChange
