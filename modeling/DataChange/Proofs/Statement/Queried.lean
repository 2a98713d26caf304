import DataChange.Proofs.Catalog
import DataChange.Proofs.Query.Columns
import DataChange.Proofs.Statement.CompileRuns
import DataChange.Proofs.Statement.InsertRuns

/-!
# Rows from a query

An INSERT from a query holds the types that the query declares against its columns. This is enough
for what is selected. For VALUES it is not: the types of the columns are the expected ones there,
which the columns of the target accept whatever the values are (`produced_takes_iff`).
-/

namespace DataChange

variable {env : Environment} {s t : CompilerState}

/-- What an INSERT takes from a query for a column, unless it generates the value itself. -/
structure InsertStatement.Receives (i : InsertStatement) (plan : Plan) : Prop where
  length : ∀ values ∈ plan.produced, values.length = i.columnMap.length
  takes_iff : ∀ values ∈ plan.produced, ∀ (k ordinal : Nat) column e,
    i.columnMap.ordinals[k]? = some ordinal → i.target.columns[ordinal]? = some column →
    values[k]? = some e → (column.isIdentity = true → i.overrideIndex = none) →
    (column.type.Takes e ↔ plan.isSelect = true ∨ e.isRow = false ∧
      ∀ t, e.type? = some t → column.type.assignableFrom t = true)

/-- How an INSERT comes to take its rows from a query. -/
inductive Queries (env : Environment) (i : InsertStatement) (plan : Plan) : Prop
  | intro {outer : List RangeGroup} {expected : List SqlType} {s t : CompilerState}
      (hexpected : i.columnMap.ordinals.mapM (fun ordinal =>
        i.target.columns[ordinal]?.map (·.type)) = some expected)
      (hplan : Query.compile env outer (some expected) s = .ok plan t)
      (hlen : plan.columns.length = i.columnMap.length)
      (haccepts : ∀ x ∈ i.columnMap.ordinals.zip plan.columnTypes,
        ∃ column, i.target.columns[x.1]? = some column ∧
          (column.type.assignableFrom x.2 = true ∨
            column.isIdentity = true ∧ i.overrideIndex.isSome = true)) : Queries env i plan

theorem Insert.Run.queries {i : InsertStatement} {plan : Plan} (run : Insert.Run env s i t)
    (hsource : i.source = .query plan) : Queries env i plan := by
  cases run.completes with
  | defaults _ _ hs _ => simp [hsource] at hs
  | rows _ _ _ _ hs _ =>
    rw [hsource] at hs
    generalize hoverridden : i.overrideIndex = overridden at hs
    cases hs with
    | query _ hexpected hplan hlen hcolumns =>
      obtain ⟨-, -, haccepts⟩ := queryColumnsFrom_ok hcolumns
      rw [← run.relation] at hexpected haccepts
      exact .intro hexpected hplan hlen (hoverridden ▸ haccepts)

theorem Queries.receives {i : InsertStatement} {plan : Plan} (h : Queries env i plan) :
    i.Receives plan := by
  obtain @⟨_, expected, _, _, hexpected, hplan, hlen, haccepts⟩ := h
  have hdeclares := Query.compile_declares hplan
  refine ⟨fun values hvalues => (hdeclares.length values hvalues).trans hlen, ?_⟩
  intro values hvalues k ordinal column e hordinal hcolumn he hgiven
  obtain ⟨declared, hdeclared⟩ : ∃ declared, plan.columns[k]? = some declared := by
    obtain ⟨hk, -⟩ := List.getElem?_eq_some_iff.1 he
    exact ⟨_, List.getElem?_eq_getElem (hdeclares.length values hvalues ▸ hk)⟩
  have htakes := hdeclares.takes_iff values hvalues k declared e hdeclared he
  cases hselect : plan.isSelect with
  | true =>
    have hmem : (ordinal, declared.type) ∈ i.columnMap.ordinals.zip plan.columnTypes := by
      refine List.mem_of_getElem? (i := k) ?_
      simp [List.getElem?_zip_eq_some, hordinal, Plan.columnTypes, hdeclared]
    obtain ⟨column', hcolumn', haccepts⟩ := haccepts _ hmem
    obtain rfl : column = column' := by simpa [hcolumn] using hcolumn'
    have htype := hdeclares.selected hselect values hvalues k declared e hdeclared he
    have hscalar : e.shape = .scalar := (htakes.2 (.inl hselect)).1
    refine iff_of_true ⟨hscalar, declared.type, htype, ?_⟩ (.inl rfl)
    rcases haccepts with haccepts | ⟨hidentity, hoverridden⟩
    · exact haccepts
    · simp [hgiven hidentity] at hoverridden
  | false =>
    -- any other query was given the types of its target columns, and has taken them
    have hwanted : Query.expectedType? (some expected) k = some column.type := by
      obtain ⟨type, htype, hget⟩ := getElem?_mapM hexpected hordinal
      simpa [Query.expectedType?, hget, hcolumn] using htype.symm
    have htype := hdeclares.wanted hselect k declared column.type hdeclared hwanted
    rw [← htype, htakes, hselect, hwanted]
    simp [htype]

namespace Statement

/-- The query that an INSERT takes its rows from. -/
def insertedPlan? : Statement → Option (InsertStatement × Plan)
  | insert i => i.source.plans.head?.map (i, ·)
  | _ => none

theorem insertedPlan?_ok {statement : Statement} {i : InsertStatement} {plan : Plan}
    (h : statement.insertedPlan? = some (i, plan)) :
    statement = .insert i ∧ i.source = .query plan := by
  cases statement with
  | insert j =>
    obtain ⟨p, hp, heq⟩ := Option.map_eq_some_iff.1 h
    obtain ⟨rfl, rfl⟩ := Prod.mk.inj heq
    cases hs : j.source with
    | values rows => simp [hs, InsertSource.plans] at hp
    | query q => simpa [hs, InsertSource.plans] using hp
  | _ => cases h

/-- An INSERT from a query that compiles on its own, with what is computed of the query. -/
theorem exists_insertedPlan (env : Environment) (text : String) (check : Plan → Bool)
    {chars : List Char} (htext : text = String.ofList chars)
    (h : compilesTo env (fun statement => statement.insertedPlan?.any fun x => check x.2) chars =
      true) :
    ∃ i plan t, compile env text .initial = .ok (.insert i) t ∧ i.source = .query plan ∧
      check plan = true := by
  obtain ⟨statement, t, hcompile, hcheck⟩ :=
    exists_compile env text (fun statement => statement.insertedPlan?.any fun x => check x.2)
      htext h
  obtain ⟨⟨i, plan⟩, hplan, hholds⟩ := (Option.any_eq_true _ _).1 hcheck
  obtain ⟨rfl, hsource⟩ := insertedPlan?_ok hplan
  exact ⟨i, plan, t, hcompile, hsource, hholds⟩

/-- The query of an INSERT that compiles was compiled. -/
theorem compile_queries {env : Environment} {text : String} {i : InsertStatement} {plan : Plan}
    {s t : CompilerState} (h : compile env text s = .ok (.insert i) t)
    (hsource : i.source = .query plan) : Queries env i plan := by
  obtain ⟨tokens, u, c, -, hhead, -⟩ := compile_ok h
  obtain ⟨x, rest, -, hrun⟩ := compileHead_ok hhead
  cases hrun with
  | insert _ hinsert =>
    obtain ⟨run⟩ := Insert.compile_ok hinsert
    exact run.queries hsource

/-- A query declares for its columns types that take the values which it produces, if and only if
these are selected, or are no rows and have types that the expected ones accept. So an INSERT from
the query stores what its columns take if the rows are selected, and may store anything if they are
from VALUES. -/
theorem produced_takes_iff {env : Environment} {outer : List RangeGroup}
    {expected : Query.Expectation} {plan : Plan} {s t : CompilerState}
    (h : Query.compile env outer expected s = .ok plan t) :
    plan.Declares expected ∧ ∀ {text s i t}, compile env text s = .ok (.insert i) t →
      i.source = .query plan → i.Receives plan :=
  ⟨Query.compile_declares h, fun hcompile hsource => (compile_queries hcompile hsource).receives⟩

/-- Rows from a query, of which some values are given for parameters. -/
def queriedRows : String :=
  "INSERT INTO ledger (amount, memo) (VALUES (1, ?), (?, 'x'))"

set_option maxRecDepth 10000 in
theorem produced_takes_iff_values :
    ∃ i plan t, compile .bank queriedRows .initial = .ok (.insert i) t ∧ i.source = .query plan ∧
      plan.produced.length = 2 ∧ i.Receives plan ∧ ∃ outer expected s u,
        Query.compile .bank outer expected s = .ok plan u ∧ plan.Declares expected := by
  obtain ⟨i, plan, t, hcompile, hsource, hlength⟩ := exists_insertedPlan .bank queriedRows
    (fun plan => plan.produced.length = 2) rfl (by decide +kernel)
  obtain ⟨-, hplan, -, -⟩ := compile_queries hcompile hsource
  obtain ⟨hdeclares, hreceives⟩ := produced_takes_iff hplan
  exact ⟨i, plan, t, hcompile, hsource, by simpa using hlength, hreceives hcompile hsource, _, _, _,
    _, hplan, hdeclares⟩

/-- A text from a query for a column of numbers. -/
def textFromValues : String :=
  "INSERT INTO t (a) (VALUES ('x'))"

/-- Whether the first value of a query has a type that its column does not accept. -/
def misdeclares (plan : Plan) : Bool :=
  match plan.columns.head?, plan.produced.head?.bind List.head? with
  | some column, some e => e.type?.any fun t => !column.type.assignableFrom t
  | _, _ => false

set_option maxRecDepth 10000 in
/-- A query declares a type for its column that does not take its value, and the value is inserted. -/
theorem textFromValues_misdeclared :
    ∃ i plan t, compile .bank textFromValues .initial = .ok (.insert i) t ∧
      i.source = .query plan ∧
      (∃ outer expected s u, Query.compile .bank outer expected s = .ok plan u) ∧
      ∃ values ∈ plan.produced, ∃ column e, plan.columns[0]? = some column ∧
        values[0]? = some e ∧ ¬ column.type.Takes e := by
  obtain ⟨i, plan, t, hcompile, hsource, hcheck⟩ := exists_insertedPlan .bank textFromValues
    misdeclares rfl (by decide +kernel)
  obtain ⟨-, hplan, -, -⟩ := compile_queries hcompile hsource
  refine ⟨i, plan, t, hcompile, hsource, ⟨_, _, _, _, hplan⟩, ?_⟩
  unfold misdeclares at hcheck
  split at hcheck
  · next column e hcolumn he =>
    obtain ⟨values, hvalues, he⟩ := Option.bind_eq_some_iff.1 he
    obtain ⟨t, ht, hrefuses⟩ := (Option.any_eq_true _ _).1 hcheck
    refine ⟨values, List.mem_of_mem_head? hvalues, column, e,
      List.head?_eq_getElem? ▸ hcolumn, List.head?_eq_getElem? ▸ he, ?_⟩
    rintro ⟨-, u, hu, haccepts⟩
    obtain rfl : t = u := by simpa [ht] using hu
    simp [haccepts] at hrefuses
  · cases hcheck

end Statement

end DataChange
