import DataChange.Proofs.Expr.Refused
import DataChange.Proofs.Query.Values

/-!
# Queries that are refused

Compiling a query fails by refusal only. VALUES looks at its first row, which is there since a list
is never empty, and at one type for each cell of a row, which there is since all rows have as many
cells as the first (`compileValues_refuses`).
-/

namespace DataChange

open DataChange.Expr (RefusesQueries)

namespace Range

variable {s : CompilerState}

@[simp] theorem ofNew_refuses (relation : Relation) (asName : Option String) (fragment : Fragment) :
    Refuses (ofNew relation asName fragment) s := by
  simp [ofNew]

@[simp] theorem named_refuses (env : Environment) (name : QualifiedName) (asName : Option String)
    (fragment : Fragment) : Refuses (named env name asName fragment) s := by
  simp [named]

@[simp] theorem readRelation_refuses (env : Environment) : Refuses (readRelation env) s := by
  simp [readRelation]

@[simp] theorem readTarget_refuses (env : Environment) (operation : Operation) :
    Refuses (readTarget env operation) s := by
  simp only [readTarget, refuses_bind, refuses_reader_compiler, true_and]
  intro name t _
  cases operation <;> simp

end Range

namespace Query

variable {env : Environment} {compile : QueryCompiler} {outer : List RangeGroup}
  {expected : Expectation} {s : CompilerState}

/-! ## SELECT and TABLE -/

@[simp] theorem readItem_refuses : Refuses readItem s := by
  simp only [readItem, refuses_bind, refuses_reader_compiler, true_and]
  intro star t _
  split <;> simp

theorem selectItem_refuses (hcompile : RefusesQueries compile) (scope : Scope)
    (selection : Selection) (item : Item) :
    Refuses (selectItem compile scope expected selection item) s := by
  cases item with
  | all fragment => simp [selectItem]
  | expression e asName => simp [selectItem, Expr.resolveWith_refuses hcompile]

@[simp] theorem readCondition_refuses : Refuses readCondition s := by
  simp [readCondition]

theorem resolveCondition?_refuses (hcompile : RefusesQueries compile) (scope : Scope)
    (condition : Option Expr) : Refuses (resolveCondition? compile scope condition) s := by
  cases condition with
  | none => exact refuses_pure none
  | some e => simp [resolveCondition?, Expr.resolveConditionWith_refuses hcompile]

theorem compileSelect_refuses (hcompile : RefusesQueries compile) :
    Refuses (compileSelect env compile outer expected) s := by
  have hitems : ∀ {scope : Scope} {items : List Item} {s : CompilerState},
      Refuses (items.foldlM (selectItem compile scope expected) {}) s :=
    refuses_foldlM (fun _ => True)
      (fun _ _ _ _ _ => ⟨selectItem_refuses hcompile _ _ _, fun _ _ _ => trivial⟩) trivial
  have hlist : ∀ {s : CompilerState}, Refuses (commaSeparated readItem) s :=
    refuses_compiledList fun _ => readItem_refuses
  have hranges : ∀ {s : CompilerState}, Refuses (commaSeparated (Range.readRelation env)) s :=
    refuses_compiledList fun _ => Range.readRelation_refuses env
  simp [compileSelect, hlist, hranges, hitems, resolveCondition?_refuses hcompile]

theorem compileTable_refuses : Refuses (compileTable env) s := by
  simp [compileTable]

/-! ## VALUES -/

/-- There is a type for each cell of a row. -/
theorem joinRow_refuses {types : List (Option SqlType)} {cells : List Expr}
    (h : cells.length = types.length) : Refuses (joinRow types cells) s := by
  induction types generalizing cells s with
  | nil =>
    obtain rfl := List.length_eq_zero_iff.1 h
    exact refuses_pure []
  | cons type types ih =>
    obtain ⟨cell, cells, rfl⟩ := List.exists_cons_of_length_eq_add_one h
    simp [joinRow, ih (show cells.length = types.length by simpa using h)]

theorem addRow_refuses (hcompile : RefusesQueries compile) {degree : Nat}
    {sofar : List (Option SqlType) × List Expr} {row : Expr} (hplain : row.Plain)
    (hlen : sofar.1.length = degree) : Refuses (addRow compile outer degree sofar row) s := by
  simp only [addRow]
  split
  · simp [reject_ok]
  · next hdegree =>
    simp only [refuses_bind, Expr.resolveWith_refuses hcompile, refuses_pure, implies_true, and_true,
      true_and]
    intro row' t hrow
    refine joinRow_refuses ?_
    have hshape := (Expr.resolveWith_alike hrow).shape.trans (shape_asRow hplain)
    obtain ⟨cells, hk, hcells⟩ := Expr.shape_eq_row.1 hshape
    have hdegree : row.degree = degree := by simpa using hdegree
    simpa [Expr.children, hk, hcells, hlen] using hdegree

theorem compileValues_refuses (hcompile : RefusesQueries compile) :
    Refuses (compileValues compile outer expected) s := by
  simp only [compileValues, refuses_bind, refuses_reader_compiler, refuses_parsing,
    Expr.parseList_refuses, refuses_inRange, refuses_except, refuses_pure, implies_true, and_true,
    true_and]
  intro values t _ rows u hrows
  obtain ⟨r, hr, -⟩ := lift_parser_ok.1 hrows
  have hreads := Expr.parseList_reads _ _ _ hr
  refine ⟨?_, fun degree v _ => ?_⟩
  · obtain ⟨row, rows, rfl⟩ := List.exists_cons_of_ne_nil hreads.ne_nil
    rfl
  · refine refuses_foldlM
      (fun sofar : List (Option SqlType) × List Expr =>
        sofar.1.length = degree ∧ RowsJoin sofar.1 sofar.2)
      (fun row hrow sofar s hsofar => ?_) ⟨by simp, by simp [RowsJoin]⟩
    have hplain := hreads.plain row hrow
    refine ⟨addRow_refuses hcompile hplain hsofar.1, fun next t hadd => ?_⟩
    obtain ⟨hjoins, hlen⟩ := addRow_joins hplain hsofar.1 hadd hsofar.2
    exact ⟨hlen, hjoins⟩

/-! ## All queries -/

theorem embedded_refuses {compile : List RangeGroup → Expectation → Compiler Plan}
    (h : ∀ outer expected s, Refuses (compile outer expected) s) :
    RefusesQueries (embedded compile) := by
  intro body outer s
  simp [embedded, h]

theorem compileWithin_refuses : ∀ (bound : Nat) (outer : List RangeGroup) (expected : Expectation)
    (s : CompilerState), Refuses (compileWithin env bound outer expected) s
  | 0, _, _, _ => by simp [compileWithin]
  | bound + 1, outer, expected, s => by
    have hcompile : RefusesQueries (embedded (compileWithin env bound)) :=
      embedded_refuses (compileWithin_refuses bound)
    simp only [compileWithin, refuses_bind, refuses_reader_compiler, refuses_get, true_and]
    intro parens t _ state u _
    split
    · simp
    · simp [compileSelect_refuses hcompile, compileTable_refuses, compileValues_refuses hcompile]

@[simp] theorem compile_refuses : Refuses (Query.compile env outer expected) s := by
  simp [Query.compile, compileWithin_refuses]

theorem compileTokens_refuses (env : Environment) : RefusesQueries (compileTokens env) :=
  embedded_refuses fun _ _ _ => compile_refuses

end Query

namespace Expr

variable {env : Environment} {s : CompilerState}

@[simp] theorem resolve_refuses (scope : Scope) (e : Expr) : Refuses (e.resolve env scope) s :=
  resolveWith_refuses (Query.compileTokens_refuses env) e

@[simp] theorem resolveCondition_refuses (scope : Scope) (e : Expr) :
    Refuses (e.resolveCondition env scope) s :=
  resolveConditionWith_refuses (Query.compileTokens_refuses env) e

end Expr

end DataChange
