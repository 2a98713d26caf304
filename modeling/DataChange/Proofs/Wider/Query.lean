import DataChange.Proofs.Wider.Steps
import DataChange.Query

/-!
# Expressions and queries in wider surroundings

A reference that some group has is bound to the same column when further groups are around, since
these are searched last (`Scope.lookup_widen`). So an expression that is bound completely is bound
alike (`Expr.bindIn_persists`), and a query gives the same plan (`Query.compile_persists`). What is
put around the scope of an expression need not be what is put around the scopes of the state: the
filter of a view is resolved within no scope at all.
-/

namespace DataChange

/-! ## Scopes -/

namespace Scope

/-- The scope with further groups around it. -/
def widen (more : List RangeGroup) (scope : Scope) : Scope :=
  ⟨scope.ranges, more ++ scope.outer⟩

variable {scope : Scope} {ref : ColumnRef} {fragment : Fragment} {binding : Binding}

theorem lookupFirst_append {groups : List RangeGroup}
    (h : lookupFirst ref fragment groups = .ok (some binding)) (more : List RangeGroup) :
    lookupFirst ref fragment (groups ++ more) = .ok (some binding) := by
  induction groups with
  | nil => cases h
  | cons group groups ih =>
    rw [List.cons_append]
    unfold lookupFirst at h ⊢
    split at h
    · exact ih h
    · exact h

/-- The first group that has a column decides, so that further groups around do not. -/
theorem lookup_widen (h : scope.lookup ref fragment = .ok (some binding))
    (more : List RangeGroup) : (scope.widen more).lookup ref fragment = .ok (some binding) := by
  have hgroups : (scope.widen more).groups = scope.groups ++ more.reverse := by
    simp [widen, groups]
  unfold lookup
  rw [hgroups]
  exact lookupFirst_append h _

theorem within_widen (scope : Scope) (more : List RangeGroup) :
    (scope.widen more).within = scope.within.map (more ++ ·) := by
  unfold within widen
  dsimp only
  split
  · rfl
  · cases RangeGroup.ofRanges scope.ranges with
    | error e => rfl
    | ok group => simp [Except.map]

end Scope

/-! ## Expressions -/

section

variable {around more : List RangeGroup}

/-- Compilers of queries whose plans persist when there are further groups around. -/
def PersistQueries (around more : List RangeGroup) (compile compile' : QueryCompiler) : Prop :=
  ∀ body outer, Persists (Widened around) (compile body outer) (compile' body (more ++ outer))

/-- Whatever was bound, nothing is left free. -/
def NoneFree {α : Type} (bound : α × List FreeColumn) (_ : CompilerState) : Prop :=
  bound.2 = []

namespace PersistsIf

/-- A binding that is part of another one. -/
theorem wrap {α : Type} {x y : Compiler (α × List FreeColumn)}
    (h : PersistsIf NoneFree (Widened around) x y) (wrapped : α → Expr) :
    PersistsIf NoneFree (Widened around) (do let (a, free) ← x; return (wrapped a, free))
      (do let (a, free) ← y; return (wrapped a, free)) := by
  refine h.bindIf (fun _ => .pure _) fun a s b t hb hfree => ?_
  obtain ⟨rfl, rfl⟩ := pure_ok.1 hb
  exact hfree

/-- Two bindings that are parts of another one. -/
theorem wrap₂ {α β γ : Type} {x y : Compiler (α × List FreeColumn)}
    {x' y' : Compiler (β × List FreeColumn)} (h : PersistsIf NoneFree (Widened around) x y)
    (h' : PersistsIf NoneFree (Widened around) x' y') (wrapped : α → β → γ) :
    PersistsIf NoneFree (Widened around)
      (do let (a, free) ← x; let (b, more) ← x'; return (wrapped a b, free ++ more))
      (do let (a, free) ← y; let (b, more) ← y'; return (wrapped a b, free ++ more)) := by
  refine h.bindIf (fun _ => h'.bindIf (fun _ => .pure _) ?_) ?_
  · intro b s c t hc hfree
    obtain ⟨rfl, rfl⟩ := pure_ok.1 hc
    exact (List.append_eq_nil_iff.1 hfree).2
  · intro a s c t hc hfree
    obtain ⟨b, u, -, hc⟩ := bind_ok.1 hc
    obtain ⟨rfl, rfl⟩ := pure_ok.1 hc
    exact (List.append_eq_nil_iff.1 hfree).1

end PersistsIf

namespace Expr

variable {compile compile' : QueryCompiler} {scope : Scope}

theorem bindColumn_widen {ref ref' : ColumnRef} {fragment : Fragment}
    (h : bindColumn scope ref fragment = .ok (ref', [])) :
    bindColumn (scope.widen more) ref fragment = .ok (ref', []) := by
  unfold bindColumn at h ⊢
  split at h
  · exact h
  · split at h
    · cases h
    · next hlookup =>
      simp only [Scope.lookup_widen hlookup]
      exact h
    · cases h

theorem bindColumn_persists (ref : ColumnRef) (fragment : Fragment) :
    PersistsIf NoneFree (Widened around)
      (liftM (bindColumn scope ref fragment) : Compiler (ColumnRef × List FreeColumn))
      (liftM (bindColumn (scope.widen more) ref fragment)) := by
  intro s s' bound t hs h hfree
  obtain ⟨hbound, rfl⟩ := lift_except_ok.1 h
  obtain ⟨ref', free⟩ := bound
  obtain rfl : free = [] := hfree
  exact ⟨s', lift_except_ok.2 ⟨bindColumn_widen hbound, rfl⟩, hs⟩

theorem compilePending_persists (hcompile : PersistQueries around more compile compile')
    (shape : QueryShape) (body : List Token) (fragment : Fragment) :
    Persists (Widened around) (compilePending compile scope shape body fragment)
      (compilePending compile' (scope.widen more) shape body fragment) := by
  intro s s' plan t hs h _
  obtain ⟨outer, _, hlift, h⟩ := bind_ok.1 h
  obtain ⟨houter, rfl⟩ := lift_except_ok.1 hlift
  have hquery : Persists (Widened around)
      (do
        let plan ← compile body outer
        if plan.columns.length = shape.degree then return plan
        else reject (.degree shape.degree plan.columns.length fragment))
      (do
        let plan ← compile' body (more ++ outer)
        if plan.columns.length = shape.degree then return plan
        else reject (.degree shape.degree plan.columns.length fragment)) :=
    (hcompile body outer).bind fun plan => .ite (.pure _) (.reject _)
  obtain ⟨t', ht', hend⟩ := hquery hs h trivial
  refine ⟨t', bind_ok.2 ⟨more ++ outer, s', lift_except_ok.2 ⟨?_, rfl⟩, ht'⟩, hend⟩
  rw [Scope.within_widen, houter]
  rfl

mutual

theorem bindIn_persists (hcompile : PersistQueries around more compile compile') :
    ∀ e : Expr, PersistsIf NoneFree (Widened around) (bindIn compile scope e)
      (bindIn compile' (scope.widen more) e)
  | ⟨.column _, fragment, type⟩ => by
    rw [bindIn, bindIn]
    exact (bindColumn_persists _ _).wrap fun ref => ⟨.column ref, fragment, type⟩
  | ⟨.pending _ _, _, _⟩ => by
    rw [bindIn, bindIn]
    exact (compilePending_persists hcompile _ _ _).bind fun _ => .pure _
  | ⟨.row items, fragment, type⟩ => by
    rw [bindIn, bindIn]
    exact (bindListIn_persists hcompile items).wrap fun items => ⟨.row items, fragment, type⟩
  | ⟨.values rows, fragment, type⟩ => by
    rw [bindIn, bindIn]
    exact (bindListIn_persists hcompile rows).wrap fun rows => ⟨.values rows, fragment, type⟩
  | ⟨.unary op operand, fragment, type⟩ => by
    rw [bindIn, bindIn]
    exact (bindIn_persists hcompile operand).wrap fun e => ⟨.unary op e, fragment, type⟩
  | ⟨.binary op left right, fragment, type⟩ => by
    rw [bindIn, bindIn]
    exact (bindIn_persists hcompile left).wrap₂ (bindIn_persists hcompile right)
      fun left right => (⟨.binary op left right, fragment, type⟩ : Expr)
  | ⟨.isNull operand negated, fragment, type⟩ => by
    rw [bindIn, bindIn]
    exact (bindIn_persists hcompile operand).wrap fun e => ⟨.isNull e negated, fragment, type⟩
  | ⟨.call name _ arguments, fragment, type⟩ => by
    rw [bindIn, bindIn]
    exact (PersistsIf.except _).bind fun found => (bindListIn_persists hcompile arguments).wrap
      fun arguments => ⟨.call name (some found) arguments, fragment, type⟩
  | ⟨.constant _, _, _⟩ => by
    rw [bindIn, bindIn]
    exact .pure _
  | ⟨.parameter _, _, _⟩ => by
    rw [bindIn, bindIn]
    exact .pure _
  | ⟨.defaultMarker, _, _⟩ => by
    rw [bindIn, bindIn]
    exact .pure _
  | ⟨.query _ _, _, _⟩ => by
    rw [bindIn, bindIn]
    exact .pure _
  | ⟨.diagnostics _, _, _⟩ => by
    rw [bindIn, bindIn]
    exact .pure _

theorem bindListIn_persists (hcompile : PersistQueries around more compile compile') :
    ∀ es : List Expr, PersistsIf NoneFree (Widened around) (bindListIn compile scope es)
      (bindListIn compile' (scope.widen more) es)
  | [] => by
    rw [bindListIn, bindListIn]
    exact .pure _
  | e :: es => by
    rw [bindListIn, bindListIn]
    exact (bindIn_persists hcompile e).wrap₂ (bindListIn_persists hcompile es) List.cons

end

theorem bindWith_persists (hcompile : PersistQueries around more compile compile') (scope : Scope)
    (e : Expr) :
    Persists (Widened around) (bindWith compile scope e)
      (bindWith compile' (scope.widen more) e) := by
  refine (bindIn_persists hcompile e).bindIf (fun _ => (PersistsIf.except _).bind fun _ => .pure _) ?_
  intro bound s e' t h _
  obtain ⟨_, _, hcheck, -⟩ := bind_ok.1 h
  obtain ⟨hcheck, -⟩ := lift_except_ok.1 hcheck
  unfold checkBound at hcheck
  split at hcheck
  · assumption
  · cases hcheck

theorem resolveWith_persists (hcompile : PersistQueries around more compile compile')
    (scope : Scope) (e : Expr) :
    Persists (Widened around) (resolveWith compile scope e)
      (resolveWith compile' (scope.widen more) e) :=
  (bindWith_persists hcompile scope e).bind fun _ => .except _

theorem resolveConditionWith_persists (hcompile : PersistQueries around more compile compile')
    (scope : Scope) (e : Expr) : Persists (Widened around) (resolveConditionWith compile scope e)
      (resolveConditionWith compile' (scope.widen more) e) :=
  (bindWith_persists hcompile scope e).bind fun _ => .except _

end Expr

/-! ## Ranges -/

namespace Range

variable {env env' : Environment}

theorem ofNew_persists (relation : Relation) (asName : Option String) (fragment : Fragment) :
    Persists (Widened around) (ofNew relation asName fragment) (ofNew relation asName fragment) :=
  PersistsIf.newRange.bind fun _ => .pure _

theorem named_persists (henv : env.Extends env') (name : QualifiedName) (asName : Option String)
    (fragment : Fragment) :
    Persists (Widened around) (named env name asName fragment)
      (named env' name asName fragment) := by
  unfold named
  rw [henv.relation]
  exact (PersistsIf.except _).bind fun _ => ofNew_persists _ _ _

theorem readRelation_persists (henv : env.Extends env') :
    Persists (Widened around) (readRelation env) (readRelation env') :=
  (PersistsIf.reader _).bind fun _ => (PersistsIf.reader _).bind fun _ => named_persists henv _ _ _

theorem readTarget_persists (henv : env.Extends env') (operation : Operation) :
    Persists (Widened around) (readTarget env operation) (readTarget env' operation) := by
  refine (PersistsIf.reader _).bind fun (name, fragment) => ?_
  have hrange : ∀ asName : Option String, Persists (Widened around)
      (do
        let range ← named env name asName fragment
        range.checkAccepts operation
        return range)
      (do
        let range ← named env' name asName fragment
        range.checkAccepts operation
        return range) :=
    fun asName => (named_persists henv _ _ _).bind fun _ => (PersistsIf.except _).bind fun _ => .pure _
  cases operation with
  | insert | truncate => exact hrange none
  | update | delete | merge => exact (PersistsIf.reader _).bind hrange

end Range

/-! ## Queries -/

namespace Query

variable {env env' : Environment} {compile compile' : QueryCompiler} {outer : List RangeGroup}
  {expected : Expectation}

theorem readItem_persists : Persists (Widened around) readItem readItem := by
  refine (PersistsIf.reader _).bind fun star => ?_
  cases star with
  | some star => exact .pure _
  | none => exact (PersistsIf.parser _).bind fun _ => (PersistsIf.reader _).bind fun _ => .pure _

theorem readCondition_persists : Persists (Widened around) readCondition readCondition :=
  (PersistsIf.reader _).bind fun _ => .ite ((PersistsIf.parser _).bind fun _ => .pure _) (.pure _)

theorem selectItem_persists (hcompile : PersistQueries around more compile compile') (scope : Scope)
    (selection : Selection) (item : Item) :
    Persists (Widened around) (selectItem compile scope expected selection item)
      (selectItem compile' (scope.widen more) expected selection item) := by
  cases item with
  | all fragment => exact .ite (.reject _) (.pure _)
  | expression e asName =>
    exact (Expr.resolveWith_persists hcompile scope e).bind fun _ =>
      (PersistsIf.except _).bind fun _ => .pure _

theorem resolveCondition?_persists (hcompile : PersistQueries around more compile compile')
    (scope : Scope) (condition : Option Expr) :
    Persists (Widened around) (resolveCondition? compile scope condition)
      (resolveCondition? compile' (scope.widen more) condition) := by
  cases condition with
  | none => exact .pure none
  | some e => exact (Expr.resolveConditionWith_persists hcompile scope e).bind fun _ => .pure _

theorem compileSelect_persists (henv : env.Extends env')
    (hcompile : PersistQueries around more compile compile') :
    Persists (Widened around) (compileSelect env compile outer expected)
      (compileSelect env' compile' (more ++ outer) expected) := by
  refine (PersistsIf.reader _).bind fun _ => readItem_persists.commaSeparated.bind fun items =>
    (PersistsIf.reader _).bind fun _ => ?_
  -- with and without FROM the clauses that follow persist alike
  have hrest : ∀ ranges : List Range, Persists (Widened around)
      (do
        let ranges ← RangeGroup.ofRanges ranges
        let condition ← readCondition
        let scope : Scope := ⟨ranges, outer⟩
        let selection ← items.foldlM (selectItem compile scope expected) {}
        let condition ← resolveCondition? compile scope condition
        return .select selection.columns selection.projection ranges condition : Compiler Plan)
      (do
        let ranges ← RangeGroup.ofRanges ranges
        let condition ← readCondition
        let scope : Scope := ⟨ranges, more ++ outer⟩
        let selection ← items.foldlM (selectItem compile' scope expected) {}
        let condition ← resolveCondition? compile' scope condition
        return .select selection.columns selection.projection ranges condition) :=
    fun _ => (PersistsIf.except _).bind fun ranges => readCondition_persists.bind fun _ =>
      (PersistsIf.foldlM (selectItem_persists hcompile ⟨ranges, outer⟩) _ _).bind fun _ =>
        (resolveCondition?_persists hcompile ⟨ranges, outer⟩ _).bind fun _ => .pure _
  exact .ite ((Range.readRelation_persists henv).commaSeparated.bind hrest) (hrest [])

theorem compileTable_persists (henv : env.Extends env') :
    Persists (Widened around) (compileTable env) (compileTable env') :=
  (PersistsIf.reader _).bind fun _ => (PersistsIf.reader _).bind fun _ =>
    (Range.named_persists henv _ _ _).bind fun _ => .pure _

theorem joinRow_persists (types : List (Option SqlType)) (cells : List Expr) :
    Persists (Widened around) (joinRow types cells) (joinRow types cells) := by
  induction cells generalizing types with
  | nil => cases types <;> exact .pure _
  | cons cell cells ih =>
    cases types with
    | cons type types => exact (PersistsIf.except _).bind fun _ => (ih types).bind fun _ => .pure _
    | nil =>
      refine (PersistsIf.except _).bind fun type => ?_
      cases type with
      | none => exact ih []
      | some type => exact .throw _

theorem addRow_persists (hcompile : PersistQueries around more compile compile') (degree : Nat)
    (sofar : List (Option SqlType) × List Expr) (row : Expr) :
    Persists (Widened around) (addRow compile outer degree sofar row)
      (addRow compile' (more ++ outer) degree sofar row) := by
  have hrow : Persists (Widened around)
      (do
        let row ← (asRow row).resolveWith compile (.outerOnly outer)
        let types ← joinRow sofar.1 row.children
        return (types, sofar.2 ++ [row]))
      (do
        let row ← (asRow row).resolveWith compile' (.outerOnly (more ++ outer))
        let types ← joinRow sofar.1 row.children
        return (types, sofar.2 ++ [row])) :=
    (Expr.resolveWith_persists hcompile (.outerOnly outer) _).bind fun _ =>
      (joinRow_persists _ _).bind fun _ => .pure _
  exact .ite (PersistsIf.bind (.reject _) fun _ => hrow) hrow

theorem compileValues_persists (hcompile : PersistQueries around more compile compile') :
    Persists (Widened around) (compileValues compile outer expected)
      (compileValues compile' (more ++ outer) expected) :=
  (PersistsIf.reader _).bind fun _ => (PersistsIf.parser _).bind fun _ =>
    (PersistsIf.inRange _).bind fun _ =>
      (PersistsIf.foldlM (fun _ _ => addRow_persists hcompile _ _ _) _ _).bind fun _ =>
        (PersistsIf.except _).bind fun _ => .pure _

theorem embedded_persists {compile compile' : List RangeGroup → Expectation → Compiler Plan}
    (h : ∀ outer expected, Persists (Widened around) (compile outer expected)
      (compile' (more ++ outer) expected)) :
    PersistQueries around more (embedded compile) (embedded compile') :=
  fun body outer => .onTokens body <| PersistsIf.noteQuery.bind fun _ =>
    (h outer none).bind fun _ => (PersistsIf.reader _).bind fun _ => .pure _

theorem compileWithin_persists (henv : env.Extends env') : ∀ (bound : Nat)
    (outer : List RangeGroup) (expected : Expectation),
    Persists (Widened around) (compileWithin env bound outer expected)
      (compileWithin env' bound (more ++ outer) expected)
  | 0, _, _ => .get fun _ _ _ => .reject _
  | bound + 1, outer, expected => by
    have hcompile : PersistQueries around more (embedded (compileWithin env bound))
        (embedded (compileWithin env' bound)) :=
      embedded_persists (compileWithin_persists henv bound)
    refine (PersistsIf.reader _).bind fun parens => .get fun s s' hs => ?_
    have hclose : ∀ plan : Plan, Persists (Widened around)
        (do Reader.closeParens parens; return plan : Compiler Plan)
        (do Reader.closeParens parens; return plan) :=
      fun plan => (PersistsIf.reader _).bind fun _ => .pure _
    dsimp only
    rw [hs.cursor]
    split
    · exact (PersistsIf.reject _).bind hclose
    · exact .ite ((compileSelect_persists henv hcompile).bind hclose) <|
        .ite ((compileTable_persists henv).bind hclose) <|
          .ite ((compileValues_persists hcompile).bind hclose) ((PersistsIf.reject _).bind hclose)

theorem compile_persists (henv : env.Extends env') (outer : List RangeGroup)
    (expected : Expectation) :
    Persists (Widened around) (Query.compile env outer expected)
      (Query.compile env' (more ++ outer) expected) :=
  (PersistsIf.reader _).bind fun _ => compileWithin_persists henv _ _ _

theorem compileTokens_persists (henv : env.Extends env') :
    PersistQueries around more (compileTokens env) (compileTokens env') :=
  embedded_persists (compile_persists henv)

end Query

namespace Expr

variable {env env' : Environment}

theorem resolve_persists (henv : env.Extends env') (scope : Scope) (e : Expr) :
    Persists (Widened around) (e.resolve env scope) (e.resolve env' (scope.widen more)) :=
  resolveWith_persists (Query.compileTokens_persists henv) scope e

theorem resolveCondition_persists (henv : env.Extends env') (scope : Scope) (e : Expr) :
    Persists (Widened around) (e.resolveCondition env scope)
      (e.resolveCondition env' (scope.widen more)) :=
  resolveConditionWith_persists (Query.compileTokens_persists henv) scope e

end Expr

end

end DataChange
