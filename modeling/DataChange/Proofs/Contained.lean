import DataChange.Proofs.Frame

/-!
# Computations that fail and leave no trace

Markers and range ids that were counted before a failure stay counted. Scopes and calls do not: a
computation is `Contained` if it ends in a state with the scopes and the calls that it started from,
whether it succeeds or fails. This is carried through sequences (`Contained.bind`), loops and
recursion, up to all queries and all expressions.
-/

namespace DataChange

/-- The state that a computation ends in, also when it fails. -/
def endState {ε σ α : Type} : EStateM.Result ε σ α → σ
  | .ok _ t => t
  | .error _ t => t

/-- A computation that keeps the scopes and calls of every state, whether it succeeds or fails. -/
def Contained {α : Type} (x : Compiler α) : Prop :=
  ∀ s, Keeps s (endState (x s))

/-! ## Steps -/

namespace Contained

variable {α β : Type}

theorem of_same {x : Compiler α} (h : ∀ s, endState (x s) = s) : Contained x :=
  fun s => by rw [h s]; exact .refl s

theorem pure (a : α) : Contained (Pure.pure a) :=
  of_same fun _ => rfl

theorem get : Contained (MonadState.get : Compiler CompilerState) :=
  of_same fun _ => rfl

theorem throw (e : Failure) : Contained (MonadExcept.throw e : Compiler α) :=
  of_same fun _ => rfl

theorem reject (e : Error) : Contained (DataChange.reject e : Compiler α) :=
  throw _

theorem inRange (x : Option α) : Contained (DataChange.inRange x : Compiler α) := by
  cases x with
  | none => exact throw _
  | some a => exact pure a

/-- What follows starts where the first step ends, unless this fails. -/
theorem bind {x : Compiler α} {f : α → Compiler β} (hx : Contained x)
    (hf : ∀ a, Contained (f a)) : Contained (x >>= f) := by
  intro s
  have hs := hx s
  show Keeps s (endState (EStateM.bind x f s))
  unfold EStateM.bind
  split
  · next a t h =>
    rw [h] at hs
    exact hs.trans (hf a t)
  · next e t h =>
    rw [h] at hs
    exact hs

theorem map {x : Compiler α} (g : α → β) (hx : Contained x) : Contained (g <$> x) := by
  rw [← bind_pure_comp]
  exact hx.bind fun a => pure _

theorem ite {c : Prop} [Decidable c] {x y : Compiler α} (hx : Contained x) (hy : Contained y) :
    Contained (if c then x else y) := by
  split
  · exact hx
  · exact hy

/-! ## Reading inside larger computations -/

theorem parser (x : Parser α) : Contained (liftM x : Compiler α) := by
  intro s
  cases h : x s.toReading with
  | ok a r =>
    rw [lift_parser_run h]
    exact ⟨rfl, rfl, Nat.le_refl _⟩
  | error e r =>
    rw [lift_parser_fail h]
    exact ⟨rfl, rfl, Nat.le_refl _⟩

theorem reader (x : Reader α) : Contained (liftM x : Compiler α) := by
  rw [lift_reader_eq]
  exact parser _

theorem except (x : Except Error α) : Contained (liftM x : Compiler α) := by
  cases x <;> exact of_same fun _ => rfl

theorem onTokens {x : Compiler α} (tokens : List Token) (hx : Contained x) :
    Contained (Compiler.onTokens tokens x) := by
  intro s
  have hs := hx { s with cursor := .ofTokens tokens }
  unfold Compiler.onTokens
  split <;> next h =>
    rw [h] at hs
    exact ⟨hs.outer, hs.calls, hs.ranges⟩

theorem newRange : Contained Compiler.newRange :=
  fun _ => ⟨rfl, rfl, Nat.le_succ _⟩

theorem outerGroups : Contained Compiler.outerGroups :=
  get.bind fun _ => pure _

theorem noteQuery (outer : List RangeGroup) (expected : Option (List SqlType)) :
    Contained (Compiler.noteQuery outer expected) :=
  fun _ => ⟨rfl, rfl, Nat.le_refl _⟩

/-! ## Lists -/

theorem mapM {f : α → Compiler β} (hf : ∀ a, Contained (f a)) (as : List α) :
    Contained (as.mapM f) := by
  induction as with
  | nil => exact pure _
  | cons a as ih =>
    rw [List.mapM_cons]
    exact (hf a).bind fun b => ih.bind fun bs => pure _

theorem foldlM {f : β → α → Compiler β} (hf : ∀ b a, Contained (f b a)) (as : List α) (b : β) :
    Contained (as.foldlM f b) := by
  induction as generalizing b with
  | nil => exact pure b
  | cons a as ih =>
    rw [List.foldlM_cons]
    exact (hf b a).bind ih

theorem commaSeparated {item : Compiler α} (h : Contained item) :
    Contained (DataChange.commaSeparated item) := by
  have hstep : ∀ items : List α, Contained (do return items ++ [← item] : Compiler (List α)) :=
    fun items => h.bind fun a => pure _
  have hwithin : ∀ (bound : Nat) (items : List α), Contained
      (commaStepsWithin (fun items => return items ++ [← item]) bound items : Compiler (List α)) := by
    intro bound
    induction bound with
    | zero => exact fun items => pure items
    | succ bound ih => exact fun items => (reader _).bind fun more => ite ((hstep items).bind ih) (pure _)
  exact (hstep []).bind fun items => (reader _).bind fun bound => hwithin bound items

end Contained

/-! ## Expressions -/

/-- A compiler of queries that is contained. -/
def ContainsQueries (compile : QueryCompiler) : Prop :=
  ∀ body outer, Contained (compile body outer)

namespace Expr

variable {compile : QueryCompiler} {scope : Scope}

theorem compilePending_contained (hcompile : ContainsQueries compile) (shape : QueryShape)
    (body : List Token) (fragment : Fragment) :
    Contained (compilePending compile scope shape body fragment) :=
  (Contained.except _).bind fun outer => (hcompile body outer).bind fun _ =>
    .ite (.pure _) (.reject _)

mutual

theorem bindIn_contained (hcompile : ContainsQueries compile) :
    ∀ e : Expr, Contained (bindIn compile scope e)
  | ⟨.column _, _, _⟩ => by
    rw [bindIn]
    exact (Contained.except _).bind fun _ => .pure _
  | ⟨.pending _ _, _, _⟩ => by
    rw [bindIn]
    exact (compilePending_contained hcompile _ _ _).bind fun _ => .pure _
  | ⟨.row items, _, _⟩ => by
    rw [bindIn]
    exact (bindListIn_contained hcompile items).bind fun _ => .pure _
  | ⟨.values rows, _, _⟩ => by
    rw [bindIn]
    exact (bindListIn_contained hcompile rows).bind fun _ => .pure _
  | ⟨.unary _ operand, _, _⟩ => by
    rw [bindIn]
    exact (bindIn_contained hcompile operand).bind fun _ => .pure _
  | ⟨.binary _ left right, _, _⟩ => by
    rw [bindIn]
    exact (bindIn_contained hcompile left).bind fun _ =>
      (bindIn_contained hcompile right).bind fun _ => .pure _
  | ⟨.isNull operand _, _, _⟩ => by
    rw [bindIn]
    exact (bindIn_contained hcompile operand).bind fun _ => .pure _
  | ⟨.call _ _ arguments, _, _⟩ => by
    rw [bindIn]
    exact (Contained.except _).bind fun _ =>
      (bindListIn_contained hcompile arguments).bind fun _ => .pure _
  | ⟨.constant _, _, _⟩ => by
    rw [bindIn]
    exact .pure _
  | ⟨.parameter _, _, _⟩ => by
    rw [bindIn]
    exact .pure _
  | ⟨.defaultMarker, _, _⟩ => by
    rw [bindIn]
    exact .pure _
  | ⟨.query _ _, _, _⟩ => by
    rw [bindIn]
    exact .pure _
  | ⟨.diagnostics _, _, _⟩ => by
    rw [bindIn]
    exact .pure _

theorem bindListIn_contained (hcompile : ContainsQueries compile) :
    ∀ es : List Expr, Contained (bindListIn compile scope es)
  | [] => by
    rw [bindListIn]
    exact .pure _
  | e :: es => by
    rw [bindListIn]
    exact (bindIn_contained hcompile e).bind fun _ =>
      (bindListIn_contained hcompile es).bind fun _ => .pure _

end

theorem bindWith_contained (hcompile : ContainsQueries compile) (e : Expr) :
    Contained (bindWith compile scope e) :=
  (bindIn_contained hcompile e).bind fun _ => (Contained.except _).bind fun _ => .pure _

theorem resolveWith_contained (hcompile : ContainsQueries compile) (e : Expr) :
    Contained (resolveWith compile scope e) :=
  (bindWith_contained hcompile e).bind fun _ => .except _

theorem resolveConditionWith_contained (hcompile : ContainsQueries compile) (e : Expr) :
    Contained (resolveConditionWith compile scope e) :=
  (bindWith_contained hcompile e).bind fun _ => .except _

end Expr

/-! ## Ranges -/

namespace Range

variable {env : Environment}

theorem ofNew_contained (relation : Relation) (asName : Option String) (fragment : Fragment) :
    Contained (ofNew relation asName fragment) :=
  Contained.newRange.bind fun _ => .pure _

theorem named_contained (name : QualifiedName) (asName : Option String) (fragment : Fragment) :
    Contained (named env name asName fragment) :=
  (Contained.except _).bind fun _ => ofNew_contained _ _ _

theorem readRelation_contained : Contained (readRelation env) :=
  (Contained.reader _).bind fun _ => (Contained.reader _).bind fun _ => named_contained _ _ _

theorem readTarget_contained (operation : Operation) : Contained (readTarget env operation) := by
  refine (Contained.reader _).bind fun (name, fragment) => ?_
  have hrange : ∀ asName : Option String, Contained (do
      let range ← named env name asName fragment
      range.checkAccepts operation
      return range : Compiler Range) :=
    fun asName => (named_contained _ _ _).bind fun _ => (Contained.except _).bind fun _ => .pure _
  cases operation with
  | insert | truncate => exact hrange none
  | update | delete | merge => exact (Contained.reader _).bind hrange

end Range

/-! ## Queries -/

namespace Query

variable {env : Environment} {compile : QueryCompiler} {outer : List RangeGroup}
  {expected : Expectation}

theorem readItem_contained : Contained readItem := by
  refine (Contained.reader _).bind fun star => ?_
  cases star with
  | some star => exact .pure _
  | none => exact (Contained.parser _).bind fun _ => (Contained.reader _).bind fun _ => .pure _

theorem readCondition_contained : Contained readCondition :=
  (Contained.reader _).bind fun _ => .ite ((Contained.parser _).bind fun _ => .pure _) (.pure _)

theorem selectItem_contained (hcompile : ContainsQueries compile) (scope : Scope)
    (selection : Selection) (item : Item) :
    Contained (selectItem compile scope expected selection item) := by
  cases item with
  | all fragment => exact .ite (.reject _) (.pure _)
  | expression e asName =>
    exact (Expr.resolveWith_contained hcompile e).bind fun _ =>
      (Contained.except _).bind fun _ => .pure _

theorem resolveCondition?_contained (hcompile : ContainsQueries compile) (scope : Scope)
    (condition : Option Expr) : Contained (resolveCondition? compile scope condition) := by
  cases condition with
  | none => exact .pure none
  | some e => exact (Expr.resolveConditionWith_contained hcompile e).bind fun _ => .pure _

theorem compileSelect_contained (hcompile : ContainsQueries compile) :
    Contained (compileSelect env compile outer expected) := by
  refine (Contained.reader _).bind fun _ => readItem_contained.commaSeparated.bind fun items =>
    (Contained.reader _).bind fun _ => ?_
  have hrest : ∀ ranges : List Range, Contained (do
      let ranges ← RangeGroup.ofRanges ranges
      let condition ← readCondition
      let scope : Scope := ⟨ranges, outer⟩
      let selection ← items.foldlM (selectItem compile scope expected) {}
      let condition ← resolveCondition? compile scope condition
      return .select selection.columns selection.projection ranges condition : Compiler Plan) :=
    fun ranges => (Contained.except _).bind fun _ => readCondition_contained.bind fun _ =>
      (Contained.foldlM (fun _ _ => selectItem_contained hcompile _ _ _) _ _).bind fun _ =>
        (resolveCondition?_contained hcompile _ _).bind fun _ => .pure _
  exact .ite (Range.readRelation_contained.commaSeparated.bind hrest) (hrest [])

theorem compileTable_contained : Contained (compileTable env) :=
  (Contained.reader _).bind fun _ => (Contained.reader _).bind fun _ =>
    (Range.named_contained _ _ _).bind fun _ => .pure _

theorem joinRow_contained (types : List (Option SqlType)) (cells : List Expr) :
    Contained (joinRow types cells) := by
  induction cells generalizing types with
  | nil => cases types <;> exact .pure _
  | cons cell cells ih =>
    cases types with
    | cons type types => exact (Contained.except _).bind fun _ => (ih types).bind fun _ => .pure _
    | nil =>
      refine (Contained.except _).bind fun type => ?_
      cases type with
      | none => exact ih []
      | some type => exact .throw _

theorem addRow_contained (hcompile : ContainsQueries compile) (degree : Nat)
    (sofar : List (Option SqlType) × List Expr) (row : Expr) :
    Contained (addRow compile outer degree sofar row) := by
  have hrow : Contained (do
      let row ← (asRow row).resolveWith compile (.outerOnly outer)
      let types ← joinRow sofar.1 row.children
      return (types, sofar.2 ++ [row]) : Compiler (List (Option SqlType) × List Expr)) :=
    (Expr.resolveWith_contained hcompile _).bind fun _ =>
      (joinRow_contained _ _).bind fun _ => .pure _
  exact .ite ((Contained.reject _).bind fun _ => hrow) hrow

theorem compileValues_contained (hcompile : ContainsQueries compile) :
    Contained (compileValues compile outer expected) :=
  (Contained.reader _).bind fun _ => (Contained.parser _).bind fun _ =>
    (Contained.inRange _).bind fun _ =>
      (Contained.foldlM (fun _ _ => addRow_contained hcompile _ _ _) _ _).bind fun _ =>
        (Contained.except _).bind fun _ => .pure _

theorem embedded_contained {compile : List RangeGroup → Expectation → Compiler Plan}
    (h : ∀ outer expected, Contained (compile outer expected)) :
    ContainsQueries (embedded compile) :=
  fun body outer => .onTokens body <| (Contained.noteQuery _ _).bind fun _ =>
    (h outer none).bind fun _ => (Contained.reader _).bind fun _ => .pure _

theorem compileWithin_contained : ∀ (bound : Nat) (outer : List RangeGroup)
    (expected : Expectation), Contained (compileWithin env bound outer expected)
  | 0, _, _ => Contained.get.bind fun _ => .reject _
  | bound + 1, outer, expected => by
    have hcompile : ContainsQueries (embedded (compileWithin env bound)) :=
      embedded_contained (compileWithin_contained bound)
    refine (Contained.reader _).bind fun parens => Contained.get.bind fun s => ?_
    have hclose : ∀ plan : Plan, Contained (do
        Reader.closeParens parens
        return plan : Compiler Plan) :=
      fun plan => (Contained.reader _).bind fun _ => .pure _
    dsimp only
    split
    · exact (Contained.reject _).bind hclose
    · exact .ite ((compileSelect_contained hcompile).bind hclose) <|
        .ite (compileTable_contained.bind hclose) <|
          .ite ((compileValues_contained hcompile).bind hclose) ((Contained.reject _).bind hclose)

theorem compile_contained (outer : List RangeGroup) (expected : Expectation) :
    Contained (Query.compile env outer expected) :=
  (Contained.reader _).bind fun _ => compileWithin_contained _ _ _

theorem compileTokens_contained (env : Environment) : ContainsQueries (compileTokens env) :=
  embedded_contained compile_contained

end Query

namespace Expr

variable {env : Environment}

theorem resolve_contained (scope : Scope) (e : Expr) : Contained (e.resolve env scope) :=
  resolveWith_contained (Query.compileTokens_contained env) e

theorem resolveCondition_contained (scope : Scope) (e : Expr) :
    Contained (e.resolveCondition env scope) :=
  resolveConditionWith_contained (Query.compileTokens_contained env) e

end Expr

end DataChange
