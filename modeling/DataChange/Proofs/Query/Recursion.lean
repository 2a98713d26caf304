import DataChange.Proofs.Expr.Recursion
import DataChange.Proofs.Marker.Query

/-!
# Compiling queries comes to an end

A query compiles its subqueries from tokens of their own. What it does with them is told by the
subqueries it has read (`bindIn_congr`), and these are shorter than the tokens it read them from
(`compileSelect_congr`, `compileValues_congr`). So compiling queries within queries is a recursion
on the tokens to come (`compile_comesTo`), though it is not on the tokens that it is called with.
-/

namespace DataChange

variable {compile compile' : QueryCompiler}

/-! ## Binding -/

namespace Expr

variable {scope : Scope} {e : Expr}

theorem bindListIn_congr :
    ∀ {es : List Expr}, (∀ e ∈ es, bindIn compile scope e = bindIn compile' scope e) →
      bindListIn compile scope es = bindListIn compile' scope es
  | [], _ => by rw [bindListIn, bindListIn]
  | e :: es, h => by
    rw [bindListIn, bindListIn, h e List.mem_cons_self,
      bindListIn_congr fun e he => h e (List.mem_cons_of_mem _ he)]

/-- How an expression is bound is told by its children and by the subquery that it is. -/
theorem bindIn_congr_node (hchildren : ∀ c ∈ e.children, bindIn compile scope c =
    bindIn compile' scope c) (hbody : ∀ body ∈ e.body?, compile body = compile' body) :
    bindIn compile scope e = bindIn compile' scope e := by
  obtain ⟨kind, fragment, type⟩ := e
  cases kind with
  | pending shape body =>
    rw [bindIn, bindIn, compilePending, compilePending, hbody body rfl]
  | row items | values items | call name builtin items =>
    have hitems : bindListIn compile scope items = bindListIn compile' scope items :=
      bindListIn_congr hchildren
    rw [bindIn, bindIn, hitems]
  | unary op operand | isNull operand negated =>
    rw [bindIn, bindIn, hchildren operand (by simp [children])]
  | binary op left right =>
    rw [bindIn, bindIn, hchildren left (by simp [children]), hchildren right (by simp [children])]
  | constant | parameter | column | defaultMarker | query | diagnostics => rw [bindIn, bindIn]

/-- How an expression is bound is told by its subqueries. -/
theorem bindIn_congr (h : ∀ body ∈ e.bodies, compile body = compile' body) :
    bindIn compile scope e = bindIn compile' scope e := by
  induction e using Expr.induct with
  | h e ih =>
    refine bindIn_congr_node (fun c hc => ih c hc fun body hbody => h body ?_)
      fun body hbody => h body ?_
    · rw [bodies_eq]
      simp only [bodiesOf, List.mem_append, List.mem_flatMap]
      exact .inl (.inl ⟨c, hc, hbody⟩)
    · rw [bodies_eq]
      simp [Option.mem_def.1 hbody]

theorem resolveWith_congr (h : ∀ body ∈ e.bodies, compile body = compile' body) :
    e.resolveWith compile scope = e.resolveWith compile' scope := by
  rw [resolveWith, resolveWith, bindWith, bindWith, bindIn_congr h]

theorem resolveConditionWith_congr (h : ∀ body ∈ e.bodies, compile body = compile' body) :
    e.resolveConditionWith compile scope = e.resolveConditionWith compile' scope := by
  rw [resolveConditionWith, resolveConditionWith, bindWith, bindWith, bindIn_congr h]

end Expr

namespace Query

variable {env : Environment} {scope : Scope} {outer : List RangeGroup} {expected : Expectation}
  {s : CompilerState}

/-! ## Bodies -/

theorem selectItem_congr {item : Item} (h : ∀ body ∈ item.bodies, compile body = compile' body)
    (selection : Selection) : selectItem compile scope expected selection item =
      selectItem compile' scope expected selection item := by
  cases item with
  | all fragment => rfl
  | expression e asName =>
    rw [selectItem, selectItem, Expr.resolveWith_congr h]

theorem foldlM_congr {ε σ α β : Type} {f g : β → α → EStateM ε σ β} :
    ∀ {as : List α}, (∀ a ∈ as, ∀ b, f b a = g b a) → ∀ b, as.foldlM f b = as.foldlM g b
  | [], _, _ => rfl
  | a :: as, h, b => by
    rw [List.foldlM_cons, List.foldlM_cons, h a List.mem_cons_self]
    exact congrArg _ (funext fun b => foldlM_congr (fun a ha => h a (List.mem_cons_of_mem _ ha)) b)

theorem resolveCondition?_congr {condition : Option Expr}
    (h : ∀ body ∈ Expr.bodiesOf condition.toList, compile body = compile' body) :
    resolveCondition? compile scope condition = resolveCondition? compile' scope condition := by
  cases condition with
  | none => rfl
  | some e =>
    rw [resolveCondition?, resolveCondition?, Expr.resolveConditionWith_congr (by simpa using h)]

theorem addRow_congr {row : Expr} (h : ∀ body ∈ row.bodies, compile body = compile' body)
    (degree : Nat) (sofar : List (Option SqlType) × List Expr) :
    addRow compile outer degree sofar row = addRow compile' outer degree sofar row := by
  rw [addRow, addRow, Expr.resolveWith_congr (by rwa [(marks_asRow row).2])]

/-- A SELECT after its ranges. -/
def afterRanges (compile : QueryCompiler) (outer : List RangeGroup) (expected : Expectation)
    (items : List Item) (ranges : List Range) : Compiler Plan := do
  let ranges ← RangeGroup.ofRanges ranges
  let condition ← readCondition
  let scope : Scope := ⟨ranges, outer⟩
  let selection ← items.foldlM (selectItem compile scope expected) {}
  let condition ← resolveCondition? compile scope condition
  return .select selection.columns selection.projection ranges condition

theorem afterRanges_congr {items : List Item} (ranges : List Range)
    (hitems : ∀ body ∈ items.flatMap Item.bodies, compile body = compile' body)
    (h : ∀ body, body.length < s.toCome → compile body = compile' body) :
    afterRanges compile outer expected items ranges s =
      afterRanges compile' outer expected items ranges s := by
  unfold afterRanges
  refine bind_congr_ok fun group u hgroup => bind_congr_ok fun condition t hcondition => ?_
  obtain ⟨-, rfl⟩ := lift_except_ok.1 hgroup
  obtain ⟨-, xs, hscan⟩ := readCondition_scan hcondition
  have hbodies : ∀ body ∈ Expr.bodiesOf condition.toList, compile body = compile' body :=
    fun body hbody => h body
      (Nat.lt_of_lt_of_le (hscan.consumes.shorter body hbody) (Nat.sub_le _ _))
  rw [resolveCondition?_congr hbodies, foldlM_congr fun item hitem selection => selectItem_congr
    (fun body hbody => hitems body (List.mem_flatMap.2 ⟨item, hitem, hbody⟩)) selection]

/-- A SELECT resolves what it has read from its own tokens. -/
theorem compileSelect_congr
    (h : ∀ body, body.length < s.toCome → compile body = compile' body) :
    compileSelect env compile outer expected s = compileSelect env compile' outer expected s := by
  refine bind_congr_ok fun _ s₁ hselect => bind_congr_ok fun items s₂ hitems =>
    bind_congr_ok fun found s₃ hfound => ?_
  obtain ⟨-, h₁⟩ : _ ∧ Scan false _ _ _ _ _ := Scan.keyword hselect rfl
  obtain ⟨x₂, h₂⟩ := scan_commaSeparated (fun _ _ _ hi => (readItem_scan hi).2) hitems
  obtain ⟨x₃, h₃⟩ : ∃ xs, Scan false s₂.toReading s₃.toReading xs [] [] :=
    Scan.skipKeyword hfound rfl
  have hread : ∀ ranges s₄, fromRanges env found s₃ = .ok ranges s₄ →
      afterRanges compile outer expected items ranges s₄ =
        afterRanges compile' outer expected items ranges s₄ := by
    intro ranges s₄ hranges
    obtain ⟨-, x₄, h₄⟩ := fromRanges_scan hranges
    have hconsumes := (((h₁.trans h₂).trans h₃).trans h₄).consumes
    refine afterRanges_congr ranges (fun body hbody => h body ?_) fun body hbody => h body ?_
    · exact Nat.lt_of_lt_of_le (hconsumes.shorter body (by simpa using hbody)) (Nat.sub_le _ _)
    · exact Nat.lt_of_lt_of_le hbody hconsumes.toCome_le
  cases found with
  | true => exact bind_congr_ok hread
  | false => exact hread [] s₃ rfl

/-- So does VALUES. -/
theorem compileValues_congr
    (h : ∀ body, body.length < s.toCome → compile body = compile' body) :
    compileValues compile outer expected s = compileValues compile' outer expected s := by
  refine bind_congr_ok fun values s₁ hvalues => bind_congr_ok fun rows s₂ hrows => ?_
  obtain ⟨-, h₁⟩ : _ ∧ Scan false _ _ _ _ _ := Scan.keyword hvalues rfl
  obtain ⟨r, hr, rfl⟩ := lift_parser_ok.1 hrows
  obtain ⟨x₂, -, h₂⟩ := (Expr.parseList_reads _ _ _ hr).scan
  have hbodies : ∀ row ∈ rows, ∀ body ∈ row.bodies, compile body = compile' body := by
    intro row hrow body hbody
    have hmem : body ∈ [] ++ Expr.bodiesOf rows := List.mem_flatMap.2 ⟨row, hrow, hbody⟩
    exact h body (Nat.lt_of_lt_of_le ((h₁.trans h₂).consumes.shorter body hmem) (Nat.sub_le _ _))
  refine bind_congr_ok fun degree _ _ => ?_
  rw [foldlM_congr fun row hrow sofar => addRow_congr (hbodies row hrow) degree sofar]

/-! ## The recursion -/

/-- The enclosing groups of a query, and the types of the columns that it fills. -/
abbrev Site := List RangeGroup × Expectation

/-- The step of compiling a query: its clauses, with `compile` for its subqueries. -/
def compileStep (env : Environment) (compile : Site → Compiler Plan) (site : Site) :
    Compiler Plan := do
  let subquery := embedded fun outer expected => compile (outer, expected)
  let parens ← Reader.openParens
  let cursor := (← get).cursor
  let plan ← match cursor.rest with
    | [] => reject (cursor.endedBefore .query)
    | t :: _ =>
      if t.isKeyword .SELECT then compileSelect env subquery site.1 site.2
      else if t.isKeyword .TABLE then compileTable env
      else if t.isKeyword .VALUES then compileValues subquery site.1 site.2
      else reject (.unexpected .queryKeyword t.fragment)
  Reader.closeParens parens
  return plan

/-- A subquery is compiled from tokens of its own. -/
theorem embedded_congr {compile compile' : List RangeGroup → Expectation → Compiler Plan}
    {body : List Token} (h : ∀ outer s, CompilerState.toCome s = body.length →
      compile outer none s = compile' outer none s) :
    embedded compile body = embedded compile' body := by
  have hcompile : ∀ outer s, CompilerState.toCome s = body.length →
      (do Compiler.noteQuery outer none
          let plan ← compile outer none
          Reader.finish
          return plan : Compiler Plan) s =
      (do Compiler.noteQuery outer none
          let plan ← compile' outer none
          Reader.finish
          return plan : Compiler Plan) s := by
    intro outer s hs
    refine bind_congr_ok fun _ t ht => ?_
    obtain rfl := modify_ok.1 ht
    exact bind_congr_run (h outer _ hs)
  funext outer s
  unfold embedded Compiler.onTokens
  rw [hcompile outer _ rfl]

theorem compileStep_agrees {n : Nat} {compile compile' : Site → Compiler Plan}
    (h : ∀ site, Agrees CompilerState.toCome n (compile site) (compile' site)) (site : Site) :
    Agrees CompilerState.toCome (n + 1) (compileStep env compile site)
      (compileStep env compile' site) := by
  intro s hs
  refine bind_congr_ok fun parens s₁ hparens => ?_
  obtain ⟨c, hc, rfl⟩ := lift_reader_compiler_ok.1 hparens
  obtain ⟨opens, -, -, hrest⟩ := Reader.openParens_ok hc
  -- the body of a subquery is shorter than what is left, so both bounds compile it alike
  have hsubquery : ∀ body : List Token, body.length < Cursor.toCome c →
      embedded (fun outer expected => compile (outer, expected)) body =
        embedded (fun outer expected => compile' (outer, expected)) body := by
    intro body hbody
    refine embedded_congr fun outer t ht => h (outer, none) t ?_
    simp only [CompilerState.toCome, Cursor.toCome, hrest, List.length_append] at hs hbody ht ⊢
    omega
  refine bind_congr_ok fun u s₂ hu => ?_
  obtain ⟨rfl, rfl⟩ := get_ok.1 hu
  rcases c.rest with _ | ⟨t, ts⟩
  · rfl
  · simp only
    split
    · exact bind_congr_run (compileSelect_congr hsubquery)
    · split
      · rfl
      · split
        · exact bind_congr_run (compileValues_congr hsubquery)
        · rfl

/-- Compiling queries within queries comes to an end: as deep as they nest, each is shorter than
the one around it. -/
theorem compile_comesTo (env : Environment) :
    ComesTo (compileStep env) (fun site => Query.compile env site.1 site.2)
      fun _ s => s.toCome + 1 := by
  have hdescending : Descending (fun _ s => CompilerState.toCome s) (compileStep env)
      fun bound site => compileWithin env bound site.1 site.2 :=
    ⟨fun _ => rfl, fun n b compile h => compileStep_agrees h⟩
  exact hdescending.comesTo fun site s => bind_run (countsTokens_state.remaining s)

end Query

end DataChange
