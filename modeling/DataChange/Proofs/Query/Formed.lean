import DataChange.Proofs.Catalog
import DataChange.Proofs.Token.Lexemes
import DataChange.Proofs.Query.Columns
import DataChange.Proofs.Query.Exprs
import DataChange.Proofs.Expr.Subqueries

/-!
# The form of queries

What a query is compiled to agrees with the tokens that it is read from (`Enclosed`): the columns
and the values of a SELECT are those that its items put in, one after the other, and have the same
types; the ranges have distinct names and the condition is a truth value; the rows of VALUES have
one cell for each column; and of the brackets around the query as many are closed as were opened.
This holds of every query that compiles, and of those inside it at any depth (`compile_formed`).
-/

namespace DataChange

/-- The names of some ranges, in the spelling in which names are compared. -/
def RangeGroup.foldedNames (ranges : List Range) : List String :=
  ranges.map fun r => Text.foldCase r.name

theorem RangeGroup.clash?_none {earlier rs : List Range} (h : clash? earlier rs = none) :
    (foldedNames rs).Nodup ∧ ∀ e ∈ earlier, ∀ r ∈ rs, Text.foldCase e.name ≠ Text.foldCase r.name := by
  induction rs generalizing earlier with
  | nil => simp [foldedNames]
  | cons r rs ih =>
    unfold clash? at h
    split at h
    · cases h
    · next hnew =>
      obtain ⟨hnodup, hearlier⟩ := ih h
      have hr : ∀ e ∈ earlier, Text.foldCase e.name ≠ Text.foldCase r.name := by
        intro e he hsame
        exact hnew (List.any_eq_true.2 ⟨e, he, Text.sameName_iff.2 hsame⟩)
      refine ⟨List.nodup_cons.2 ⟨fun hmem => ?_, hnodup⟩, fun e he x hx => ?_⟩
      · obtain ⟨x, hx, hsame⟩ := List.mem_map.1 hmem
        exact hearlier r (by simp) x hx hsame.symm
      · rcases List.mem_cons.1 hx with rfl | hx
        · exact hr e he
        · exact hearlier e (by simp [he]) x hx

theorem RangeGroup.ofRanges_nodup {ranges group : List Range} (h : ofRanges ranges = .ok group) :
    (foldedNames ranges).Nodup := by
  unfold ofRanges at h
  split at h
  · cases h
  · next hclash => exact (clash?_none hclash).1

theorem Expr.inferCondition_boolean {e e' : Expr} (h : inferCondition e = .ok e') :
    e'.type? = some .boolean := by
  unfold inferCondition at h
  split at h
  · cases h
  · split at h
    · cases h
      rfl
    · next htype =>
      cases h
      exact htype
    · cases h

namespace Query

/-! ## What is read and what comes of it -/

/-- What an item of a SELECT list puts into a query over some ranges: `*` all columns of each of
them, an expression one column and its resolved form. -/
inductive Item.Fills (ranges : List Range) : Item → List Attribute → List Expr → Prop
  | all (fragment : Fragment) : Fills ranges (.all fragment) (ranges.flatMap (·.columns))
      (ranges.flatMap fun r => r.allColumns (some r.name) fragment)
  | expression {e value : Expr} (asName : Option String) (column : Attribute)
      (h : e.Alike value) : Fills ranges (.expression e asName) [column] [value]

/-- What the items of a SELECT list put in, one after the other. -/
inductive Selects (ranges : List Range) : List Item → List Attribute → List Expr → Prop
  | nil : Selects ranges [] [] []
  | cons {item : Item} {items : List Item} {columns columns' : List Attribute}
      {values values' : List Expr} (hitem : item.Fills ranges columns values)
      (hitems : Selects ranges items columns' values') :
      Selects ranges (item :: items) (columns ++ columns') (values ++ values')

/-- A row with a value for each of some columns, where DEFAULT is no value. -/
def IsRowFor (columns : List Attribute) (row : Expr) : Prop :=
  ∃ cells, row.kind = .row cells ∧ cells.length = columns.length ∧
    ∀ cell ∈ cells, cell.isDefault = false

/-- A query and the tokens from its keyword on. -/
inductive Formed (env : Environment) : List Token → Plan → Prop
  | select {keyword : Token} {s t u v : CompilerState} {items : List Item} {found : Bool}
      {ranges : List Range} {columns : List Attribute} {values : List Expr}
      {condition : Option Expr} (hkeyword : keyword.kind = .keyword .SELECT)
      (hitems : commaSeparated readItem s = .ok items t)
      (hfrom : (liftM (Reader.skipKeyword .FROM) : Compiler Bool) t = .ok found u)
      (hranges : fromRanges env found u = .ok ranges v) (hselects : Selects ranges items columns values)
      (htyped : List.Forall₂ Typed columns values) (hnames : (RangeGroup.foldedNames ranges).Nodup)
      (hcondition : ∀ e ∈ condition, e.type? = some .boolean) :
      Formed env (keyword :: s.cursor.rest) (.select columns values ranges condition)
  | table {keyword : Token} {s t u : CompilerState} {name : QualifiedName} {fragment : Fragment}
      {range : Range} (hkeyword : keyword.kind = .keyword .TABLE)
      (hname : (liftM Reader.qualifiedName : Compiler _) s = .ok (name, fragment) t)
      (hrange : Range.named env name none fragment t = .ok range u)
      (htyped : List.Forall₂ Typed range.columns (range.allColumns none fragment)) :
      Formed env (keyword :: s.cursor.rest)
        (.select range.columns (range.allColumns none fragment) [range] none)
  | values {keyword : Token} {tokens : List Token} {columns : List Attribute} {rows : List Expr}
      (fragment : Fragment) (hkeyword : keyword.kind = .keyword .VALUES)
      (hrows : ∀ row ∈ rows, IsRowFor columns row) :
      Formed env (keyword :: tokens) (.values columns (.untyped (.values rows) fragment))

/-- A query in brackets, read from some tokens up to others: before its keyword as many brackets
are opened as are closed after it. -/
inductive Enclosed (env : Environment) : List Token → Plan → List Token → Prop
  | intro {opens body closes rest : List Token} {plan : Plan}
      (hopens : ∀ x ∈ opens, x.isSymbol .openParen = true)
      (hcloses : ∀ x ∈ closes, x.isSymbol .closeParen = true)
      (hlength : closes.length = opens.length) (hbody : body ≠ [])
      (hformed : Formed env (body ++ (closes ++ rest)) plan) :
      Enclosed env (opens ++ (body ++ (closes ++ rest))) plan rest

variable {env : Environment} {compile : QueryCompiler} {scope : Scope} {outer : List RangeGroup}
  {expected : Expectation} {s t : CompilerState} {plan : Plan}

/-! ## SELECT -/

theorem typeSelected_alike {e e' : Expr} {type : Option SqlType} {u : SqlType}
    (h : typeSelected e type = .ok (e', u)) : e.Alike e' := by
  unfold typeSelected at h
  split at h
  · cases h
    exact .refl _
  · split at h
    · split at h
      · cases h
        exact .asColumn ..
      · cases h
    · cases h

theorem selectItem_fills {selection selection' : Selection} {item : Item}
    (h : selectItem compile scope expected selection item s = .ok selection' t) :
    ∃ columns values, item.Fills scope.ranges columns values ∧
      selection'.columns = selection.columns ++ columns ∧
      selection'.projection = selection.projection ++ values := by
  cases item with
  | all fragment =>
    simp only [selectItem] at h
    split at h
    · exact (reject_ok.1 h).elim
    · obtain ⟨rfl, -⟩ := pure_ok.1 h
      exact ⟨_, _, .all fragment, rfl, rfl⟩
  | expression e asName =>
    simp only [selectItem, bind_ok, lift_except_ok, pure_ok, Prod.exists] at h
    obtain ⟨e', _, he, e'', type, _, ⟨htype, rfl⟩, rfl, -⟩ := h
    have halike := (Expr.resolveWith_alike he).trans (typeSelected_alike htype)
    exact ⟨_, _, .expression asName _ halike, rfl, rfl⟩

theorem selectItems_selects {items : List Item} {selection selection' : Selection}
    (h : items.foldlM (selectItem compile scope expected) selection s = .ok selection' t) :
    ∃ columns values, Selects scope.ranges items columns values ∧
      selection'.columns = selection.columns ++ columns ∧
      selection'.projection = selection.projection ++ values := by
  induction items generalizing selection s with
  | nil =>
    obtain ⟨rfl, -⟩ := pure_ok.1 h
    exact ⟨[], [], .nil, by simp, by simp⟩
  | cons item items ih =>
    simp only [List.foldlM_cons, bind_ok] at h
    obtain ⟨mid, u, hitem, h⟩ := h
    obtain ⟨columns, values, hfills, hcolumns, hvalues⟩ := selectItem_fills hitem
    obtain ⟨columns', values', hselects, hcolumns', hvalues'⟩ := ih h
    refine ⟨_, _, .cons hfills hselects, ?_, ?_⟩
    · rw [hcolumns', hcolumns, List.append_assoc]
    · rw [hvalues', hvalues, List.append_assoc]

theorem resolveCondition?_boolean {condition condition' : Option Expr}
    (h : resolveCondition? compile scope condition s = .ok condition' t) :
    ∀ e ∈ condition', e.type? = some .boolean := by
  rcases resolveCondition?_ok h with ⟨-, rfl, -⟩ | ⟨e, e', rfl, rfl, he⟩
  · simp
  · obtain ⟨b, -, hcondition⟩ := Expr.resolveConditionWith_ok he
    rintro _ ⟨⟩
    exact Expr.inferCondition_boolean hcondition

/-- A keyword that is read is the first of the tokens to come. -/
theorem keyword_first {k : Keyword} {x : Token}
    (h : (liftM (Reader.keyword k) : Compiler Token) s = .ok x t) :
    x.kind = .keyword k ∧ s.cursor.rest = x :: t.cursor.rest := by
  obtain ⟨c, hc, rfl⟩ := lift_reader_compiler_ok.1 h
  exact Reader.keyword_ok hc

theorem compileSelect_formed (h : compileSelect env compile outer expected s = .ok plan t) :
    Formed env s.cursor.rest plan := by
  obtain ⟨keyword, s₁, items, s₂, _, s₃, ranges, s₄, condition, s₅, selection, s₆, condition',
    hselect, hitems, hfrom, hranges, hnames, -, hs, hr, rfl⟩ := compileSelect_ok h
  obtain ⟨hkeyword, hrest⟩ := keyword_first hselect
  obtain ⟨columns, values, hselects, hcolumns, hvalues⟩ := selectItems_selects hs
  have htyped := foldlM_induct (fun sel : Selection => List.Forall₂ Typed sel.columns sel.projection)
    (fun _ _ _ _ _ _ hsel hitem => selectItem_typed hitem hsel) hs .nil
  obtain rfl : selection.columns = columns := by simpa using hcolumns
  obtain rfl : selection.projection = values := by simpa using hvalues
  rw [hrest]
  exact .select hkeyword hitems hfrom hranges hselects htyped (RangeGroup.ofRanges_nodup hnames)
    (resolveCondition?_boolean hr)

theorem compileTable_formed (h : compileTable env s = .ok plan t) : Formed env s.cursor.rest plan := by
  obtain ⟨keyword, s₁, name, fragment, s₂, range, htable, hname, hrange, rfl⟩ := compileTable_ok h
  obtain ⟨hkeyword, hrest⟩ := keyword_first htable
  rw [hrest]
  exact .table hkeyword hname hrange (allColumns_typed range none fragment)

/-! ## VALUES -/

/-- A row whose cells are joined to the types of the columns has a value for each column, and keeps
it when untyped parameters take these types. -/
theorem settleRow_isRowFor {row : Expr} {cells : List Expr} {joined : List (Option SqlType)}
    {types : List SqlType} {columns : List Attribute} (hk : row.kind = .row cells)
    (hjoins : List.Forall₂ Joins joined cells) (htypes : types.length = joined.length)
    (hcolumns : columns.length = types.length) : IsRowFor columns (settleRow types row) := by
  rw [settleRow_eq hk]
  refine ⟨_, rfl, ?_, fun cell hcell => ?_⟩
  · simp [hcolumns, htypes, hjoins.length_eq]
  · rw [← List.map_uncurry_zip_eq_zipWith] at hcell
    obtain ⟨⟨cell, type⟩, hmem, rfl⟩ := List.mem_map.1 hcell
    obtain ⟨type', -, hjoin⟩ := forall₂_exists_left hjoins (List.of_mem_zip hmem).1
    have hvalue := hjoin.value
    rw [Bool.eq_false_iff, Ne, Expr.isDefault_iff] at hvalue ⊢
    show ¬ (settleCell cell type).shape = .default
    rwa [(settleCell_alike cell type).shape]

theorem compileValues_formed (h : compileValues compile outer expected s = .ok plan t) :
    Formed env s.cursor.rest plan := by
  obtain ⟨keyword, s₁, rows, s₂, joined, rows', types, degree, hvalues, hrows, -, hadd, htypes,
    rfl⟩ := compileValues_ok h
  obtain ⟨hkeyword, hrest⟩ := keyword_first hvalues
  obtain ⟨r, hr, -⟩ := lift_parser_ok.1 hrows
  have hplain := (Expr.parseList_reads _ _ _ hr).plain
  obtain ⟨hjoins, -⟩ := addRows_joins hplain (by simp) hadd (by simp [RowsJoin])
  rw [hrest]
  refine .values _ hkeyword fun row' hrow' => ?_
  obtain ⟨row, hrow, rfl⟩ := List.mem_map.1 hrow'
  obtain ⟨cells, hk, hcells⟩ := hjoins row hrow
  exact settleRow_isRowFor hk hcells (columnTypes_ok htypes).1 (by simp)

theorem compilesBody_formed (h : CompilesBody env compile outer expected s plan t) :
    Formed env s.cursor.rest plan := by
  cases h with
  | select h => exact compileSelect_formed h
  | table h => exact compileTable_formed h
  | values h => exact compileValues_formed h

/-! ## All queries -/

/-- What is true of every query inside another, which is compiled on its own. -/
def InnerFormed (env : Environment) (inner : Plan) : Prop :=
  ∃ tokens rest, Enclosed env tokens inner rest ∧ IsTail rest

/-- A query whose subqueries are formed holds formed queries only. -/
theorem innerFormed_yielded
    (hplans : ∀ body outer s plan t, compile body outer s = .ok plan t →
      InnerFormed env plan ∧ plan.EachInner (InnerFormed env)) :
    Yielded compile fun e =>
      e.Each (Expr.CompiledTo fun inner => InnerFormed env inner ∧ inner.EachInner (InnerFormed env)) where
  resolve hraw h := by
    obtain ⟨b, hb, hi⟩ := Expr.resolveWith_ok h
    exact Expr.infer_compiled (Expr.bindIn_compiled hplans hraw.uncompiled hb) hi
  condition hraw h := by
    obtain ⟨b, hb, hi⟩ := Expr.resolveConditionWith_ok h
    exact Expr.inferCondition_compiled (Expr.bindIn_compiled hplans hraw.uncompiled hb) hi
  columns r qualifier fragment e he := by
    obtain ⟨i, hi, rfl⟩ := List.mem_mapIdx.1 he
    exact .leaf (fun _ _ hk => by cases hk) rfl
  asColumn h := Expr.each_compiled_asColumn h
  items h hk e he := h.children e (by simpa [Expr.children, hk] using he)
  withItems _ _ hitems := .intro (fun _ _ hk => by cases hk) hitems
  values h _ := .intro (fun _ _ hk => by cases hk) h

theorem compileWithin_formed : ∀ (bound : Nat) (outer : List RangeGroup) (expected : Expectation)
    (s : CompilerState) (plan : Plan) (t : CompilerState),
    compileWithin env bound outer expected s = .ok plan t →
    Enclosed env s.cursor.rest plan t.cursor.rest ∧ plan.EachInner (InnerFormed env)
  | 0, _, _, _, _, _, h => by
    obtain ⟨_, _, _, _, hb, -⟩ := compileWithin_ok h
    cases hb
  | bound + 1, outer, expected, s, plan, t, h => by
    obtain ⟨_, parens, s₁, s₂, hb, hopen, hbody, hclose⟩ := compileWithin_ok h
    cases hb
    have hplans : ∀ body outer s plan t,
        embedded (compileWithin env bound) body outer s = .ok plan t →
          InnerFormed env plan ∧ plan.EachInner (InnerFormed env) := by
      intro body outer s plan t h
      obtain ⟨queries, s₁, c, hp, hfinish, -⟩ := embedded_ok h
      obtain ⟨henclosed, hinner⟩ := compileWithin_formed bound _ _ _ _ _ hp
      exact ⟨⟨_, _, henclosed, Reader.finish_ok hfinish⟩, hinner⟩
    have hnumbers := embedded_numbers (@compileWithin_numbers env bound)
    have hresolves := embedded_resolves (@compileWithin_keeps env bound)
    obtain ⟨q, qs, -, hread⟩ := compilesBody_inOrder hnumbers hresolves hbody
    obtain ⟨c, hc, rfl⟩ := lift_reader_compiler_ok.1 hopen
    obtain ⟨d, hd, rfl⟩ := lift_reader_compiler_ok.1 hclose
    obtain ⟨opens, hopens_length, hopens, ho⟩ := Reader.openParens_ok hc
    obtain ⟨closes, hcloses_length, hcloses, hcl⟩ := Reader.closeParens_ok hd
    have hrest : c.rest = q :: qs ++ (closes ++ d.rest) := by
      rw [← hcl]
      exact hread.rest
    have hformed : Formed env c.rest plan := compilesBody_formed hbody
    refine ⟨?_, .of_exprs (compilesBody_exprs (innerFormed_yielded hplans) hbody)⟩
    have hlength : closes.length = opens.length := by rw [hcloses_length, hopens_length]
    rw [hrest] at hformed
    rw [ho, hrest]
    exact .intro hopens hcloses hlength (by simp) hformed

/-- A query that compiles has the form that its tokens call for, between as many brackets that are
closed as are opened, and so has every query inside it. -/
theorem compile_formed (h : Query.compile env outer expected s = .ok plan t) :
    Enclosed env s.cursor.rest plan t.cursor.rest ∧ plan.EachInner (InnerFormed env) := by
  simp only [Query.compile, bind_ok] at h
  obtain ⟨n, u, hn, h⟩ := h
  obtain ⟨c, hc, rfl⟩ := lift_reader_compiler_ok.1 hn
  obtain ⟨-, rfl⟩ := Reader.remaining_ok hc
  exact compileWithin_formed _ _ _ _ _ _ h

/-- Whether some characters compile to a query of which something is computed. -/
def compilesTo (env : Environment) (check : Plan → Bool) (chars : List Char) : Bool :=
  match scan chars with
  | .ok tokens =>
    match Query.compile env [] none { CompilerState.initial with cursor := .ofTokens tokens } with
    | .ok plan _ => check plan
    | .error .. => false
  | .error _ => false

/-- A text that compiles to a query, with what is computed of it. -/
theorem exists_plan (env : Environment) (text : String) (check : Plan → Bool)
    {chars : List Char} (htext : text = String.ofList chars)
    (h : compilesTo env check chars = true) :
    ∃ tokens plan t, tokenize text = .ok tokens ∧
      Query.compile env [] none { CompilerState.initial with cursor := .ofTokens tokens } = .ok plan t ∧
      check plan = true := by
  rw [tokenize_eq_scan htext]
  unfold compilesTo at h
  split at h
  · next tokens htokens =>
    split at h
    · next plan t hcompile => exact ⟨tokens, plan, t, htokens, hcompile, h⟩
    · cases h
  · cases h

/-- All columns of two tables and the value of a subquery, in two pairs of brackets. -/
def starredQuery : String :=
  "((SELECT *, (VALUES (1)) FROM t, ledger AS l WHERE l.amount > ?)) ORDER BY a"

set_option maxRecDepth 10000 in
theorem compile_formed_starred : ∃ tokens plan t, tokenize starredQuery = .ok tokens ∧
    Query.compile .bank [] none { CompilerState.initial with cursor := .ofTokens tokens } = .ok plan t ∧
    plan.columns.length = 7 ∧ Enclosed .bank tokens plan t.cursor.rest ∧
    plan.EachInner (InnerFormed .bank) := by
  obtain ⟨tokens, plan, t, htokens, hcompile, hlength⟩ := exists_plan .bank starredQuery
    (fun plan => plan.columns.length = 7) rfl (by decide +kernel)
  exact ⟨tokens, plan, t, htokens, hcompile, by simpa using hlength, compile_formed hcompile⟩

end Query

end DataChange
