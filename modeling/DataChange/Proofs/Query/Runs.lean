import DataChange.Proofs.Token.Consumed
import DataChange.Query

/-!
# Queries that compile

A query that compiles has gone through the steps given here: what it read, in which states, and
what it resolved afterwards.
-/

namespace DataChange

theorem RangeGroup.ofRanges_ok {ranges group : List Range} (h : ofRanges ranges = .ok group) :
    group = ranges := by
  unfold ofRanges at h
  split at h
  · cases h
  · cases h
    rfl

theorem Range.ofNew_ok {relation : Relation} {asName : Option String} {fragment : Fragment}
    {s t : CompilerState} {r : Range} (h : ofNew relation asName fragment s = .ok r t) :
    r = ofRelation s.nextRange relation asName fragment ∧
      t = { s with nextRange := s.nextRange + 1 } := by
  simp only [ofNew, bind_ok, newRange_ok, pure_ok] at h
  obtain ⟨_, _, ⟨rfl, rfl⟩, rfl, rfl⟩ := h
  exact ⟨rfl, rfl⟩

theorem Range.named_ok {env : Environment} {name : QualifiedName} {asName : Option String}
    {fragment : Fragment} {s t : CompilerState} {r : Range}
    (h : named env name asName fragment s = .ok r t) :
    ∃ relation, env.relation name fragment = .ok relation ∧
      r = ofRelation s.nextRange relation asName fragment ∧
      t = { s with nextRange := s.nextRange + 1 } := by
  simp only [named, bind_ok, lift_except_ok] at h
  obtain ⟨relation, _, ⟨hr, rfl⟩, h⟩ := h
  exact ⟨relation, hr, ofNew_ok h⟩

namespace Query

variable {env : Environment} {compile : QueryCompiler} {outer : List RangeGroup}
  {expected : Expectation} {s t : CompilerState} {plan : Plan}

/-- The ranges after FROM, or none. -/
def fromRanges (env : Environment) (found : Bool) : Compiler (List Range) :=
  if found then commaSeparated (Range.readRelation env) else pure []

theorem resolveCondition?_ok {scope : Scope} {condition condition' : Option Expr}
    (h : resolveCondition? compile scope condition s = .ok condition' t) :
    (condition = none ∧ condition' = none ∧ t = s) ∨
      ∃ e e', condition = some e ∧ condition' = some e' ∧
        e.resolveConditionWith compile scope s = .ok e' t := by
  cases condition with
  | none =>
    obtain ⟨rfl, rfl⟩ := pure_ok.1 h
    exact .inl ⟨rfl, rfl, rfl⟩
  | some e =>
    simp only [resolveCondition?, bind_ok, pure_ok] at h
    obtain ⟨e', _, he, rfl, rfl⟩ := h
    exact .inr ⟨e, e', rfl, rfl, he⟩

theorem compileSelect_ok (h : compileSelect env compile outer expected s = .ok plan t) :
    ∃ select s₁ items s₂ found s₃ ranges s₄ condition s₅ selection s₆ condition',
      (liftM (Reader.keyword .SELECT) : Compiler Token) s = .ok select s₁ ∧
      commaSeparated readItem s₁ = .ok items s₂ ∧
      (liftM (Reader.skipKeyword .FROM) : Compiler Bool) s₂ = .ok found s₃ ∧
      fromRanges env found s₃ = .ok ranges s₄ ∧ RangeGroup.ofRanges ranges = .ok ranges ∧
      readCondition s₄ = .ok condition s₅ ∧
      items.foldlM (selectItem compile ⟨ranges, outer⟩ expected) {} s₅ = .ok selection s₆ ∧
      resolveCondition? compile ⟨ranges, outer⟩ condition s₆ = .ok condition' t ∧
      plan = .select selection.columns selection.projection ranges condition' := by
  simp only [compileSelect, bind_ok] at h
  obtain ⟨select, s₁, hselect, items, s₂, hitems, found, s₃, hfound, h⟩ := h
  -- without FROM there are no ranges, and the clauses that follow are read alike
  have hfrom : ∃ ranges s₄, fromRanges env found s₃ = .ok ranges s₄ ∧
      ∃ group s₅, (liftM (RangeGroup.ofRanges ranges) : Compiler RangeGroup) s₄ = .ok group s₅ ∧
      ∃ condition s₆, readCondition s₅ = .ok condition s₆ ∧
      ∃ selection s₇, items.foldlM (selectItem compile ⟨group, outer⟩ expected) {} s₆ =
        .ok selection s₇ ∧
      ∃ condition', resolveCondition? compile ⟨group, outer⟩ condition s₇ = .ok condition' t ∧
      plan = .select selection.columns selection.projection group condition' := by
    unfold fromRanges
    cases found <;> simp only [Bool.false_eq_true, ↓reduceIte, pure_bind, bind_ok, pure_ok] at h ⊢
    · obtain ⟨group, s₅, hgroup, condition, s₆, hc, selection, s₇, hs, condition', _, hr, rfl,
        rfl⟩ := h
      exact ⟨[], s₃, ⟨rfl, rfl⟩, group, s₅, hgroup, condition, s₆, hc, selection, s₇, hs,
        condition', hr, rfl⟩
    · obtain ⟨ranges, s₄, hranges, group, s₅, hgroup, condition, s₆, hc, selection, s₇, hs,
        condition', _, hr, rfl, rfl⟩ := h
      exact ⟨ranges, s₄, hranges, group, s₅, hgroup, condition, s₆, hc, selection, s₇, hs,
        condition', hr, rfl⟩
  obtain ⟨ranges, s₄, hranges, group, _, hgroup, condition, s₅, hc, selection, s₆, hs, condition',
    hr, rfl⟩ := hfrom
  obtain ⟨hnames, rfl⟩ := lift_except_ok.1 hgroup
  obtain rfl := RangeGroup.ofRanges_ok hnames
  exact ⟨select, s₁, items, s₂, found, s₃, group, s₄, condition, s₅, selection, s₆, condition',
    hselect, hitems, hfound, hranges, hnames, hc, hs, hr, rfl⟩

theorem compileTable_ok (h : compileTable env s = .ok plan t) :
    ∃ table s₁ name fragment s₂ range,
      (liftM (Reader.keyword .TABLE) : Compiler Token) s = .ok table s₁ ∧
      (liftM Reader.qualifiedName : Compiler _) s₁ = .ok (name, fragment) s₂ ∧
      Range.named env name none fragment s₂ = .ok range t ∧
      plan = .select range.columns (range.allColumns none fragment) [range] none := by
  simp only [compileTable, bind_ok, pure_ok, Prod.exists] at h
  obtain ⟨table, s₁, htable, name, fragment, s₂, hname, range, _, hrange, rfl, rfl⟩ := h
  exact ⟨table, s₁, name, fragment, s₂, range, htable, hname, hrange, rfl⟩

theorem compileValues_ok (h : compileValues compile outer expected s = .ok plan t) :
    ∃ values s₁ rows s₂ joined rows' types degree,
      (liftM (Reader.keyword .VALUES) : Compiler Token) s = .ok values s₁ ∧
      (liftM Expr.parseList : Compiler (List Expr)) s₁ = .ok rows s₂ ∧
      rows.head?.map (·.degree) = some degree ∧
      rows.foldlM (addRow compile outer degree) (List.replicate degree none, []) s₂ =
        .ok (joined, rows') t ∧
      columnTypes expected values.fragment 0 joined = .ok types ∧
      plan = .values (types.mapIdx fun index type => ⟨columnName index, type⟩)
        (.untyped (.values (rows'.map (settleRow types))) values.fragment) := by
  simp only [compileValues, bind_ok, inRange_ok, lift_except_ok, pure_ok, Prod.exists] at h
  obtain ⟨values, s₁, hvalues, rows, s₂, hrows, degree, _, ⟨hdegree, rfl⟩, joined, rows', _, hadd,
    types, _, ⟨htypes, rfl⟩, rfl, rfl⟩ := h
  exact ⟨values, s₁, rows, s₂, joined, rows', types, degree, hvalues, hrows, hdegree, hadd, htypes,
    rfl⟩

/-- Joining types leaves the state as it is. -/
theorem joinRow_stays {types types' : List (Option SqlType)} {cells : List Expr}
    (h : joinRow types cells s = .ok types' t) : t = s := by
  induction cells generalizing types types' s with
  | nil =>
    cases types <;> exact (pure_ok.1 h).2.symm
  | cons cell cells ih =>
    cases types with
    | nil =>
      simp only [joinRow, bind_ok, lift_except_ok] at h
      obtain ⟨type, _, ⟨-, rfl⟩, h⟩ := h
      cases type with
      | none => exact ih h
      | some type => exact (throw_ok.1 h).elim
    | cons type types =>
      simp only [joinRow, bind_ok, lift_except_ok, pure_ok] at h
      obtain ⟨_, _, ⟨-, rfl⟩, _, _, h, -, rfl⟩ := h
      exact ih h

theorem addRow_ok {degree : Nat} {joined joined' : List (Option SqlType)} {rows rows' : List Expr}
    {row : Expr} (h : addRow compile outer degree (joined, rows) row s = .ok (joined', rows') t) :
    row.degree = degree ∧ ∃ row', (asRow row).resolveWith compile (.outerOnly outer) s = .ok row' t ∧
      joinRow joined row'.children t = .ok joined' t ∧ rows' = rows ++ [row'] := by
  simp only [addRow] at h
  split at h
  · simp only [bind_ok, reject_ok, false_and, exists_false] at h
  · rename_i hd
    simp only [bind_ok, pure_ok, Prod.mk.injEq] at h
    obtain ⟨row', u, hrow, types, _, htypes, ⟨rfl, rfl⟩, rfl⟩ := h
    obtain rfl := joinRow_stays htypes
    exact ⟨by simpa using hd, row', hrow, htypes, rfl⟩

/-- The body of a query at its keyword. -/
inductive CompilesBody (env : Environment) (compile : QueryCompiler) (outer : List RangeGroup)
    (expected : Expectation) (s : CompilerState) (plan : Plan) (t : CompilerState) : Prop
  | select (h : compileSelect env compile outer expected s = .ok plan t)
  | table (h : compileTable env s = .ok plan t)
  | values (h : compileValues compile outer expected s = .ok plan t)

theorem compileWithin_ok {bound : Nat} (h : compileWithin env bound outer expected s = .ok plan t) :
    ∃ bound' parens s₁ s₂, bound = bound' + 1 ∧
      (liftM Reader.openParens : Compiler Nat) s = .ok parens s₁ ∧
      CompilesBody env (embedded (compileWithin env bound')) outer expected s₁ plan s₂ ∧
      (liftM (Reader.closeParens parens) : Compiler Unit) s₂ = .ok () t := by
  cases bound with
  | zero =>
    simp only [compileWithin, bind_ok, get_ok, reject_ok, and_false, exists_false] at h
  | succ bound =>
    simp only [compileWithin, bind_ok, get_ok] at h
    obtain ⟨parens, s₁, hparens, _, _, ⟨rfl, rfl⟩, h⟩ := h
    -- a body of any kind is followed by as many closing brackets as were opened before it
    have hclose : ∀ {body : Compiler Plan}, (body >>= fun plan => do
        Reader.closeParens parens
        return plan) s₁ = .ok plan t → ∃ s₂, body s₁ = .ok plan s₂ ∧
          (liftM (Reader.closeParens parens) : Compiler Unit) s₂ = .ok () t := by
      intro body h
      simp only [bind_ok, pure_ok] at h
      obtain ⟨plan', s₂, hb, _, _, hc, rfl, rfl⟩ := h
      exact ⟨s₂, hb, hc⟩
    refine ⟨bound, parens, s₁, ?_⟩
    cases hrest : s₁.cursor.rest with
    | nil =>
      simp only [hrest, bind_ok, reject_ok, false_and, exists_false] at h
    | cons x xs =>
      simp only [hrest] at h
      split at h
      · obtain ⟨s₂, hb, hc⟩ := hclose h
        exact ⟨s₂, rfl, hparens, .select hb, hc⟩
      · split at h
        · obtain ⟨s₂, hb, hc⟩ := hclose h
          exact ⟨s₂, rfl, hparens, .table hb, hc⟩
        · split at h
          · obtain ⟨s₂, hb, hc⟩ := hclose h
            exact ⟨s₂, rfl, hparens, .values hb, hc⟩
          · simp only [bind_ok, reject_ok, false_and, exists_false] at h

theorem embedded_ok {compile : List RangeGroup → Expectation → Compiler Plan} {body : List Token}
    (h : embedded compile body outer s = .ok plan t) :
    ∃ queries s₁ c, compile outer none { s with cursor := .ofTokens body, queries := queries } =
        .ok plan s₁ ∧ Reader.finish s₁.cursor = .ok () c ∧ t = { s₁ with cursor := s.cursor } := by
  obtain ⟨u, hu, rfl⟩ := onTokens_ok.1 h
  simp only [Compiler.noteQuery, bind_ok, modify_ok, pure_ok] at hu
  obtain ⟨_, _, rfl, plan', s₁, hp, _, _, hfinish, rfl, rfl⟩ := hu
  obtain ⟨c, hc, rfl⟩ := lift_reader_compiler_ok.1 hfinish
  exact ⟨_, s₁, c, hp, hc, rfl⟩

end Query

end DataChange
