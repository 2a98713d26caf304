import DataChange.Proofs.Expr.Bound
import DataChange.Proofs.Query.Runs

/-!
# What compiling leaves as it is

Compiling a query leaves the enclosing scopes and the calls noted as they are, and hands out range
ids upwards: `Keeps`. Resolving an expression moreover leaves the cursor where it is: `Resolves`.
-/

namespace DataChange

/-- The scopes and calls of a state are kept, and ids are only handed out. -/
structure Keeps (s t : CompilerState) : Prop where
  outer : t.outer = s.outer
  calls : t.calls = s.calls
  ranges : s.nextRange ≤ t.nextRange

/-- Moreover no token is read. -/
structure Resolves (s t : CompilerState) : Prop extends Keeps s t where
  cursor : t.cursor = s.cursor

namespace Keeps

variable {s t u : CompilerState}

theorem refl (s : CompilerState) : Keeps s s :=
  ⟨rfl, rfl, Nat.le_refl _⟩

theorem trans (h : Keeps s t) (k : Keeps t u) : Keeps s u :=
  ⟨k.outer.trans h.outer, k.calls.trans h.calls, Nat.le_trans h.ranges k.ranges⟩

end Keeps

namespace Resolves

variable {s t u : CompilerState}

theorem refl (s : CompilerState) : Resolves s s :=
  ⟨.refl s, rfl⟩

theorem trans (h : Resolves s t) (k : Resolves t u) : Resolves s u :=
  ⟨h.toKeeps.trans k.toKeeps, k.cursor.trans h.cursor⟩

end Resolves

section

variable {α β : Type} {s t : CompilerState}

/-! ## Reading -/

theorem parser_keeps {x : Parser α} {a : α} (h : (liftM x : Compiler α) s = .ok a t) :
    Keeps s t := by
  obtain ⟨r, -, rfl⟩ := lift_parser_ok.1 h
  exact ⟨rfl, rfl, Nat.le_refl _⟩

theorem reader_keeps {x : Reader α} {a : α} (h : (liftM x : Compiler α) s = .ok a t) :
    Keeps s t :=
  parser_keeps (lift_reader_eq x ▸ h)

/-! ## Loops -/

theorem commaSeparated_keeps {item : Compiler α}
    (hitem : ∀ s a t, item s = .ok a t → Keeps s t) {as : List α}
    (h : commaSeparated item s = .ok as t) : Keeps s t := by
  refine commaSteps_induct (fun _ u => Keeps s u) h ?_ ?_ ?_ ?_
  · intro as u h
    simp only [bind_ok, pure_ok] at h
    obtain ⟨a, _, ha, -, rfl⟩ := h
    exact hitem _ _ _ ha
  · exact fun as u n v hi h => hi.trans (reader_keeps h)
  · intro as u v bs w hi hskip h
    simp only [bind_ok, pure_ok] at h
    obtain ⟨a, _, ha, -, rfl⟩ := h
    exact (hi.trans (reader_keeps hskip)).trans (hitem _ _ _ ha)
  · exact fun as u v hi hskip => hi.trans (reader_keeps hskip)

theorem foldlM_resolves {f : β → α → Compiler β} (hf : ∀ b a s c t, f b a s = .ok c t → Resolves s t)
    {as : List α} {b c : β} (h : as.foldlM f b s = .ok c t) : Resolves s t := by
  induction as generalizing b s with
  | nil =>
    obtain ⟨-, rfl⟩ := pure_ok.1 h
    exact .refl _
  | cons a as ih =>
    simp only [List.foldlM_cons, bind_ok] at h
    obtain ⟨c, u, ha, h⟩ := h
    exact (hf _ _ _ _ _ ha).trans (ih h)

theorem mapM_resolves {f : α → Compiler β} (hf : ∀ a s b t, f a s = .ok b t → Resolves s t)
    {as : List α} {bs : List β} (h : as.mapM f s = .ok bs t) : Resolves s t := by
  induction as generalizing bs s with
  | nil =>
    obtain ⟨-, rfl⟩ := pure_ok.1 h
    exact .refl _
  | cons a as ih =>
    simp only [List.mapM_cons, bind_ok, pure_ok] at h
    obtain ⟨b, u, ha, bs', _, hbs, -, rfl⟩ := h
    exact (hf _ _ _ _ ha).trans (ih hbs)

end

/-! ## Expressions -/

/-- A query compiler that leaves the state as resolving does. -/
def ResolvesQueries (compile : QueryCompiler) : Prop :=
  ∀ body outer s plan t, compile body outer s = .ok plan t → Resolves s t

namespace Expr

variable {compile : QueryCompiler} {scope : Scope} {s t : CompilerState} {e e' : Expr}

theorem bindIn_resolves (hcompile : ResolvesQueries compile) {free : List FreeColumn}
    (h : bindIn compile scope e s = .ok (e', free) t) : Resolves s t :=
  bindIn_rel .refl .trans hcompile h

theorem resolveWith_resolves (hcompile : ResolvesQueries compile)
    (h : resolveWith compile scope e s = .ok e' t) : Resolves s t := by
  obtain ⟨b, hb, -⟩ := resolveWith_ok h
  exact bindIn_resolves hcompile hb

theorem resolveConditionWith_resolves (hcompile : ResolvesQueries compile)
    (h : resolveConditionWith compile scope e s = .ok e' t) : Resolves s t := by
  obtain ⟨b, hb, -⟩ := resolveConditionWith_ok h
  exact bindIn_resolves hcompile hb

end Expr

/-! ## Queries -/

namespace Range

variable {env : Environment} {s t : CompilerState} {r : Range}

theorem named_resolves {name : QualifiedName} {asName : Option String} {fragment : Fragment}
    (h : named env name asName fragment s = .ok r t) : Resolves s t := by
  obtain ⟨relation, -, -, rfl⟩ := named_ok h
  exact ⟨⟨rfl, rfl, Nat.le_succ _⟩, rfl⟩

theorem readRelation_keeps (h : readRelation env s = .ok r t) : Keeps s t := by
  simp only [readRelation, bind_ok] at h
  obtain ⟨_, u, hname, _, v, has, h⟩ := h
  exact ((reader_keeps hname).trans (reader_keeps has)).trans (named_resolves h).toKeeps

end Range

namespace Query

variable {env : Environment} {compile : QueryCompiler} {scope : Scope} {outer : List RangeGroup}
  {expected : Expectation} {s t : CompilerState} {plan : Plan}

theorem selectItem_resolves (hcompile : ResolvesQueries compile) {selection selection' : Selection}
    {item : Item} (h : selectItem compile scope expected selection item s = .ok selection' t) :
    Resolves s t := by
  cases item with
  | all fragment =>
    simp only [selectItem] at h
    split at h
    · exact (reject_ok.1 h).elim
    · obtain ⟨-, rfl⟩ := pure_ok.1 h
      exact .refl _
  | expression e asName =>
    simp only [selectItem, bind_ok, lift_except_ok, pure_ok, Prod.exists] at h
    obtain ⟨e', u, he, e'', type, _, ⟨htype, rfl⟩, -, rfl⟩ := h
    exact Expr.resolveWith_resolves hcompile he

theorem resolveCondition?_resolves (hcompile : ResolvesQueries compile)
    {condition condition' : Option Expr}
    (h : resolveCondition? compile scope condition s = .ok condition' t) : Resolves s t := by
  rcases resolveCondition?_ok h with ⟨-, -, rfl⟩ | ⟨_, _, -, -, he⟩
  · exact .refl _
  · exact Expr.resolveConditionWith_resolves hcompile he

theorem readItem_keeps {item : Item} (h : readItem s = .ok item t) : Keeps s t := by
  simp only [readItem, bind_ok] at h
  obtain ⟨star, u, hstar, h⟩ := h
  cases star with
  | some star =>
    obtain ⟨-, rfl⟩ := pure_ok.1 h
    exact reader_keeps hstar
  | none =>
    simp only [bind_ok, pure_ok] at h
    obtain ⟨e, v, he, asName, _, has, -, rfl⟩ := h
    exact ((reader_keeps hstar).trans (parser_keeps he)).trans (reader_keeps has)

theorem readCondition_keeps {condition : Option Expr} (h : readCondition s = .ok condition t) :
    Keeps s t := by
  simp only [readCondition, bind_ok] at h
  obtain ⟨found, u, hskip, h⟩ := h
  cases found with
  | true =>
    simp only [↓reduceIte, bind_ok, pure_ok] at h
    obtain ⟨e, _, he, -, rfl⟩ := h
    exact (reader_keeps hskip).trans (parser_keeps he)
  | false =>
    obtain ⟨-, rfl⟩ := pure_ok.1 h
    exact reader_keeps hskip

theorem fromRanges_keeps {found : Bool} {ranges : List Range}
    (h : fromRanges env found s = .ok ranges t) : Keeps s t := by
  unfold fromRanges at h
  split at h
  · exact commaSeparated_keeps (fun _ _ _ hr => Range.readRelation_keeps hr) h
  · obtain ⟨-, rfl⟩ := pure_ok.1 h
    exact .refl _

theorem compilesBody_keeps (hcompile : ResolvesQueries compile)
    (h : CompilesBody env compile outer expected s plan t) : Keeps s t := by
  cases h with
  | select h =>
    obtain ⟨_, s₁, _, s₂, _, s₃, _, s₄, _, s₅, _, s₆, _, hselect, hitems, hfound, hranges, -, hc, hs,
      hr, -⟩ := compileSelect_ok h
    have hitems : Keeps s₁ s₂ := commaSeparated_keeps (fun _ _ _ hi => readItem_keeps hi) hitems
    have hread : Keeps s s₅ := (reader_keeps hselect).trans <| hitems.trans <|
      (reader_keeps hfound).trans <| (fromRanges_keeps hranges).trans <| readCondition_keeps hc
    have hs := foldlM_resolves (fun _ _ _ _ _ hi => selectItem_resolves hcompile hi) hs
    exact hread.trans (hs.trans (resolveCondition?_resolves hcompile hr)).toKeeps
  | table h =>
    obtain ⟨_, s₁, _, _, s₂, _, htable, hname, hrange, -⟩ := compileTable_ok h
    exact ((reader_keeps htable).trans (reader_keeps hname)).trans
      (Range.named_resolves hrange).toKeeps
  | values h =>
    obtain ⟨_, s₁, _, s₂, _, _, _, _, hvalues, hrows, -, hadd, -, -⟩ := compileValues_ok h
    have hadd : Resolves s₂ t := by
      refine foldlM_resolves ?_ hadd
      rintro ⟨_, _⟩ row s ⟨_, _⟩ t h
      obtain ⟨-, row', hrow, -, -⟩ := addRow_ok h
      exact Expr.resolveWith_resolves hcompile hrow
    exact ((reader_keeps hvalues).trans (parser_keeps hrows)).trans hadd.toKeeps

theorem embedded_resolves {compile : List RangeGroup → Expectation → Compiler Plan}
    (hcompile : ∀ outer expected s plan t, compile outer expected s = .ok plan t → Keeps s t) :
    ResolvesQueries (embedded compile) := by
  intro body outer s plan t h
  obtain ⟨queries, s₁, c, hp, -, rfl⟩ := embedded_ok h
  have hk := hcompile _ _ _ _ _ hp
  exact ⟨⟨hk.outer, hk.calls, hk.ranges⟩, rfl⟩

theorem compileWithin_keeps : ∀ (bound : Nat) (outer : List RangeGroup) (expected : Expectation)
    (s : CompilerState) (plan : Plan) (t : CompilerState),
    compileWithin env bound outer expected s = .ok plan t → Keeps s t
  | 0, _, _, _, _, _, h => by
    obtain ⟨_, _, _, _, hb, -⟩ := compileWithin_ok h
    cases hb
  | bound + 1, outer, expected, s, plan, t, h => by
    obtain ⟨_, parens, s₁, s₂, hb, hopen, hbody, hclose⟩ := compileWithin_ok h
    cases hb
    have hsub := embedded_resolves (compileWithin_keeps bound)
    exact (reader_keeps hopen).trans <| (compilesBody_keeps hsub hbody).trans <| reader_keeps hclose

theorem compile_keeps {outer : List RangeGroup} {expected : Expectation}
    (h : Query.compile env outer expected s = .ok plan t) : Keeps s t := by
  simp only [Query.compile, bind_ok] at h
  obtain ⟨n, u, hn, h⟩ := h
  exact (reader_keeps hn).trans (compileWithin_keeps _ _ _ _ _ _ h)

theorem compileTokens_resolves (env : Environment) : ResolvesQueries (compileTokens env) :=
  embedded_resolves fun _ _ _ _ _ h => compile_keeps h

end Query

end DataChange
