import DataChange.Proofs.Runs
import DataChange.Range.Reading

/-!
# Results in wider surroundings

A statement is compiled by some settings and within some scopes. With settings that accept more
(`Environment.Extends`) and further scopes around (`Widened`) a computation may succeed where it
failed before. What it gave before persists: `Persists` says so of two computations, step by step,
and `PersistsIf` says it of the results that a condition admits.
-/

namespace DataChange

/-! ## Surroundings -/

/-- Settings that accept whatever others accept. -/
structure Config.Extends (c c' : Config) : Prop where
  defaultSchema : c'.defaultSchema = c.defaultSchema
  mysql : c.dialect.mysql = true → c'.dialect.mysql = true
  oracle : c.dialect.oracle = true → c'.dialect.oracle = true
  strictCalls : c'.strictCalls = true → c.strictCalls = true

/-- The same catalog under settings that accept more. -/
structure Environment.Extends (env env' : Environment) : Prop where
  catalog : env'.catalog = env.catalog
  config : env.config.Extends env'.config

theorem Config.Extends.refl (c : Config) : c.Extends c :=
  ⟨rfl, id, id, id⟩

theorem Environment.Extends.refl (env : Environment) : env.Extends env :=
  ⟨rfl, .refl _⟩

theorem Environment.Extends.relation {env env' : Environment} (h : env.Extends env')
    (name : QualifiedName) (fragment : Fragment) :
    env'.relation name fragment = env.relation name fragment := by
  unfold Environment.relation
  rw [h.catalog, h.config.defaultSchema]

/-- States of one compilation within some scopes and within more of them around; the queries noted
name their scopes and may differ. -/
structure Widened (more : List RangeGroup) (s t : CompilerState) : Prop where
  reading : t.toReading = s.toReading
  outer : t.outer = more ++ s.outer
  calls : t.calls = s.calls
  nextRange : t.nextRange = s.nextRange

namespace Widened

variable {more : List RangeGroup} {s t : CompilerState}

theorem cursor (h : Widened more s t) : t.cursor = s.cursor :=
  congrArg Reading.cursor h.reading

theorem withReading (h : Widened more s t) (r : Reading) :
    Widened more { s with toReading := r } { t with toReading := r } :=
  ⟨rfl, h.outer, h.calls, h.nextRange⟩

theorem withCursor (h : Widened more s t) (c : Cursor) :
    Widened more { s with cursor := c } { t with cursor := c } := by
  have hparameters : t.parameters = s.parameters := congrArg Reading.parameters h.reading
  exact ⟨by simp only [hparameters], h.outer, h.calls, h.nextRange⟩

/-- The state within more scopes. -/
theorem of_outer (more : List RangeGroup) (s : CompilerState) :
    Widened more s { s with outer := more ++ s.outer } :=
  ⟨rfl, rfl, rfl, rfl⟩

end Widened

/-! ## Steps -/

/-- What `x` gives, if `P` admits it, `y` gives as well from a related state. -/
def PersistsIf {ε σ α : Type} (P : α → σ → Prop) (R : σ → σ → Prop) (x y : EStateM ε σ α) : Prop :=
  ∀ ⦃s s' : σ⦄ ⦃a : α⦄ ⦃t : σ⦄, R s s' → x s = .ok a t → P a t → ∃ t', y s' = .ok a t' ∧ R t t'

/-- What `x` gives, `y` gives as well from a related state. -/
abbrev Persists {ε σ α : Type} (R : σ → σ → Prop) (x y : EStateM ε σ α) : Prop :=
  PersistsIf (fun _ _ => True) R x y

section

variable {ε σ α β : Type} {P : α → σ → Prop} {Q : β → σ → Prop} {R : σ → σ → Prop}
  {x y : EStateM ε σ α} {f g : α → EStateM ε σ β}

namespace PersistsIf

/-- A result that persists does so whatever is asked of it. -/
theorem when (h : PersistsIf (fun _ _ => True) R x y) (P : α → σ → Prop) : PersistsIf P R x y :=
  fun _ _ _ _ hs hx _ => h hs hx trivial

/-- A sequence whose first result is one that persists whenever that of the whole is. -/
theorem bindIf (hx : PersistsIf P R x y) (hf : ∀ a, PersistsIf Q R (f a) (g a))
    (hP : ∀ a s b t, f a s = .ok b t → Q b t → P a s) : PersistsIf Q R (x >>= f) (y >>= g) := by
  intro s s' b u hs h hb
  obtain ⟨a, t, ha, hfa⟩ := bind_ok.1 h
  obtain ⟨t', ha', ht⟩ := hx hs ha (hP a t b u hfa hb)
  obtain ⟨u', hb', hu⟩ := hf a ht hfa hb
  exact ⟨u', bind_ok.2 ⟨a, t', ha', hb'⟩, hu⟩

theorem bind (hx : PersistsIf (fun _ _ => True) R x y) (hf : ∀ a, PersistsIf Q R (f a) (g a)) :
    PersistsIf Q R (x >>= f) (y >>= g) :=
  hx.bindIf hf fun _ _ _ _ _ _ => trivial

theorem pure (a : α) : PersistsIf P R (Pure.pure a : EStateM ε σ α) (Pure.pure a) := by
  intro s s' b t hs h _
  obtain ⟨rfl, rfl⟩ := pure_ok.1 h
  exact ⟨s', rfl, hs⟩

/-- A failure gives nothing that would have to persist. -/
theorem throw (e : ε) : PersistsIf P R (MonadExcept.throw e : EStateM ε σ α) y :=
  fun _ _ _ _ _ h _ => (throw_ok.1 h).elim

theorem reject {y : EStateM Failure σ α} (e : Error) :
    PersistsIf P R (DataChange.reject e : EStateM Failure σ α) y :=
  throw _

theorem inRange (a : Option α) :
    PersistsIf P R (DataChange.inRange a : EStateM Failure σ α) (DataChange.inRange a) := by
  cases a with
  | none => exact throw _
  | some a => exact pure a

theorem map (hx : Persists R x y) (k : α → β) : Persists R (k <$> x) (k <$> y) := by
  simp only [← bind_pure_comp]
  exact hx.bind fun a => pure _

theorem ite {c : Prop} [Decidable c] {x' y' : EStateM ε σ α} (hx : PersistsIf P R x y)
    (hx' : PersistsIf P R x' y') : PersistsIf P R (if c then x else x') (if c then y else y') := by
  split
  · exact hx
  · exact hx'

/-- From the same state the same computation gives the same. -/
theorem same (x : EStateM ε σ α) : Persists Eq x x := by
  rintro s _ a t rfl h -
  exact ⟨t, h, rfl⟩

/-! ## Lists -/

theorem mapM {f g : α → EStateM ε σ β} (h : ∀ a, Persists R (f a) (g a)) (as : List α) :
    Persists R (as.mapM f) (as.mapM g) := by
  induction as with
  | nil => exact pure _
  | cons a as ih =>
    rw [List.mapM_cons, List.mapM_cons]
    exact (h a).bind fun b => ih.bind fun bs => pure _

theorem foldlM {f g : β → α → EStateM ε σ β} (h : ∀ b a, Persists R (f b a) (g b a)) (as : List α)
    (b : β) : Persists R (as.foldlM f b) (as.foldlM g b) := by
  induction as generalizing b with
  | nil => exact pure b
  | cons a as ih =>
    rw [List.foldlM_cons, List.foldlM_cons]
    exact (h b a).bind ih

section

variable {τ : Type} [MonadLiftT Reader (EStateM ε σ)] {step step' : τ → EStateM ε σ τ}

theorem commaSteps (hread : ∀ {γ : Type} (r : Reader γ),
      Persists R (liftM r : EStateM ε σ γ) (liftM r))
    (h : ∀ a, Persists R (step a) (step' a)) (a : τ) :
    Persists R (commaSteps step a) (commaSteps step' a) := by
  have hwithin : ∀ (bound : Nat) (a : τ),
      Persists R (commaStepsWithin step bound a) (commaStepsWithin step' bound a) := by
    intro bound
    induction bound with
    | zero => exact fun a => pure a
    | succ bound ih => exact fun a => (hread _).bind fun more => ite ((h a).bind ih) (pure _)
  exact (h a).bind fun a => (hread _).bind fun bound => hwithin bound a

end

end PersistsIf

end

/-! ## Reading -/

namespace PersistsIf

variable {α β : Type} {more : List RangeGroup}

theorem lift_reader {P : α → Cursor → Prop} {x y : Reader α} (h : PersistsIf P Eq x y) :
    PersistsIf (fun a s => P a s.cursor) Eq (liftM x : Parser α) (liftM y) := by
  rintro s _ a t rfl hx ha
  obtain ⟨c, hc, rfl⟩ := lift_reader_ok.1 hx
  obtain ⟨_, hc', rfl⟩ := h rfl hc ha
  exact ⟨_, lift_reader_run hc', rfl⟩

theorem lift_parsing {P : α → Reading → Prop} {x y : Parser α} (h : PersistsIf P Eq x y) :
    PersistsIf (fun a s => P a s.toReading) (Widened more) (liftM x : Compiler α) (liftM y) := by
  intro s s' a t hs hx ha
  obtain ⟨r, hr, rfl⟩ := lift_parser_ok.1 hx
  obtain ⟨_, hr', rfl⟩ := h rfl hr ha
  rw [← hs.reading] at hr'
  exact ⟨_, lift_parser_run hr', hs.withReading r⟩

/-- Tokens read by the compiler by different settings. -/
theorem lift_tokens {P : α → Cursor → Prop} {x y : Reader α} (h : PersistsIf P Eq x y) :
    PersistsIf (fun a s => P a s.cursor) (Widened more) (liftM x : Compiler α) (liftM y) := by
  rw [lift_reader_eq, lift_reader_eq]
  exact lift_parsing (lift_reader h)

theorem parser (x : Parser α) : Persists (Widened more) (liftM x : Compiler α) (liftM x) :=
  lift_parsing (same x)

theorem reader (x : Reader α) : Persists (Widened more) (liftM x : Compiler α) (liftM x) :=
  lift_tokens (same x)

theorem commaSeparated {x y : Compiler α} (h : Persists (Widened more) x y) :
    Persists (Widened more) (DataChange.commaSeparated x) (DataChange.commaSeparated y) :=
  commaSteps reader (fun _ => h.bind fun _ => pure _) []

end PersistsIf

/-! ## Computations of the compiler -/

namespace PersistsIf

variable {α β : Type} {more : List RangeGroup} {Q : α → CompilerState → Prop}

/-- A computation that is the same by all settings and gives the same from all states. -/
theorem get {f g : CompilerState → Compiler α}
    (h : ∀ s s', Widened more s s' → PersistsIf Q (Widened more) (f s) (g s')) :
    PersistsIf Q (Widened more) (MonadState.get >>= f) (MonadState.get >>= g) := by
  intro s s' a t hs hx ha
  obtain ⟨_, _, hget, hx⟩ := bind_ok.1 hx
  obtain ⟨rfl, rfl⟩ := get_ok.1 hget
  obtain ⟨t', ht', hrest⟩ := h _ _ hs hs hx ha
  exact ⟨t', bind_ok.2 ⟨s', s', get_ok.2 ⟨rfl, rfl⟩, ht'⟩, hrest⟩

theorem except (x : Except Error α) : Persists (Widened more) (liftM x : Compiler α) (liftM x) := by
  intro s s' a t hs h _
  obtain ⟨rfl, rfl⟩ := lift_except_ok.1 h
  exact ⟨s', lift_except_ok.2 ⟨rfl, rfl⟩, hs⟩

theorem onTokens {x y : Compiler α} (tokens : List Token) (h : Persists (Widened more) x y) :
    Persists (Widened more) (Compiler.onTokens tokens x) (Compiler.onTokens tokens y) := by
  intro s s' a t hs hx _
  obtain ⟨u, hu, rfl⟩ := onTokens_ok.1 hx
  obtain ⟨u', hu', hend⟩ := h (hs.withCursor _) hu trivial
  refine ⟨_, onTokens_ok.2 ⟨u', hu', rfl⟩, ?_⟩
  rw [hs.cursor]
  exact hend.withCursor _

theorem newRange : Persists (Widened more) Compiler.newRange Compiler.newRange := by
  intro s s' id t hs h _
  obtain ⟨rfl, rfl⟩ := newRange_ok.1 h
  exact ⟨_, newRange_ok.2 ⟨hs.nextRange, rfl⟩, hs.reading, hs.outer, hs.calls,
    congrArg (· + 1) hs.nextRange⟩

theorem noteQuery {outer outer' : List RangeGroup} {expected : Option (List SqlType)} :
    Persists (Widened more) (Compiler.noteQuery outer expected)
      (Compiler.noteQuery outer' expected) := by
  intro s s' _ t hs h _
  obtain rfl := modify_ok.1 h
  exact ⟨_, modify_ok.2 rfl, hs.reading, hs.outer, hs.calls, hs.nextRange⟩

/-- What is compiled within the scopes of the state. -/
theorem outerGroups {f g : List RangeGroup → Compiler α}
    (h : ∀ outer, PersistsIf Q (Widened more) (f outer) (g (more ++ outer))) :
    PersistsIf Q (Widened more) (Compiler.outerGroups >>= f) (Compiler.outerGroups >>= g) := by
  intro s s' a t hs hx ha
  obtain ⟨_, _, houter, hx⟩ := bind_ok.1 hx
  obtain ⟨rfl, rfl⟩ := outerGroups_ok.1 houter
  obtain ⟨t', ht', hrest⟩ := h _ hs hx ha
  exact ⟨t', bind_ok.2 ⟨_, s', outerGroups_ok.2 ⟨hs.outer, rfl⟩, ht'⟩, hrest⟩

end PersistsIf

end DataChange
