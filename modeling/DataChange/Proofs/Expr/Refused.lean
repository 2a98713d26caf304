import DataChange.Proofs.Expr.Bound
import DataChange.Proofs.Expr.Grammar
import DataChange.Proofs.Runs

/-!
# Refusals

A statement that does not compile is refused with an error. The computations of the compiler can
fail in two other ways, with an ordinal that is out of range and with views that lead in a circle.
`Refuses x s` says that from the state `s` the computation `x` fails in neither of them. It is
carried through the steps of a computation by the lemmas given here (`refuses_bind`).

Reading an expression fails by refusal only. The one thing that could go wrong is a minus before the
smallest whole number, and no expression that is read is this number (`Plain.isNegatable`): digits
spell no number below zero, and what a minus makes of another number can be negated again. Binding
and typing fail by refusal if compiling the queries within does.
-/

namespace DataChange

/-! ## Steps -/

section

variable {σ α β : Type} {s : σ}

/-- A computation that fails from a state in no other way than by refusing the statement. -/
def Refuses (x : EStateM Failure σ α) (s : σ) : Prop :=
  ∀ f t, x s = .error f t → ∃ e, f = .rejected e

@[simp] theorem refuses_pure (a : α) : Refuses (pure a) s := by
  intro f t h
  cases h

@[simp] theorem refuses_get : Refuses (get : EStateM Failure σ σ) s := by
  intro f t h
  cases h

@[simp] theorem refuses_set (t : σ) : Refuses (set t : EStateM Failure σ PUnit) s := by
  intro f u h
  cases h

@[simp] theorem refuses_modify (g : σ → σ) : Refuses (modify g : EStateM Failure σ PUnit) s := by
  intro f t h
  cases h

@[simp] theorem refuses_reject (e : Error) : Refuses (reject e : EStateM Failure σ α) s := by
  intro f t h
  cases h
  exact ⟨e, rfl⟩

@[simp] theorem refuses_inRange {x : Option α} :
    Refuses (inRange x : EStateM Failure σ α) s ↔ x.isSome = true := by
  cases x with
  | some a => simp [inRange]
  | none =>
    simp only [Option.isSome_none, Bool.false_eq_true, iff_false]
    intro h
    obtain ⟨e, he⟩ := h .outOfRange s rfl
    cases he

/-- A computation refuses if its first step does, and what follows does wherever the step ends. -/
@[simp] theorem refuses_bind {x : EStateM Failure σ α} {f : α → EStateM Failure σ β} :
    Refuses (x >>= f) s ↔ Refuses x s ∧ ∀ a t, x s = .ok a t → Refuses (f a) t := by
  show (∀ e t, EStateM.bind x f s = .error e t → _) ↔ _
  unfold EStateM.bind Refuses
  cases x s with
  | ok a t => simp
  | error e t => simp

@[simp] theorem refuses_map {x : EStateM Failure σ α} {g : α → β} :
    Refuses (g <$> x) s ↔ Refuses x s := by
  rw [← bind_pure_comp, refuses_bind]
  simp

@[simp] theorem refuses_ite {c : Prop} [Decidable c] {x y : EStateM Failure σ α} :
    Refuses (if c then x else y) s ↔ (c → Refuses x s) ∧ (¬ c → Refuses y s) := by
  split <;> simp_all

/-! ## Reading inside larger computations -/

/-- A reader fails with an error, which is a refusal. -/
@[simp] theorem refuses_reader {x : Reader α} {s : Reading} : Refuses (liftM x : Parser α) s := by
  intro f t h
  cases hx : x s.cursor with
  | ok a c => cases (lift_reader_run hx).symm.trans h
  | error e c =>
    cases (lift_reader_fail hx).symm.trans h
    exact ⟨e, rfl⟩

@[simp] theorem refuses_parsing {x : Parser α} {s : CompilerState} :
    Refuses (liftM x : Compiler α) s ↔ Refuses x s.toReading := by
  unfold Refuses
  cases hx : x s.toReading with
  | ok a r => simp [lift_parser_run hx]
  | error e r => simp [lift_parser_fail hx]

@[simp] theorem refuses_reader_compiler {x : Reader α} {s : CompilerState} :
    Refuses (liftM x : Compiler α) s := by
  rw [lift_reader_eq, refuses_parsing]
  exact refuses_reader

@[simp] theorem refuses_except {x : Except Error α} {s : CompilerState} :
    Refuses (liftM x : Compiler α) s := by
  intro f t h
  cases x with
  | ok a => cases h
  | error e =>
    cases h
    exact ⟨e, rfl⟩

@[simp] theorem refuses_onTokens {x : Compiler α} {tokens : List Token} {s : CompilerState} :
    Refuses (Compiler.onTokens tokens x) s ↔ Refuses x { s with cursor := .ofTokens tokens } := by
  unfold Refuses Compiler.onTokens
  cases x { s with cursor := .ofTokens tokens } <;> simp

@[simp] theorem refuses_newRange {s : CompilerState} : Refuses Compiler.newRange s := by
  simp [Compiler.newRange]

@[simp] theorem refuses_outerGroups {s : CompilerState} : Refuses Compiler.outerGroups s := by
  simp [Compiler.outerGroups]

@[simp] theorem refuses_noteQuery {outer : List RangeGroup} {expected : Option (List SqlType)}
    {s : CompilerState} : Refuses (Compiler.noteQuery outer expected) s := by
  simp [Compiler.noteQuery]

/-! ## Lists -/

theorem refuses_mapM {f : α → EStateM Failure σ β} {as : List α}
    (h : ∀ a ∈ as, ∀ s, Refuses (f a) s) : Refuses (as.mapM f) s := by
  induction as generalizing s with
  | nil => simp
  | cons a as ih =>
    simp only [List.mapM_cons, refuses_bind, refuses_pure, implies_true, and_true]
    exact ⟨h a (by simp) s, fun _ _ _ => ih fun a ha => h a (by simp [ha])⟩

/-- A fold refuses if its steps do, which may rest on what these keep. -/
theorem refuses_foldlM {f : β → α → EStateM Failure σ β} {as : List α} (Inv : β → Prop)
    (hstep : ∀ a ∈ as, ∀ b s, Inv b → Refuses (f b a) s ∧ ∀ c t, f b a s = .ok c t → Inv c)
    {b : β} (hb : Inv b) : Refuses (as.foldlM f b) s := by
  induction as generalizing b s with
  | nil => simp
  | cons a as ih =>
    obtain ⟨hrefuses, hkeeps⟩ := hstep a (by simp) b s hb
    rw [List.foldlM_cons, refuses_bind]
    exact ⟨hrefuses, fun c t hc => ih (fun a ha => hstep a (by simp [ha])) (hkeeps c t hc)⟩

section

variable {τ : Type} [MonadLiftT Reader (EStateM Failure σ)]

/-- The steps of a list between commas refuse if every step does. -/
theorem refuses_commaSteps {step : τ → EStateM Failure σ τ} {a : τ}
    (hreader : ∀ {γ : Type} (x : Reader γ) (s : σ), Refuses (liftM x : EStateM Failure σ γ) s)
    (hstep : ∀ a s, Refuses (step a) s) : Refuses (commaSteps step a) s := by
  have hwithin : ∀ (bound : Nat) (a : τ) (s : σ), Refuses (commaStepsWithin step bound a) s := by
    intro bound
    induction bound with
    | zero => exact fun a s => refuses_pure a
    | succ bound ih =>
      intro a s
      simp only [commaStepsWithin, refuses_bind, refuses_ite, refuses_pure, implies_true, and_true]
      exact ⟨hreader _ s, fun _ t _ _ => ⟨hstep a t, fun b u _ => ih b u⟩⟩
  simp only [commaSteps, refuses_bind]
  exact ⟨hstep a s, fun b t _ => ⟨hreader _ t, fun n u _ => hwithin n b u⟩⟩

theorem refuses_commaSeparated {item : EStateM Failure σ α}
    (hreader : ∀ {γ : Type} (x : Reader γ) (s : σ), Refuses (liftM x : EStateM Failure σ γ) s)
    (hitem : ∀ s, Refuses item s) : Refuses (commaSeparated item) s :=
  refuses_commaSteps hreader fun items s => by simp [hitem s]

end

theorem refuses_list {item : Parser α} {s : Reading} (h : ∀ s, Refuses item s) :
    Refuses (commaSeparated item) s :=
  refuses_commaSeparated (fun _ _ => refuses_reader) h

theorem refuses_compiledList {item : Compiler α} {s : CompilerState} (h : ∀ s, Refuses item s) :
    Refuses (commaSeparated item) s :=
  refuses_commaSeparated (fun _ _ => refuses_reader_compiler) h

end

/-! ## Reading expressions -/

namespace Expr

section

variable {s : Reading}

@[simp] theorem nextMarker_refuses : Refuses nextMarker s := by
  simp [nextMarker]

theorem negated_refuses {e : Expr} (h : e.isNegatable = true) (fragment : Fragment) :
    Refuses (e.negated fragment) s := by
  unfold negated
  split
  · next n hk =>
    have hmin : n ≠ Int64.minValue := by
      simpa [Expr.isNegatable, hk, Value.isNegatable] using h
    simp [hmin]
  · exact refuses_pure _
  · exact refuses_pure _

theorem named_refuses {p : Parser (List Expr)} (hp : ∀ s, Refuses p s) (name : Token) :
    Refuses (named p name) s := by
  simp only [named, refuses_bind, refuses_reader, refuses_ite, true_and]
  intro found t _
  refine ⟨fun _ => ?_, fun _ => ?_⟩
  · simp [hp]
  · simp only [refuses_get, true_and]
    intro u v _
    split <;> simp

theorem rowItems_refuses {p : Parser (List Expr)} (hp : ∀ s, Refuses p s) :
    Refuses (rowItems p) s := by
  simp only [rowItems, refuses_bind, refuses_get, hp, true_and]
  intro _ _ _ items t _
  split <;> exact refuses_pure _

theorem inBrackets_refuses {p : Parser (List Expr)} (hp : ∀ s, Refuses p s) (fragment : Fragment) :
    Refuses (inBrackets p fragment) s := by
  simp [inBrackets, rowItems_refuses hp]

theorem primary_refuses {p : Parser (List Expr)} (hp : ∀ s, Refuses p s) : Refuses (primary p) s := by
  simp only [primary, refuses_bind, refuses_reader, true_and]
  intro x t _
  split
  · split <;> simp
  · split <;> simp
  all_goals simp [hp, inBrackets_refuses hp, named_refuses hp]

/-- What stands before a minus is read first, and can be negated. -/
theorem operand_refuses {parse : Level → Parser Expr} (hp : ∀ level s, Refuses (parse level) s)
    (hfollows : ∀ level, Follows (parse level)) : Refuses (operand parse) s := by
  simp only [operand, refuses_bind, refuses_reader, true_and]
  intro x t _
  split
  · simp [hp]
  · simp only [refuses_bind, refuses_reader, hp, true_and]
    intro _ u _ e v he
    exact negated_refuses (hfollows _ _ _ _ he).plain.isNegatable _
  · simp [hp]
  · exact primary_refuses fun s => refuses_list (hp .lowest)

theorem operation_refuses {parse : Level → Parser Expr} (hp : ∀ level s, Refuses (parse level) s)
    (left : Expr) : Refuses (operation parse left) s := by
  simp only [operation, refuses_bind, refuses_reader, refuses_ite, refuses_pure, true_and,
    implies_true, and_true]
  intro x t _ _
  split <;> simp [hp]

theorem extendWithin_refuses {parse : Level → Parser Expr}
    (hp : ∀ level s, Refuses (parse level) s) (level : Level) :
    ∀ (bound : Nat) (left : Expr) (s : Reading), Refuses (extendWithin parse level bound left) s
  | 0, left, _ => refuses_pure left
  | bound + 1, left, s => by
    simp only [extendWithin, refuses_bind, refuses_get, true_and]
    intro _ t _
    split
    · exact refuses_pure left
    · simp [operation_refuses hp, extendWithin_refuses hp level bound]

theorem parseWithin_refuses : ∀ (bound : Nat) (level : Level) (s : Reading),
    Refuses (parseWithin bound level) s
  | 0, _, _ => by simp [parseWithin]
  | bound + 1, level, s => by
    have hp := parseWithin_refuses bound
    simp [parseWithin, operand_refuses hp (parseWithin_reads bound), extendWithin_refuses hp]

@[simp] theorem parseAt_refuses (level : Level) : Refuses (parseAt level) s := by
  simp [parseAt, parseWithin_refuses]

@[simp] theorem parse_refuses : Refuses parse s :=
  parseAt_refuses _

@[simp] theorem parseList_refuses : Refuses parseList s :=
  refuses_list fun _ => parse_refuses

@[simp] theorem parseRow_refuses : Refuses parseRow s :=
  rowItems_refuses fun _ => parseList_refuses

end

/-! ## Binding and typing -/

variable {compile : QueryCompiler} {scope : Scope}

/-- A compiler of queries that fails by refusal only. -/
def RefusesQueries (compile : QueryCompiler) : Prop :=
  ∀ body outer s, Refuses (compile body outer) s

theorem compilePending_refuses (hcompile : RefusesQueries compile) {shape : QueryShape}
    {body : List Token} {fragment : Fragment} {s : CompilerState} :
    Refuses (compilePending compile scope shape body fragment) s := by
  simp [compilePending, hcompile _ _ _]

mutual

theorem bindIn_refuses (hcompile : RefusesQueries compile) :
    ∀ (e : Expr) (s : CompilerState), Refuses (bindIn compile scope e) s
  | ⟨.column _, _, _⟩, _ => by simp [bindIn]
  | ⟨.pending _ _, _, _⟩, _ => by simp [bindIn, compilePending_refuses hcompile]
  | ⟨.row items, _, _⟩, _ => by simp [bindIn, bindListIn_refuses hcompile items]
  | ⟨.values rows, _, _⟩, _ => by simp [bindIn, bindListIn_refuses hcompile rows]
  | ⟨.unary _ operand, _, _⟩, _ => by simp [bindIn, bindIn_refuses hcompile operand]
  | ⟨.binary _ left right, _, _⟩, _ => by
    simp [bindIn, bindIn_refuses hcompile left, bindIn_refuses hcompile right]
  | ⟨.isNull operand _, _, _⟩, _ => by simp [bindIn, bindIn_refuses hcompile operand]
  | ⟨.call _ _ arguments, _, _⟩, _ => by simp [bindIn, bindListIn_refuses hcompile arguments]
  | ⟨.constant _, _, _⟩, _ => by simp [bindIn]
  | ⟨.parameter _, _, _⟩, _ => by simp [bindIn]
  | ⟨.defaultMarker, _, _⟩, _ => by simp [bindIn]
  | ⟨.query _ _, _, _⟩, _ => by simp [bindIn]
  | ⟨.diagnostics _, _, _⟩, _ => by simp [bindIn]

theorem bindListIn_refuses (hcompile : RefusesQueries compile) :
    ∀ (es : List Expr) (s : CompilerState), Refuses (bindListIn compile scope es) s
  | [], _ => by simp [bindListIn]
  | e :: es, _ => by
    simp [bindListIn, bindIn_refuses hcompile e, bindListIn_refuses hcompile es]

end

theorem bindWith_refuses (hcompile : RefusesQueries compile) (e : Expr) {s : CompilerState} :
    Refuses (bindWith compile scope e) s := by
  simp [bindWith, bindIn_refuses hcompile]

theorem resolveWith_refuses (hcompile : RefusesQueries compile) (e : Expr) {s : CompilerState} :
    Refuses (resolveWith compile scope e) s := by
  simp [resolveWith, bindWith_refuses hcompile]

theorem resolveConditionWith_refuses (hcompile : RefusesQueries compile) (e : Expr)
    {s : CompilerState} : Refuses (resolveConditionWith compile scope e) s := by
  simp [resolveConditionWith, bindWith_refuses hcompile]

end Expr

end DataChange
