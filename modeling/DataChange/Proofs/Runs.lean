import DataChange.Compiler.Monad

/-!
# Computations that succeed

`x s = .ok a t` says that `x` leads from the state `s` to the result `a` and the state `t`. The
lemmas here open such an equation step by step: `bind_ok` at a sequence, `lift_…_ok` where tokens
are read inside a larger computation, and `commaSteps_induct` for lists between commas, whose loop
keeps whatever one step keeps.
-/

namespace DataChange

variable {ε σ α β : Type}

/-! ## Steps -/

theorem bind_ok {x : EStateM ε σ α} {f : α → EStateM ε σ β} {s t : σ} {b : β} :
    (x >>= f) s = .ok b t ↔ ∃ a u, x s = .ok a u ∧ f a u = .ok b t := by
  show EStateM.bind x f s = _ ↔ _
  unfold EStateM.bind
  cases h : x s with
  | ok a u =>
    refine ⟨fun hf => ⟨a, u, rfl, hf⟩, ?_⟩
    rintro ⟨a', u', hx, hf⟩
    cases hx
    exact hf
  | error e u => simp

theorem bind_run {x : EStateM ε σ α} {f : α → EStateM ε σ β} {s t : σ} {a : α}
    (h : x s = .ok a t) : (x >>= f) s = f a t := by
  show EStateM.bind x f s = _
  simp only [EStateM.bind, h]

theorem map_ok {x : EStateM ε σ α} {f : α → β} {s t : σ} {b : β} :
    (f <$> x) s = .ok b t ↔ ∃ a, x s = .ok a t ∧ f a = b := by
  show EStateM.map f x s = _ ↔ _
  unfold EStateM.map
  cases h : x s <;> simp
  grind

theorem pure_ok {a b : α} {s t : σ} :
    (pure a : EStateM ε σ α) s = .ok b t ↔ a = b ∧ s = t := by
  show EStateM.Result.ok a s = _ ↔ _
  simp

theorem get_ok {s t a : σ} : (get : EStateM ε σ σ) s = .ok a t ↔ s = a ∧ s = t := by
  show EStateM.Result.ok s s = _ ↔ _
  simp

theorem set_ok {s t u : σ} {a : PUnit} :
    (set u : EStateM ε σ PUnit) s = .ok a t ↔ u = t := by
  show EStateM.Result.ok PUnit.unit u = _ ↔ _
  simp

theorem modify_ok {f : σ → σ} {s t : σ} {a : PUnit} :
    (modify f : EStateM ε σ PUnit) s = .ok a t ↔ f s = t := by
  show EStateM.Result.ok PUnit.unit (f s) = _ ↔ _
  simp

theorem throw_ok {e : ε} {s t : σ} {a : α} :
    (throw e : EStateM ε σ α) s = .ok a t ↔ False := by
  show EStateM.Result.error e s = _ ↔ _
  simp

theorem reject_ok {e : Error} {s t : σ} {a : α} :
    (reject e : EStateM Failure σ α) s = .ok a t ↔ False :=
  throw_ok

theorem inRange_ok {x : Option α} {s t : σ} {a : α} :
    (inRange x : EStateM Failure σ α) s = .ok a t ↔ x = some a ∧ s = t := by
  cases x with
  | none => simpa [inRange] using throw_ok (ε := Failure)
  | some b => simpa [inRange] using pure_ok (ε := Failure)

/-- A run with its computation named, so that a match in it can be split. -/
theorem run_eq {x : EStateM ε σ α} {s : σ} {r : EStateM.Result ε σ α} (h : x s = r) :
    ∃ m, x = m ∧ m s = r :=
  ⟨x, rfl, h⟩

/-! ## Reading inside larger computations -/

theorem lift_reader_run {x : Reader α} {s : Reading} {a : α} {c : Cursor}
    (h : x s.cursor = .ok a c) : (liftM x : Parser α) s = .ok a { s with cursor := c } := by
  simp [liftM, monadLift, MonadLift.monadLift, h]

theorem lift_reader_fail {x : Reader α} {s : Reading} {e : Error} {c : Cursor}
    (h : x s.cursor = .error e c) :
    (liftM x : Parser α) s = .error (.rejected e) { s with cursor := c } := by
  simp [liftM, monadLift, MonadLift.monadLift, h]

theorem lift_reader_ok {x : Reader α} {s t : Reading} {a : α} :
    (liftM x : Parser α) s = .ok a t ↔ ∃ c, x s.cursor = .ok a c ∧ { s with cursor := c } = t := by
  cases h : x s.cursor with
  | error e u => simp [lift_reader_fail h]
  | ok b u =>
    rw [lift_reader_run h]
    constructor
    · rintro ⟨⟩
      exact ⟨u, rfl, rfl⟩
    · rintro ⟨_, ⟨⟩, rfl⟩
      rfl

theorem lift_parser_run {x : Parser α} {s : CompilerState} {a : α} {r : Reading}
    (h : x s.toReading = .ok a r) : (liftM x : Compiler α) s = .ok a { s with toReading := r } := by
  simp [liftM, monadLift, MonadLift.monadLift, h]

theorem lift_parser_fail {x : Parser α} {s : CompilerState} {e : Failure} {r : Reading}
    (h : x s.toReading = .error e r) :
    (liftM x : Compiler α) s = .error e { s with toReading := r } := by
  simp [liftM, monadLift, MonadLift.monadLift, h]

theorem lift_parser_ok {x : Parser α} {s t : CompilerState} {a : α} :
    (liftM x : Compiler α) s = .ok a t ↔
      ∃ r, x s.toReading = .ok a r ∧ { s with toReading := r } = t := by
  cases h : x s.toReading with
  | error e u => simp [lift_parser_fail h]
  | ok b u =>
    rw [lift_parser_run h]
    constructor
    · rintro ⟨⟩
      exact ⟨u, rfl, rfl⟩
    · rintro ⟨_, ⟨⟩, rfl⟩
      rfl

/-- Tokens read by the compiler are read by its parser. -/
theorem lift_reader_eq (x : Reader α) :
    (liftM x : Compiler α) = (liftM (liftM x : Parser α) : Compiler α) := rfl

theorem lift_reader_compiler_ok {x : Reader α} {s t : CompilerState} {a : α} :
    (liftM x : Compiler α) s = .ok a t ↔
      ∃ c, x s.cursor = .ok a c ∧ { s with cursor := c } = t := by
  rw [lift_reader_eq, lift_parser_ok]
  simp only [lift_reader_ok]
  constructor
  · rintro ⟨_, ⟨c, hc, rfl⟩, rfl⟩
    exact ⟨c, hc, rfl⟩
  · rintro ⟨c, hc, rfl⟩
    exact ⟨_, ⟨c, hc, rfl⟩, rfl⟩

theorem lift_except_ok {x : Except Error α} {s t : CompilerState} {a : α} :
    (liftM x : Compiler α) s = .ok a t ↔ x = .ok a ∧ s = t := by
  cases x <;> simp [liftM, monadLift, MonadLift.monadLift]

theorem onTokens_ok {x : Compiler α} {tokens : List Token} {s t : CompilerState} {a : α} :
    Compiler.onTokens tokens x s = .ok a t ↔
      ∃ u, x { s with cursor := .ofTokens tokens } = .ok a u ∧ { u with cursor := s.cursor } = t := by
  unfold Compiler.onTokens
  cases x { s with cursor := .ofTokens tokens } with
  | error e u => simp
  | ok b u =>
    constructor
    · rintro ⟨⟩
      exact ⟨u, rfl, rfl⟩
    · rintro ⟨_, ⟨⟩, rfl⟩
      rfl

theorem newRange_ok {s t : CompilerState} {id : Nat} :
    Compiler.newRange s = .ok id t ↔
      s.nextRange = id ∧ { s with nextRange := s.nextRange + 1 } = t := by
  simp only [Compiler.newRange, bind_ok, get_ok, set_ok, pure_ok]
  grind

theorem outerGroups_ok {s t : CompilerState} {groups : List RangeGroup} :
    Compiler.outerGroups s = .ok groups t ↔ s.outer = groups ∧ s = t := by
  simp only [Compiler.outerGroups, bind_ok, get_ok, pure_ok]
  grind

/-! ## Lists -/

/-- What every step of a fold keeps. -/
theorem foldlM_induct {f : β → α → EStateM ε σ β} {as : List α} (Inv : β → Prop)
    (hstep : ∀ a ∈ as, ∀ b c s t, Inv b → f b a s = .ok c t → Inv c) {b c : β} {s t : σ}
    (h : as.foldlM f b s = .ok c t) (hb : Inv b) : Inv c := by
  induction as generalizing b s with
  | nil =>
    obtain ⟨rfl, -⟩ := pure_ok.1 h
    exact hb
  | cons a as ih =>
    simp only [List.foldlM_cons, bind_ok] at h
    obtain ⟨mid, u, ha, h⟩ := h
    exact ih (fun a ha => hstep a (by simp [ha])) h (hstep a (by simp) b mid s u hb ha)

section

variable {τ : Type} [MonadLiftT Reader (EStateM ε σ)]

/-- What the loop of a list keeps: each further step after a comma, and the look at what follows
the last one. -/
theorem commaStepsWithin_induct {step : τ → EStateM ε σ τ} {Inv : τ → σ → Prop}
    (hstep : ∀ a s u b v, Inv a s →
      (liftM (Reader.skipSymbol .comma) : EStateM ε σ Bool) s = .ok true u →
      step a u = .ok b v → Inv b v)
    (hstop : ∀ a s u, Inv a s →
      (liftM (Reader.skipSymbol .comma) : EStateM ε σ Bool) s = .ok false u → Inv a u) :
    ∀ (bound : Nat) {a b : τ} {s t : σ}, Inv a s →
      commaStepsWithin step bound a s = .ok b t → Inv b t
  | 0, a, b, s, t, hi, h => by
    obtain ⟨rfl, rfl⟩ := pure_ok.1 h
    exact hi
  | bound + 1, a, b, s, t, hi, h => by
    simp only [commaStepsWithin, bind_ok] at h
    obtain ⟨more, u, hskip, h⟩ := h
    cases more with
    | true =>
      simp only [↓reduceIte, bind_ok] at h
      obtain ⟨a', v, ha, h⟩ := h
      exact commaStepsWithin_induct hstep hstop bound (hstep a s u a' v hi hskip ha) h
    | false =>
      obtain ⟨rfl, rfl⟩ := pure_ok.1 h
      exact hstop a s u hi hskip

/-- What a list between commas keeps: the first step brings it about, each further one keeps it. -/
theorem commaSteps_induct {step : τ → EStateM ε σ τ} (Inv : τ → σ → Prop) {a b : τ} {s t : σ}
    (h : commaSteps step a s = .ok b t)
    (hfirst : ∀ a' u, step a s = .ok a' u → Inv a' u)
    (hlook : ∀ a s n u, Inv a s → (liftM remaining : EStateM ε σ Nat) s = .ok n u → Inv a u)
    (hstep : ∀ a s u b v, Inv a s →
      (liftM (Reader.skipSymbol .comma) : EStateM ε σ Bool) s = .ok true u →
      step a u = .ok b v → Inv b v)
    (hstop : ∀ a s u, Inv a s →
      (liftM (Reader.skipSymbol .comma) : EStateM ε σ Bool) s = .ok false u → Inv a u) :
    Inv b t := by
  simp only [commaSteps, bind_ok] at h
  obtain ⟨a', u, hs, n, v, hr, h⟩ := h
  exact commaStepsWithin_induct hstep hstop n (hlook a' u n v (hfirst a' u hs) hr) h

/-- Every item between commas is one that an item's computation gives. -/
theorem forall_commaSeparated {item : EStateM ε σ α} {P : α → Prop}
    (hitem : ∀ s a t, item s = .ok a t → P a) {as : List α} {s t : σ}
    (h : commaSeparated item s = .ok as t) : ∀ a ∈ as, P a := by
  refine commaSteps_induct (fun as _ => ∀ a ∈ as, P a) h ?_ (fun _ _ _ _ hi _ => hi) ?_
    (fun _ _ _ hi _ => hi)
  · intro as u h
    simp only [bind_ok, pure_ok, List.nil_append] at h
    obtain ⟨a, _, ha, rfl, rfl⟩ := h
    simpa using hitem _ _ _ ha
  · intro as u v bs w hi _ h b hb
    simp only [bind_ok, pure_ok] at h
    obtain ⟨a, _, ha, rfl, rfl⟩ := h
    rcases List.mem_append.1 hb with hb | hb
    · exact hi b hb
    · exact List.mem_singleton.1 hb ▸ hitem _ _ _ ha

end

end DataChange
