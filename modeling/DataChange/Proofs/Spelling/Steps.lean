import DataChange.Proofs.Runs
import DataChange.Proofs.Spelling.Respelled

/-!
# Computations that go along

Two computations go along if from paired states both succeed, with related results and in paired
states again, or both fail, with paired failures (`Tracks`). Here the states are at two spellings of
the same tokens, and failures are paired if their fragments are spellings of one another.
-/

namespace DataChange

/-! ## Computations -/

/-- How the states and the failures of two computations are paired. -/
structure Tracking (ε σ : Type) where
  Paired : σ → σ → Prop
  Fail : ε → ε → Prop

/-- How two computations end: with related results in paired states, or with paired failures. -/
inductive Tracking.Ends {ε σ α β : Type} (K : Tracking ε σ) (R : α → β → Prop) :
    EStateM.Result ε σ α → EStateM.Result ε σ β → Prop
  | ok {a : α} {b : β} {s s' : σ} (h : R a b) (hs : K.Paired s s') : Ends K R (.ok a s) (.ok b s')
  | error {e e' : ε} {s s' : σ} (h : K.Fail e e') : Ends K R (.error e s) (.error e' s')

/-- Two computations go along from paired states. -/
def Tracks {ε σ α β : Type} (K : Tracking ε σ) (R : α → β → Prop) (x : EStateM ε σ α)
    (y : EStateM ε σ β) : Prop :=
  ∀ ⦃s s' : σ⦄, K.Paired s s' → K.Ends R (x s) (y s')

/-- Two computations go along from two states. -/
def TracksAt {ε σ α β : Type} (K : Tracking ε σ) (R : α → β → Prop) (s s' : σ) (x : EStateM ε σ α)
    (y : EStateM ε σ β) : Prop :=
  K.Ends R (x s) (y s')

section

variable {ε σ α β γ δ : Type} {K : Tracking ε σ} {R : α → β → Prop} {S : γ → δ → Prop}
  {x : EStateM ε σ α} {y : EStateM ε σ β}

/-- A sequence, with what is known of the states in between. -/
theorem Tracking.Ends.bind {f : α → EStateM ε σ γ} {g : β → EStateM ε σ δ} {s s' : σ}
    (hx : K.Ends R (x s) (y s'))
    (hf : ∀ a b t t', x s = .ok a t → R a b → K.Paired t t' → K.Ends S (f a t) (g b t')) :
    K.Ends S ((x >>= f) s) ((y >>= g) s') := by
  show K.Ends S (EStateM.bind x f s) (EStateM.bind y g s')
  unfold EStateM.bind
  generalize hr : x s = r at hx
  generalize y s' = r' at hx
  cases hx with
  | ok h hs => exact hf _ _ _ _ hr h hs
  | error h => exact .error h

/-- What both do depends on where they are. -/
theorem Tracking.Ends.get {f : σ → EStateM ε σ γ} {g : σ → EStateM ε σ δ} {s s' : σ}
    (h : TracksAt K S s s' (f s) (g s')) :
    K.Ends S ((MonadState.get >>= f) s) ((MonadState.get >>= g) s') :=
  h

theorem Tracking.Ends.imp {K' : Tracking ε σ} {R' : α → β → Prop} {r : EStateM.Result ε σ α}
    {r' : EStateM.Result ε σ β} (h : K.Ends R r r') (hs : ∀ s s', K.Paired s s' → K'.Paired s s')
    (he : ∀ e e', K.Fail e e' → K'.Fail e e') (hR : ∀ a b, R a b → R' a b) :
    K'.Ends R' r r' := by
  cases h with
  | ok h hstate => exact .ok (hR _ _ h) (hs _ _ hstate)
  | error h => exact .error (he _ _ h)

namespace Tracks

theorem pure {a : α} {b : β} (h : R a b) :
    Tracks K R (Pure.pure a : EStateM ε σ α) (Pure.pure b : EStateM ε σ β) :=
  fun _ _ hs => .ok h hs

theorem bind {f : α → EStateM ε σ γ} {g : β → EStateM ε σ δ} (hx : Tracks K R x y)
    (hf : ∀ a b, R a b → Tracks K S (f a) (g b)) : Tracks K S (x >>= f) (y >>= g) :=
  fun _ _ hs => (hx hs).bind fun _ _ _ _ _ hab ht => hf _ _ hab ht

theorem map {f : α → γ} {g : β → δ} (hx : Tracks K R x y) (hf : ∀ a b, R a b → S (f a) (g b)) :
    Tracks K S (f <$> x) (g <$> y) := by
  simp only [← bind_pure_comp]
  exact hx.bind fun _ _ hab => pure (hf _ _ hab)

theorem run (h : Tracks K R x y) {s s' : σ} (hs : K.Paired s s') : K.Ends R (x s) (y s') :=
  h hs

theorem imp {R' : α → β → Prop} (h : Tracks K R x y) (hR : ∀ a b, R a b → R' a b) :
    Tracks K R' x y :=
  fun _ _ hs => (h hs).imp (fun _ _ => id) (fun _ _ => id) hR

theorem throw {e e' : ε} (h : K.Fail e e') :
    Tracks K R (MonadExcept.throw e : EStateM ε σ α) (MonadExcept.throw e' : EStateM ε σ β) :=
  fun _ _ _ => .error h

theorem ite {c c' : Prop} [Decidable c] [Decidable c'] (hc : c' ↔ c) {x₂ : EStateM ε σ α}
    {y₂ : EStateM ε σ β} (h : Tracks K R x y) (h₂ : Tracks K R x₂ y₂) :
    Tracks K R (if c then x else x₂) (if c' then y else y₂) := by
  by_cases h' : c
  · rw [if_pos h', if_pos (hc.2 h')]
    exact h
  · rw [if_neg h', if_neg (mt hc.1 h')]
    exact h₂

/-- A sequence after the same result. -/
theorem bindSame {x y : EStateM ε σ α} {f : α → EStateM ε σ γ} {g : α → EStateM ε σ δ}
    (hx : Tracks K (· = ·) x y) (hf : ∀ a, Tracks K S (f a) (g a)) :
    Tracks K S (x >>= f) (y >>= g) := by
  refine hx.bind ?_
  rintro a _ rfl
  exact hf a

theorem whether {x y : EStateM ε σ Bool} {f f₂ : EStateM ε σ γ} {g g₂ : EStateM ε σ δ}
    (hx : Tracks K (· = ·) x y) (h : Tracks K S f g) (h₂ : Tracks K S f₂ g₂) :
    Tracks K S (x >>= fun found => if found = true then f else f₂)
      (y >>= fun found => if found = true then g else g₂) :=
  hx.bindSame fun _ => ite Iff.rfl h h₂

/-- What both do depends on where they are. -/
theorem get {f : σ → EStateM ε σ γ} {g : σ → EStateM ε σ δ}
    (h : ∀ s s', K.Paired s s' → Tracks K S (f s) (g s')) :
    Tracks K S (MonadState.get >>= f) (MonadState.get >>= g) :=
  fun s s' hs => h s s' hs hs

theorem set {t t' : σ} (h : K.Paired t t') :
    Tracks K (fun _ _ => True) (MonadStateOf.set t : EStateM ε σ PUnit)
      (MonadStateOf.set t' : EStateM ε σ PUnit) :=
  fun _ _ _ => .ok trivial h

theorem modified {f g : σ → σ} (h : ∀ s s', K.Paired s s' → K.Paired (f s) (g s')) :
    Tracks K (fun _ _ => True) (modify f : EStateM ε σ PUnit) (modify g) :=
  fun _ _ hs => .ok trivial (h _ _ hs)

theorem mapM {f : α → EStateM ε σ γ} {g : β → EStateM ε σ δ} {as : List α} {bs : List β}
    (h : List.Forall₂ R as bs) (hf : ∀ a b, R a b → Tracks K S (f a) (g b)) :
    Tracks K (List.Forall₂ S) (as.mapM f) (bs.mapM g) := by
  induction h with
  | nil => exact pure .nil
  | cons hab _ ih =>
    simp only [List.mapM_cons]
    refine (hf _ _ hab).bind fun c d hcd => ?_
    refine ih.bind fun cs ds hcds => ?_
    exact pure (.cons hcd hcds)

theorem foldlM {f : γ → α → EStateM ε σ γ} {g : δ → β → EStateM ε σ δ} {as : List α} {bs : List β}
    (h : List.Forall₂ R as bs) {c : γ} {d : δ} (hcd : S c d)
    (hf : ∀ c d a b, S c d → R a b → Tracks K S (f c a) (g d b)) :
    Tracks K S (as.foldlM f c) (bs.foldlM g d) := by
  induction h generalizing c d with
  | nil => exact pure hcd
  | cons hab _ ih =>
    simp only [List.foldlM_cons]
    exact (hf _ _ _ _ hcd hab).bind fun _ _ hcd => ih hcd

end Tracks

/-! ## Lists -/

/-- Both computations see a comma or none does, and both have as many tokens to come. -/
structure Tracking.SeesCommas [MonadLiftT Reader (EStateM ε σ)] (K : Tracking ε σ) : Prop where
  comma : Tracks K (· = ·) (liftM (Reader.skipSymbol .comma) : EStateM ε σ Bool)
    (liftM (Reader.skipSymbol .comma))
  remaining : Tracks K (· = ·) (liftM remaining : EStateM ε σ Nat) (liftM remaining)

namespace Tracks

variable [MonadLiftT Reader (EStateM ε σ)]

theorem commaSteps (hK : K.SeesCommas) {step : α → EStateM ε σ α} {step' : β → EStateM ε σ β}
    (h : ∀ a b, R a b → Tracks K R (step a) (step' b)) {a : α} {b : β} (hab : R a b) :
    Tracks K R (commaSteps step a) (commaSteps step' b) := by
  have hwithin : ∀ (bound : Nat) (a : α) (b : β), R a b →
      Tracks K R (commaStepsWithin step bound a) (commaStepsWithin step' bound b) := by
    intro bound
    induction bound with
    | zero => exact fun a b hab => pure hab
    | succ bound ih =>
      intro a b hab
      exact hK.comma.whether ((h a b hab).bind ih) (pure hab)
  exact (h a b hab).bind fun c d hcd => hK.remaining.bindSame fun bound => hwithin bound c d hcd

theorem commaSeparated (hK : K.SeesCommas) (h : Tracks K R x y) :
    Tracks K (List.Forall₂ R) (commaSeparated x) (commaSeparated y) := by
  refine commaSteps hK (fun as bs hs => h.bind fun a b hab => pure ?_) .nil
  exact List.rel_append hs (.cons hab .nil)

end Tracks

end

/-! ## Checks -/

/-- Two checks agree: both give related results, or both refuse at spellings of one fragment. -/
inductive Concur {α β : Type} (P : Likeness) (R : α → β → Prop) :
    Except Error α → Except Error β → Prop
  | ok {a : α} {b : β} (h : R a b) : Concur P R (.ok a) (.ok b)
  | error {e e' : Error} (h : e.fragment.Respelled P e'.fragment) : Concur P R (.error e) (.error e')

namespace Concur

variable {α β γ δ : Type} {P : Likeness} {R : α → β → Prop} {S : γ → δ → Prop} {x : Except Error α}
  {y : Except Error β}

/-- What is said of two checks is said of their results and of their errors. -/
@[elab_as_elim]
theorem elim {motive : Except Error α → Except Error β → Prop} (h : Concur P R x y)
    (ok : ∀ a b, R a b → motive (.ok a) (.ok b))
    (error : ∀ e e' : Error, e.fragment.Respelled P e'.fragment → motive (.error e) (.error e')) :
    motive x y := by
  cases h with
  | ok h => exact ok _ _ h
  | error h => exact error _ _ h

theorem map {f : α → γ} {g : β → δ} (h : Concur P R x y) (hf : ∀ a b, R a b → S (f a) (g b)) :
    Concur P S (x.map f) (y.map g) := by
  cases h with
  | ok h => exact .ok (hf _ _ h)
  | error h => exact .error h

/-- The results of two checks are results of the checks. -/
theorem checked (h : Concur P R x y) : Concur P (fun a b => R a b ∧ x = .ok a) x y := by
  cases h with
  | ok h => exact .ok ⟨h, rfl⟩
  | error h => exact .error h

end Concur

/-! ## States and failures -/

/-- The fragment at the end of the tokens read. -/
def Cursor.lastRead (c : Cursor) : Fragment :=
  Cursor.fragment ⟨c.past, []⟩

/-- Spellings of the same tokens to come, after tokens that end near each other. -/
structure Cursor.Respelled (P : Likeness) (c c' : Cursor) : Prop where
  behind : c.lastRead.Respelled P c'.lastRead
  rest : List.Forall₂ (Token.Respelled P) c.rest c'.rest

/-- The same place and count among spellings of the same tokens. -/
structure Reading.Respelled (P : Likeness) (s s' : Reading) : Prop where
  cursor : s.cursor.Respelled P s'.cursor
  parameters : P.number s'.parameters = P.number s.parameters

theorem Cursor.Respelled.ofTokens {P : Likeness} {tokens tokens' : List Token}
    (h : List.Forall₂ (Token.Respelled P) tokens tokens') :
    Cursor.Respelled P (.ofTokens tokens) (.ofTokens tokens') :=
  ⟨.absent, h⟩

/-- The faces of the ranges around a statement. -/
def Likeness.faces (P : Likeness) (groups : List RangeGroup) : List (List RangeFace) :=
  groups.map fun group => group.map P.face

/-- States of two compilations that go along. The queries noted name their ranges and may differ. -/
structure CompilerState.Respelled (P : Likeness) (s s' : CompilerState) : Prop where
  reading : s.toReading.Respelled P s'.toReading
  outer : P.faces s.outer = P.faces s'.outer
  calls : s'.calls = s.calls
  nextRange : P.number s'.nextRange = P.number s.nextRange

/-- Failures at spellings of one fragment, or the same flaw of the catalog. -/
inductive Failure.Respelled (P : Likeness) : Failure → Failure → Prop
  | rejected {e e' : Error} (h : e.fragment.Respelled P e'.fragment) :
      Respelled P (.rejected e) (.rejected e')
  | outOfRange : Respelled P .outOfRange .outOfRange
  | viewCycle : Respelled P .viewCycle .viewCycle

namespace Tracking

def cursors (P : Likeness) : Tracking Error Cursor :=
  ⟨Cursor.Respelled P, fun e e' => e.fragment.Respelled P e'.fragment⟩

def readings (P : Likeness) : Tracking Failure Reading :=
  ⟨Reading.Respelled P, Failure.Respelled P⟩

def states (P : Likeness) : Tracking Failure CompilerState :=
  ⟨CompilerState.Respelled P, Failure.Respelled P⟩

end Tracking

namespace CompilerState.Respelled

variable {P : Likeness} {s s' : CompilerState}

theorem cursor (h : s.Respelled P s') : s.cursor.Respelled P s'.cursor :=
  h.reading.cursor

theorem withCursor (h : s.Respelled P s') {c c' : Cursor} (hc : c.Respelled P c') :
    CompilerState.Respelled P { s with cursor := c } { s' with cursor := c' } :=
  ⟨⟨hc, h.reading.parameters⟩, h.outer, h.calls, h.nextRange⟩

end CompilerState.Respelled

/-- Both come back to where they were. -/
theorem Tracking.Ends.onTokens {P : Likeness} {α β : Type} {R : α → β → Prop} {x : Compiler α}
    {y : Compiler β} {tokens tokens' : List Token} {s s' : CompilerState}
    (hs : s.cursor.Respelled P s'.cursor)
    (h : (Tracking.states P).Ends R (x { s with cursor := .ofTokens tokens })
      (y { s' with cursor := .ofTokens tokens' })) :
    (Tracking.states P).Ends R (Compiler.onTokens tokens x s) (Compiler.onTokens tokens' y s') := by
  unfold Compiler.onTokens
  generalize x { s with cursor := .ofTokens tokens } = r at h ⊢
  generalize y { s' with cursor := .ofTokens tokens' } = r' at h ⊢
  cases h with
  | ok hab ht => exact .ok hab (ht.withCursor hs)
  | error he => exact .error he

namespace Tracks

variable {P : Likeness} {α β γ δ : Type} {R : α → β → Prop} {S : γ → δ → Prop}

theorem lift_reader {x : Reader α} {y : Reader β} (h : Tracks (.cursors P) R x y) :
    Tracks (.readings P) R (liftM x : Parser α) (liftM y : Parser β) := by
  intro s s' hs
  have hends := h hs.cursor
  generalize hx : x s.cursor = r at hends
  generalize hy : y s'.cursor = r' at hends
  cases hends with
  | ok hab hc =>
    rw [lift_reader_run hx, lift_reader_run hy]
    exact .ok hab ⟨hc, hs.parameters⟩
  | error he =>
    rw [lift_reader_fail hx, lift_reader_fail hy]
    exact .error (.rejected he)

theorem lift_parsing {x : Parser α} {y : Parser β} (h : Tracks (.readings P) R x y) :
    Tracks (.states P) R (liftM x : Compiler α) (liftM y : Compiler β) := by
  intro s s' hs
  have hends := h hs.reading
  generalize hx : x s.toReading = r at hends
  generalize hy : y s'.toReading = r' at hends
  cases hends with
  | ok hab hr =>
    rw [lift_parser_run hx, lift_parser_run hy]
    exact .ok hab ⟨hr, hs.outer, hs.calls, hs.nextRange⟩
  | error he =>
    rw [lift_parser_fail hx, lift_parser_fail hy]
    exact .error he

/-- Tokens read by the compiler. -/
theorem lift_tokens {x : Reader α} {y : Reader β} (h : Tracks (.cursors P) R x y) :
    Tracks (.states P) R (liftM x : Compiler α) (liftM y : Compiler β) := by
  rw [lift_reader_eq, lift_reader_eq]
  exact lift_parsing (lift_reader h)

theorem except {x : Except Error α} {y : Except Error β} (h : Concur P R x y) :
    Tracks (.states P) R (liftM x : Compiler α) (liftM y : Compiler β) := by
  cases h with
  | ok hab => exact fun _ _ hs => .ok hab hs
  | error he => exact fun _ _ _ => .error (.rejected he)

section

variable {σ : Type} {K : σ → σ → Prop}

theorem reject {e e' : Error} (h : e.fragment.Respelled P e'.fragment) :
    Tracks ⟨K, Failure.Respelled P⟩ R (DataChange.reject e : EStateM Failure σ α)
      (DataChange.reject e' : EStateM Failure σ β) :=
  throw (.rejected h)

theorem inRange {a : Option α} {b : Option β} (h : Option.Rel R a b) :
    Tracks ⟨K, Failure.Respelled P⟩ R (DataChange.inRange a : EStateM Failure σ α)
      (DataChange.inRange b : EStateM Failure σ β) := by
  cases h with
  | none => exact throw .outOfRange
  | some hab => exact pure hab

theorem inRangeSame (a : Option α) :
    Tracks ⟨K, Failure.Respelled P⟩ (· = ·) (DataChange.inRange a : EStateM Failure σ α)
      (DataChange.inRange a) := by
  cases a with
  | none => exact throw .outOfRange
  | some a => exact pure rfl

end

theorem onTokens {x : Compiler α} {y : Compiler β} {tokens tokens' : List Token}
    (htokens : List.Forall₂ (Token.Respelled P) tokens tokens')
    (h : Tracks (.states P) R x y) :
    Tracks (.states P) R (Compiler.onTokens tokens x) (Compiler.onTokens tokens' y) :=
  fun _ _ hs => .onTokens hs.cursor (h (hs.withCursor (.ofTokens htokens)))

theorem newRange :
    Tracks (.states P) (fun id id' => P.number id = P.number id') Compiler.newRange
      Compiler.newRange :=
  fun _ _ hs => .ok hs.nextRange.symm
    ⟨hs.reading, hs.outer, hs.calls, P.number_succ hs.nextRange⟩

theorem noteQuery {outer outer' : List RangeGroup} {expected expected' : Option (List SqlType)} :
    Tracks (.states P) (fun _ _ => True) (Compiler.noteQuery outer expected)
      (Compiler.noteQuery outer' expected') :=
  modified fun _ _ hs => ⟨hs.reading, hs.outer, hs.calls, hs.nextRange⟩

theorem outerGroups :
    Tracks (.states P) (fun o o' => P.faces o = P.faces o') Compiler.outerGroups
      Compiler.outerGroups :=
  fun _ _ hs => .ok hs.outer hs

end Tracks

end DataChange
