import DataChange.Proofs.Token.Consumed
import Mathlib.Logic.Function.Iterate

/-!
# Recursion that comes to an end

The recursions of the compiler are written with a bound on their depth. Without it each is the
repetition of one step, and nothing in the step says that it ends. `ComesTo step f bound` says that
it does: `f` solves the equation of the recursion, and within `bound` unfoldings of the step the
recursion has ended everywhere, so that it does not matter what would come after them.

It is proved from a measure (`Descending`): where two continuations agree on all smaller states, the
step makes no difference between them. For computations with a state `Agrees` carries this through
their sequences and lists.
-/

namespace DataChange

/-! ## Steps and measures -/

section

variable {ι σ β : Type}

/-- Two continuations agree on all states of a smaller size. -/
def AgreeBelow (size : ι → σ → Nat) (n : Nat) (f g : ι → σ → β) : Prop :=
  ∀ i s, size i s < n → f i s = g i s

/-- The recursion with a step, where `step f` is the body with `f` for the recursive calls, comes to
an end everywhere, and `f` is what it comes to. -/
structure ComesTo (step : (ι → σ → β) → ι → σ → β) (f : ι → σ → β) (bound : ι → σ → Nat) :
    Prop where
  equation : step f = f
  /-- After so many unfoldings no call is left that `stop` would have to answer. -/
  ends : ∀ stop i s n, bound i s ≤ n → step^[n] stop i s = f i s

/-- A bounded recursion `w` with a step, whose calls are on smaller states. -/
structure Descending (size : ι → σ → Nat) (step : (ι → σ → β) → ι → σ → β)
    (w : Nat → ι → σ → β) : Prop where
  succ : ∀ b, w (b + 1) = step (w b)
  descends : ∀ n b g, AgreeBelow size n g (w b) → AgreeBelow size (n + 1) (step g) (step (w b))

namespace Descending

variable {size : ι → σ → Nat} {step : (ι → σ → β) → ι → σ → β} {w : Nat → ι → σ → β}
  {f : ι → σ → β}

/-- On small states it does not matter what the step is unfolded to, nor how large the bound is. -/
theorem agree (h : Descending size step w) (g : ι → σ → β) :
    ∀ {n b : Nat}, n ≤ b → AgreeBelow size n (step^[n] g) (w b)
  | 0, _, _ => fun i s hlt => absurd hlt (Nat.not_lt_zero _)
  | n + 1, b, hb => by
    obtain ⟨b, rfl⟩ : ∃ c, b = c + 1 := ⟨b - 1, by omega⟩
    rw [Function.iterate_succ_apply', h.succ]
    exact h.descends n b _ (h.agree g (Nat.le_of_succ_le_succ hb))

/-- Bounds above the size of a state give the same result there. -/
theorem congr (h : Descending size step w) {a b : Nat} {i : ι} {s : σ} (ha : size i s < a)
    (hb : size i s < b) : w a i s = w b i s := by
  rw [← h.agree (w 0) (Nat.succ_le_of_lt ha) i s (Nat.lt_succ_self _),
    ← h.agree (w 0) (Nat.succ_le_of_lt hb) i s (Nat.lt_succ_self _)]

/-- What is given where the bound is above the size of the state is what the recursion comes to. -/
theorem comesTo_of_lt (h : Descending size step w) {bound : ι → σ → Nat}
    (hbound : ∀ i s, size i s < bound i s) (hf : ∀ i s, f i s = w (bound i s) i s) :
    ComesTo step f bound where
  equation := by
    funext i s
    have hbelow : AgreeBelow size (size i s) f (w (size i s)) := fun j t hlt => by
      rw [hf]
      exact h.congr (hbound j t) hlt
    rw [h.descends _ _ f hbelow i s (Nat.lt_succ_self _), ← h.succ, hf]
    exact h.congr (Nat.lt_succ_self _) (hbound i s)
  ends stop i s n hn := by
    have hlt : size i s < n := Nat.lt_of_lt_of_le (hbound i s) hn
    rw [h.agree stop (Nat.le_refl n) i s hlt, hf]
    exact h.congr hlt (hbound i s)

theorem comesTo (h : Descending size step w) (hf : ∀ i s, f i s = w (size i s + 1) i s) :
    ComesTo step f fun i s => size i s + 1 :=
  h.comesTo_of_lt (fun _ _ => Nat.lt_succ_self _) hf

/-- The same for a bound that is just the size, if there is nothing to do on the smallest states. -/
theorem comesTo_of_last (h : Descending size step w)
    (hlast : ∀ i s, size i s = 0 → w 0 i s = w 1 i s)
    (hf : ∀ i s, f i s = w (size i s) i s) : ComesTo step f fun i s => size i s + 1 := by
  have hsucc : ∀ n, AgreeBelow size (n + 1) (w n) (w (n + 1)) := by
    intro n
    induction n with
    | zero => exact fun i s hlt => hlast i s (by omega)
    | succ n ih =>
      have hstep := h.descends (n + 1) (n + 1) (w n) ih
      rwa [← h.succ, ← h.succ] at hstep
  refine h.comesTo fun i s => ?_
  rw [hf]
  exact hsucc _ i s (Nat.lt_succ_self _)

end Descending

end

/-! ## Computations with a state -/

section

variable {ε σ α β : Type} {size : σ → Nat} {n : Nat}

/-- Two computations agree on all states of a smaller size. -/
def Agrees (size : σ → Nat) (n : Nat) (x y : EStateM ε σ α) : Prop :=
  ∀ s, size s < n → x s = y s

/-- A computation that ends in no larger state than it starts from. -/
def Stays (size : σ → Nat) (x : EStateM ε σ α) : Prop :=
  ∀ s a t, x s = .ok a t → size t ≤ size s

/-- A computation that ends in a smaller state than it starts from. -/
def Shrinks (size : σ → Nat) (x : EStateM ε σ α) : Prop :=
  ∀ s a t, x s = .ok a t → size t < size s

theorem Shrinks.stays {x : EStateM ε σ α} (h : Shrinks size x) : Stays size x :=
  fun s a t hx => Nat.le_of_lt (h s a t hx)

theorem stays_pure (a : α) : Stays size (pure a : EStateM ε σ α) := by
  intro s b t h
  obtain ⟨-, rfl⟩ := pure_ok.1 h
  exact Nat.le_refl _

theorem stays_get : Stays size (get : EStateM ε σ σ) := by
  intro s b t h
  obtain ⟨-, rfl⟩ := get_ok.1 h
  exact Nat.le_refl _

theorem Stays.bind {x : EStateM ε σ α} {k : α → EStateM ε σ β} (hx : Stays size x)
    (hk : ∀ a, Stays size (k a)) : Stays size (x >>= k) := by
  intro s b t h
  obtain ⟨a, u, ha, hb⟩ := bind_ok.1 h
  exact Nat.le_trans (hk a _ _ _ hb) (hx _ _ _ ha)

theorem Shrinks.bind {x : EStateM ε σ α} {k : α → EStateM ε σ β} (hx : Shrinks size x)
    (hk : ∀ a, Stays size (k a)) : Shrinks size (x >>= k) := by
  intro s b t h
  obtain ⟨a, u, ha, hb⟩ := bind_ok.1 h
  exact Nat.lt_of_le_of_lt (hk a _ _ _ hb) (hx _ _ _ ha)

theorem stays_reject {σ : Type} {size : σ → Nat} (e : Error) :
    Stays size (reject e : EStateM Failure σ α) :=
  fun _ _ _ h => (reject_ok.1 h).elim

theorem Stays.ite {c : Prop} [Decidable c] {x y : EStateM ε σ α} (hx : Stays size x)
    (hy : Stays size y) : Stays size (if c then x else y) := by
  split
  · exact hx
  · exact hy

/-- What follows a step needs to agree only where the step leads. -/
theorem bind_congr_ok {x : EStateM ε σ α} {k k' : α → EStateM ε σ β} {s : σ}
    (h : ∀ a t, x s = .ok a t → k a t = k' a t) : (x >>= k) s = (x >>= k') s := by
  show EStateM.bind x k s = EStateM.bind x k' s
  unfold EStateM.bind
  split
  · next a t hx => exact h a t hx
  · rfl

/-- Steps that agree at a state agree with what follows. -/
theorem bind_congr_run {x y : EStateM ε σ α} {k : α → EStateM ε σ β} {s : σ} (h : x s = y s) :
    (x >>= k) s = (y >>= k) s := by
  show EStateM.bind x k s = EStateM.bind y k s
  unfold EStateM.bind
  rw [h]

namespace Agrees

variable {x y : EStateM ε σ α} {k k' : α → EStateM ε σ β}

theorem refl (x : EStateM ε σ α) : Agrees size n x x :=
  fun _ _ => rfl

theorem bind (hx : Agrees size n x y) (hy : Stays size y)
    (hk : ∀ a, Agrees size n (k a) (k' a)) : Agrees size n (x >>= k) (y >>= k') := by
  intro s hs
  show EStateM.bind x k s = EStateM.bind y k' s
  unfold EStateM.bind
  rw [hx s hs]
  split
  · next a t hyt => exact hk a t (Nat.lt_of_le_of_lt (hy s a t hyt) hs)
  · rfl

/-- The same first step. -/
theorem same (hx : Stays size x) (hk : ∀ a, Agrees size n (k a) (k' a)) :
    Agrees size n (x >>= k) (x >>= k') :=
  bind (refl x) hx hk

/-- What follows a step that makes the state smaller needs to agree on smaller states only. -/
theorem after (hx : Shrinks size x) (hk : ∀ a, Agrees size n (k a) (k' a)) :
    Agrees size (n + 1) (x >>= k) (x >>= k') := by
  intro s hs
  refine bind_congr_ok fun a t ht => hk a t ?_
  have := hx s a t ht
  omega

theorem ite {c : Prop} [Decidable c] {x' y' : EStateM ε σ α} (hx : Agrees size n x y)
    (hx' : Agrees size n x' y') :
    Agrees size n (if c then x else x') (if c then y else y') := by
  split
  · exact hx
  · exact hx'

end Agrees

end

/-! ## Lists between commas -/

/-- Adds an item to a list. -/
def addItem {ε σ α : Type} (item : EStateM ε σ α) (as : List α) : EStateM ε σ (List α) := do
  return as ++ [← item]

theorem Stays.addItem {ε σ α : Type} {size : σ → Nat} {item : EStateM ε σ α}
    (h : Stays size item) (as : List α) : Stays size (addItem item as) :=
  h.bind fun _ => stays_pure _

/-- The state of a computation that reads tokens counts those that are still to come. -/
structure CountsTokens {ε σ : Type} (size : σ → Nat) [MonadLiftT Reader (EStateM ε σ)] : Prop where
  remaining : ∀ s, (liftM remaining : EStateM ε σ Nat) s = .ok (size s) s
  comma : ∀ s more t, (liftM (Reader.skipSymbol .comma) : EStateM ε σ Bool) s = .ok more t →
    more = true ∧ size t < size s ∨ more = false ∧ t = s
  /-- At the end there is no comma. -/
  last : ∀ s, size s = 0 →
    (liftM (Reader.skipSymbol .comma) : EStateM ε σ Bool) s = .ok false s

section

variable {ε σ τ α : Type} {size : σ → Nat} [MonadLiftT Reader (EStateM ε σ)]

/-- The step of the loop over a list: a comma leads to another item. -/
def commaStep (step : τ → EStateM ε σ τ) (loop : τ → EStateM ε σ τ) (a : τ) : EStateM ε σ τ := do
  if ← Reader.skipSymbol .comma then loop (← step a) else pure a

/-- The loop over a list after its first item. -/
def commaLoop (step : τ → EStateM ε σ τ) (a : τ) : EStateM ε σ τ := do
  commaStepsWithin step (← remaining) a

/-- The loop over a list comes to an end. -/
def ListEnds (size : σ → Nat) (step : τ → EStateM ε σ τ) : Prop :=
  ComesTo (commaStep step) (commaLoop step) fun _ s => size s + 1

variable (hcounts : CountsTokens (ε := ε) size)
include hcounts

theorem stays_comma : Stays size (liftM (Reader.skipSymbol .comma) : EStateM ε σ Bool) := by
  intro s more t h
  rcases hcounts.comma s more t h with ⟨-, hlt⟩ | ⟨-, rfl⟩
  · exact Nat.le_of_lt hlt
  · exact Nat.le_refl _

theorem stays_remaining : Stays size (liftM remaining : EStateM ε σ Nat) := by
  intro s k t h
  rw [hcounts.remaining] at h
  cases h
  exact Nat.le_refl _

theorem commaStep_agrees {n : Nat} {step : τ → EStateM ε σ τ} {loop loop' : τ → EStateM ε σ τ}
    (hstep : ∀ a, Stays size (step a)) (h : ∀ a, Agrees size n (loop a) (loop' a)) (a : τ) :
    Agrees size (n + 1) (commaStep step loop a) (commaStep step loop' a) := by
  intro s hs
  refine bind_congr_ok fun more t ht => ?_
  rcases hcounts.comma s more t ht with ⟨rfl, hlt⟩ | ⟨rfl, -⟩
  · exact Agrees.same (hstep a) h t (by omega)
  · rfl

/-- A list whose items give no tokens back is read to its end, however long it is. -/
theorem listEnds {step : τ → EStateM ε σ τ} (hstep : ∀ a, Stays size (step a)) :
    ListEnds size step := by
  have hdescending : Descending (fun (_ : τ) s => size s) (commaStep step)
      (commaStepsWithin step) :=
    ⟨fun _ => rfl, fun n b g h => commaStep_agrees hcounts hstep h⟩
  refine hdescending.comesTo_of_last (fun a s hs => ?_) fun a s => ?_
  · show _ = (liftM (Reader.skipSymbol .comma) >>= _ : EStateM ε σ τ) s
    rw [bind_run (hcounts.last s hs)]
    rfl
  · exact bind_run (hcounts.remaining s)

theorem commaStepsWithin_agrees {n : Nat} {step step' : τ → EStateM ε σ τ}
    (hstep : ∀ a, Stays size (step' a)) (h : ∀ a, Agrees size n (step a) (step' a)) :
    ∀ (bound : Nat) (a : τ),
      Agrees size n (commaStepsWithin step bound a) (commaStepsWithin step' bound a)
  | 0, _ => .refl _
  | bound + 1, a => .same (stays_comma hcounts) fun _ =>
    .ite ((h a).bind (hstep a) fun b => commaStepsWithin_agrees hstep h bound b) (.refl _)

theorem commaSeparated_agrees {n : Nat} {item item' : EStateM ε σ α} (hitem : Stays size item')
    (h : Agrees size n item item') :
    Agrees size n (commaSeparated item) (commaSeparated item') := by
  have hagrees : ∀ as : List α, Agrees size n (addItem item as) (addItem item' as) :=
    fun as => h.bind hitem fun _ => .refl _
  exact (hagrees []).bind (hitem.addItem []) fun as => .same (stays_remaining hcounts) fun bound =>
    commaStepsWithin_agrees hcounts hitem.addItem hagrees bound as

end

/-! ## Tokens to come -/

/-- The number of tokens to come. -/
def Cursor.toCome (c : Cursor) : Nat :=
  c.rest.length

def Reading.toCome (s : Reading) : Nat :=
  s.cursor.toCome

def CompilerState.toCome (s : CompilerState) : Nat :=
  s.cursor.toCome

theorem countsTokens_cursor : CountsTokens (ε := Error) Cursor.toCome where
  remaining _ := rfl
  comma c more d h := by
    cases more with
    | true =>
      obtain ⟨x, -, hr⟩ := Reader.skipSymbol_true h
      exact .inl ⟨rfl, by simp [Cursor.toCome, hr]⟩
    | false => exact .inr ⟨rfl, (Reader.skipSymbol_false h).1⟩
  last c h := by
    have hnil : c.rest = [] := List.length_eq_zero_iff.1 h
    obtain ⟨past, rest⟩ := c
    subst hnil
    rfl

theorem countsTokens_reading : CountsTokens (ε := Failure) Reading.toCome where
  remaining s := lift_reader_run (countsTokens_cursor.remaining s.cursor)
  comma s more t h := by
    obtain ⟨d, hd, rfl⟩ := lift_reader_ok.1 h
    rcases countsTokens_cursor.comma _ _ _ hd with ⟨hmore, hlt⟩ | ⟨hmore, rfl⟩
    · exact .inl ⟨hmore, hlt⟩
    · exact .inr ⟨hmore, rfl⟩
  last s h := lift_reader_run (countsTokens_cursor.last s.cursor h)

theorem countsTokens_state : CountsTokens (ε := Failure) CompilerState.toCome where
  remaining s := lift_parser_run (countsTokens_reading.remaining s.toReading)
  comma s more t h := by
    obtain ⟨r, hr, rfl⟩ := lift_parser_ok.1 h
    rcases countsTokens_reading.comma _ _ _ hr with ⟨hmore, hlt⟩ | ⟨hmore, rfl⟩
    · exact .inl ⟨hmore, hlt⟩
    · exact .inr ⟨hmore, rfl⟩
  last s h := lift_parser_run (countsTokens_reading.last s.toReading h)

end DataChange
