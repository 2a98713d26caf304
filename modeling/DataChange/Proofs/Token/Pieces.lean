import DataChange.Proofs.Copy.Clauses
import DataChange.Proofs.Token.Yields

/-!
# Tokens piece by piece

A list is read item by item, and the tokens of an item are a piece that is read on its own: what
comes before and after it does not matter. So what the list comes to is told from the pieces alone
(`commaSteps_pieces`), as the outcomes of the items, one after the other.
-/

namespace DataChange

/-! ## Lists of pieces -/

/-- Some pieces with a comma before each. -/
inductive AfterCommas : List (List Token) → List Token → Prop
  | nil : AfterCommas [] []
  | cons {pieces : List (List Token)} {tokens : List Token} {comma : Token}
      (hcomma : comma.kind = .symbol .comma) (piece : List Token) (h : AfterCommas pieces tokens) :
      AfterCommas (piece :: pieces) (comma :: (piece ++ tokens))

/-- Some pieces with commas between them. -/
inductive Separated : List (List Token) → List Token → Prop
  | intro {pieces : List (List Token)} {tokens : List Token} (piece : List Token)
      (h : AfterCommas pieces tokens) : Separated (piece :: pieces) (piece ++ tokens)

/-- A computation ends as told before: with a result in a state, or in some failure. -/
inductive Foretold {ε σ α β : Type} (R : β → α → σ → Prop) :
    Option β → EStateM.Result ε σ α → Prop
  | ok {b : β} {a : α} {s : σ} (h : R b a s) : Foretold R (some b) (.ok a s)
  | error {e : ε} {s : σ} : Foretold R none (.error e s)

theorem Foretold.bind {ε σ α β γ δ : Type} {R : β → α → σ → Prop} {S : δ → γ → σ → Prop}
    {o : Option β} {f : β → Option δ} {x : EStateM ε σ α} {g : α → EStateM ε σ γ} {s : σ}
    (hx : Foretold R o (x s)) (hf : ∀ b a t, R b a t → Foretold S (f b) (g a t)) :
    Foretold S (o >>= f) ((x >>= g) s) := by
  show Foretold S (o >>= f) (EStateM.bind x g s)
  unfold EStateM.bind
  generalize x s = r at hx
  cases hx with
  | ok h => exact hf _ _ _ h
  | error => exact .error

/-- A computation after which another one succeeds. -/
theorem Foretold.andThen {ε σ α β γ : Type} {R : β → α → σ → Prop} {S : β → γ → σ → Prop}
    {o : Option β} {x : EStateM ε σ α} {g : α → EStateM ε σ γ} {s : σ} (hx : Foretold R o (x s))
    (hg : ∀ b a t, R b a t → ∃ c u, g a t = .ok c u ∧ S b c u) : Foretold S o ((x >>= g) s) := by
  have hbind : Foretold S (o >>= some) ((x >>= g) s) := by
    refine hx.bind fun b a t h => ?_
    obtain ⟨c, u, hrun, hS⟩ := hg b a t h
    rw [hrun]
    exact .ok hS
  simpa using hbind

theorem Foretold.told {ε σ α β : Type} {R : β → α → σ → Prop} {o : Option β}
    {r : EStateM.Result ε σ α} (h : Foretold R o r) :
    Foretold (fun b a s => o = some b ∧ R b a s) o r := by
  cases h with
  | ok h => exact .ok ⟨rfl, h⟩
  | error => exact .error

theorem Foretold.map {ε σ α β γ : Type} {R : β → α → σ → Prop} {S : γ → α → σ → Prop}
    {o : Option β} {r : EStateM.Result ε σ α} (h : Foretold R o r) (f : β → γ)
    (hS : ∀ b a s, R b a s → S (f b) a s) : Foretold S (o.map f) r := by
  cases h with
  | ok h => exact .ok (hS _ _ _ h)
  | error => exact .error

theorem Foretold.of_map {ε σ α β γ : Type} {R : γ → α → σ → Prop} {o : Option β}
    {r : EStateM.Result ε σ α} {f : β → γ} (h : Foretold R (o.map f) r) :
    Foretold (fun b a s => R (f b) a s) o r := by
  cases o with
  | none =>
    cases h
    exact .error
  | some b =>
    cases h with
    | ok h => exact .ok h

/-- What was told, before some tokens. -/
structure Before {τ : Type} (rest : List Token) (told : τ × Nat) (a : τ) (s : Reading) : Prop where
  value : a = told.1
  parameters : s.parameters = told.2
  rest : s.cursor.rest = rest

/-- A step that reads a piece, whatever stands before and after it. -/
def ReadsPiece {τ : Type} (step : τ → Parser τ) (piece : List Token)
    (f : τ × Nat → Option (τ × Nat)) : Prop :=
  ∀ (a : τ) (s : Reading) (rest : List Token), Ending rest → s.cursor.rest = piece ++ rest →
    Foretold (Before rest) (f (a, s.parameters)) (step a s)

section

variable {τ π : Type} {step : τ → Parser τ} {f : τ × Nat → π → Option (τ × Nat)}
  {pieces : List (List Token)} {items : List π} {tokens rest : List Token}

theorem AfterCommas.ending (h : AfterCommas pieces tokens) (hrest : Ending rest) :
    Ending (tokens ++ rest) := by
  cases h with
  | nil => exact hrest
  | cons hcomma => exact .cons (by simp [hcomma, endings])

theorem commaStepsWithin_none {a : τ} {s : Reading} (h : Lacks (.symbol .comma) s.cursor.rest)
    (bound : Nat) : commaStepsWithin step bound a s = .ok a s := by
  cases bound with
  | zero => rfl
  | succ bound =>
    rw [commaStepsWithin, bind_run (lift_reader_run (Reader.skipSymbol_absent h))]
    rfl

/-- The loop over the pieces after the first. -/
theorem commaStepsWithin_pieces (hrest : Ending rest) (hnone : Lacks (.symbol .comma) rest)
    (h : AfterCommas pieces tokens)
    (hitems : List.Forall₂ (fun piece item => ReadsPiece step piece (f · item)) pieces items)
    {a : τ} {s : Reading} (hs : s.cursor.rest = tokens ++ rest) {bound : Nat}
    (hbound : (tokens ++ rest).length ≤ bound) :
    Foretold (Before rest) (items.foldlM f (a, s.parameters)) (commaStepsWithin step bound a s) := by
  obtain ⟨⟨past, ts⟩, n⟩ := s
  obtain rfl : ts = tokens ++ rest := hs
  induction h generalizing items a past n bound with
  | nil =>
    cases hitems
    rw [List.nil_append, commaStepsWithin_none hnone]
    exact .ok ⟨rfl, rfl, rfl⟩
  | @cons pieces tokens comma hcomma piece h ih =>
    cases hitems with
    | @cons _ item _ items hitem hitems =>
      obtain ⟨bound, rfl⟩ : ∃ m, bound = m + 1 := ⟨bound - 1, by simp at hbound; omega⟩
      have hlength : (tokens ++ rest).length ≤ bound := by simp at hbound ⊢; omega
      rw [commaStepsWithin, List.cons_append,
        bind_run (lift_reader_run (Reader.skipSymbol_present hcomma)), List.foldlM_cons]
      simp only [↓reduceIte, List.append_assoc]
      have hpiece := hitem a ⟨⟨comma :: past, piece ++ (tokens ++ rest)⟩, n⟩ _ (h.ending hrest) rfl
      refine hpiece.bind ?_
      rintro ⟨_, _⟩ b ⟨⟨past', _⟩, m⟩ ⟨rfl, rfl, rfl⟩
      exact ih hitems hlength m past'

/-- A list of pieces is read piece by piece. -/
theorem commaSteps_pieces (hrest : Ending rest) (hnone : Lacks (.symbol .comma) rest)
    (h : Separated pieces tokens)
    (hitems : List.Forall₂ (fun piece item => ReadsPiece step piece (f · item)) pieces items)
    {a : τ} {s : Reading} (hs : s.cursor.rest = tokens ++ rest) :
    Foretold (Before rest) (items.foldlM f (a, s.parameters)) (commaSteps step a s) := by
  cases h with
  | intro piece h =>
    cases hitems with
    | cons hitem hitems =>
      rw [List.foldlM_cons]
      refine (hitem _ _ _ (h.ending hrest) (by rw [hs, List.append_assoc])).bind ?_
      rintro ⟨_, _⟩ b t ⟨rfl, rfl, ht⟩
      have hcount : (liftM remaining : Parser Nat) t = .ok t.cursor.rest.length t := rfl
      rw [bind_run hcount]
      exact commaStepsWithin_pieces hrest hnone h hitems ht (ht ▸ Nat.le_refl _)

/-- A list of one step, if no comma comes after it. -/
theorem commaSteps_once {β : Type} {R : β → τ → Reading → Prop} {o : Option β} {a : τ} {s : Reading}
    (h : Foretold R o (step a s)) (hR : ∀ b a t, R b a t → Lacks (.symbol .comma) t.cursor.rest) :
    Foretold R o (commaSteps step a s) := by
  refine h.andThen fun b a t ht => ⟨a, t, ?_, ht⟩
  have hcount : (liftM remaining : Parser Nat) t = .ok t.cursor.rest.length t := rfl
  rw [bind_run hcount, commaStepsWithin_none (hR b a t ht)]

end

theorem bind_fail {ε σ α β : Type} {x : EStateM ε σ α} {g : α → EStateM ε σ β} {s t : σ} {e : ε}
    (h : x s = .error e t) : (x >>= g) s = .error e t := by
  show EStateM.bind x g s = _
  simp only [EStateM.bind, h]

theorem lift_reader_bind {α β : Type} (x : Reader α) (g : α → Reader β) :
    (liftM (x >>= g) : Parser β) = (liftM x : Parser α) >>= fun a => (liftM (g a) : Parser β) := by
  funext s
  cases hx : x s.cursor with
  | ok a c =>
    rw [bind_run (lift_reader_run hx)]
    have hrun : (x >>= g) s.cursor = g a c := bind_run hx
    cases hg : g a c with
    | ok b d => rw [lift_reader_run (hrun.trans hg), lift_reader_run (s := { s with cursor := c }) hg]
    | error e d =>
      rw [lift_reader_fail (hrun.trans hg), lift_reader_fail (s := { s with cursor := c }) hg]
  | error e c =>
    have hrun : (x >>= g) s.cursor = .error e c := bind_fail hx
    rw [lift_reader_fail hrun, bind_fail (lift_reader_fail hx)]

theorem Foretold.lift_reader {α β : Type} {R : β → α → Cursor → Prop} {o : Option β} {x : Reader α}
    {s : Reading} (h : Foretold R o (x s.cursor)) :
    Foretold (fun b a t => R b a t.cursor ∧ t.parameters = s.parameters) o
      ((liftM x : Parser α) s) := by
  generalize hx : x s.cursor = r at h
  cases h with
  | ok h =>
    rw [lift_reader_run hx]
    exact .ok ⟨h, rfl⟩
  | error =>
    rw [lift_reader_fail hx]
    exact .error

/-- A list that a reader reads is one that the parser reads. -/
theorem lift_reader_commaSteps {α : Type} (step : α → Reader α) (a : α) :
    (liftM (commaSteps step a) : Parser α) =
      commaSteps (fun a => (liftM (step a) : Parser α)) a := by
  have hwithin : ∀ (bound : Nat) (a : α), (liftM (commaStepsWithin step bound a) : Parser α) =
      commaStepsWithin (fun a => (liftM (step a) : Parser α)) bound a := by
    intro bound
    induction bound with
    | zero => exact fun a => rfl
    | succ bound ih =>
      intro a
      simp only [commaStepsWithin, lift_reader_bind]
      congr 1
      funext found
      cases found with
      | true =>
        simp only [↓reduceIte, lift_reader_bind, ih]
      | false => rfl
  simp only [commaSteps, lift_reader_bind, hwithin]
  rfl

end DataChange
