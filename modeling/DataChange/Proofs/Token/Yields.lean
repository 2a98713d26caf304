import DataChange.Proofs.Copy.Tokens

/-!
# Readings of given tokens

`Yields x taken rest a` says that, before the tokens `taken` and then `rest`, the parser `x` gives
`a` and stops before `rest`, whatever was read and counted before. There is a lemma for each way in
which a parser begins, so that a reading is put together in the order of the tokens.
-/

namespace DataChange

/-- Tokens that are keywords, one after the other. -/
def Spells (ks : List Keyword) (ts : List Token) : Prop :=
  ts.map (·.kind) = ks.map .keyword

instance (ks : List Keyword) (ts : List Token) : Decidable (Spells ks ts) :=
  inferInstanceAs (Decidable (_ = _))

theorem Spells.cons {k : Keyword} {ks : List Keyword} {ts : List Token} (h : Spells (k :: ks) ts) :
    ∃ x xs, ts = x :: xs ∧ x.kind = .keyword k ∧ Spells ks xs :=
  List.map_eq_cons_iff.1 h

theorem Spells.nil {ts : List Token} (h : Spells [] ts) : ts = [] :=
  List.map_eq_nil_iff.1 h

namespace Reader

variable {past ts : List Token} {t : Token}

theorem ofKind?_present {kind : TokenKind} (hk : t.kind = kind) :
    ofKind? kind ⟨past, t :: ts⟩ = .ok (some t) ⟨t :: past, ts⟩ := by
  simp only [ofKind?, bind_ok, get_ok]
  exact ⟨_, _, ⟨rfl, rfl⟩, by simp only [hk, ↓reduceIte]; rfl⟩

theorem skipSymbol_present {s : Symbol} (hk : t.kind = .symbol s) :
    skipSymbol s ⟨past, t :: ts⟩ = .ok true ⟨t :: past, ts⟩ :=
  bind_ok.2 ⟨_, _, ofKind?_present hk, rfl⟩

theorem skipSymbol_absent {s : Symbol} (h : Lacks (.symbol s) ts) :
    skipSymbol s ⟨past, ts⟩ = .ok false ⟨past, ts⟩ :=
  bind_ok.2 ⟨none, _, ofKind?_absent fun t _ ht => h t (congrArg List.head? ht), rfl⟩

theorem skipKeyword_present {k : Keyword} (hk : t.kind = .keyword k) :
    skipKeyword k ⟨past, t :: ts⟩ = .ok true ⟨t :: past, ts⟩ :=
  bind_ok.2 ⟨_, _, ofKind?_present hk, rfl⟩

/-- Another keyword is not skipped. -/
theorem skipKeyword_other {k k' : Keyword} (h : t.kind = .keyword k') (hk : k' ≠ k) :
    skipKeyword k ⟨past, t :: ts⟩ = .ok false ⟨past, t :: ts⟩ := by
  refine skipKeyword_absent fun t' ts' ht => ?_
  obtain ⟨rfl, -⟩ := List.cons.inj ht
  simpa [h] using hk

theorem ofKind_present {kind : TokenKind} {expected : Expected} (hk : t.kind = kind) :
    ofKind kind expected ⟨past, t :: ts⟩ = .ok t ⟨t :: past, ts⟩ := by
  simp only [ofKind, bind_ok, get_ok]
  exact ⟨_, _, ⟨rfl, rfl⟩, by simp only [hk, ↓reduceIte]; rfl⟩

theorem keyword_present {k : Keyword} (hk : t.kind = .keyword k) :
    keyword k ⟨past, t :: ts⟩ = .ok t ⟨t :: past, ts⟩ :=
  ofKind_present hk

end Reader

/-- Before some tokens and the rest, a parser takes these tokens and gives a result. -/
def Yields {α : Type} (x : Parser α) (taken rest : List Token) (a : α) : Prop :=
  ∀ past n, x ⟨⟨past, taken ++ rest⟩, n⟩ = .ok a ⟨⟨taken.reverse ++ past, rest⟩, n⟩

namespace Yields

variable {α β : Type} {taken ts rest : List Token} {t : Token} {a : α} {b : β}

theorem pure (a : α) (rest : List Token) : Yields (pure a) [] rest a :=
  fun _ _ => rfl

theorem bind {x : Parser α} {f : α → Parser β} (hx : Yields x taken (ts ++ rest) a)
    (hf : Yields (f a) ts rest b) : Yields (x >>= f) (taken ++ ts) rest b := by
  intro past n
  rw [List.append_assoc, bind_ok]
  exact ⟨a, _, hx past n, by simpa using hf (taken.reverse ++ past) n⟩

/-- A sequence whose second part takes no tokens. -/
theorem last {x : Parser α} {f : α → Parser β} (hx : Yields x ts rest a)
    (hf : Yields (f a) [] rest b) : Yields (x >>= f) ts rest b :=
  fun past n => bind_ok.2 ⟨a, _, hx past n, hf (ts.reverse ++ past) n⟩

/-- A sequence whose first part takes no tokens. -/
theorem look {x : Parser α} {f : α → Parser β} (hx : Yields x [] (ts ++ rest) a)
    (hf : Yields (f a) ts rest b) : Yields (x >>= f) ts rest b :=
  bind hx hf

/-- A parser that looks at its state first. -/
theorem get {f : Reading → Parser β}
    (hf : ∀ past n, Yields (f ⟨⟨past, ts ++ rest⟩, n⟩) ts rest b) :
    Yields (MonadState.get >>= f) ts rest b :=
  fun past n => bind_ok.2 ⟨_, _, get_ok.2 ⟨rfl, rfl⟩, hf past n past n⟩

/-- A sequence whose first part reads one token. -/
theorem cons {x : Reader α} {f : α → Parser β}
    (hx : ∀ past, x ⟨past, t :: (ts ++ rest)⟩ = .ok a ⟨t :: past, ts ++ rest⟩)
    (hf : Yields (f a) ts rest b) : Yields ((liftM x : Parser α) >>= f) (t :: ts) rest b := by
  have htoken : Yields (liftM x : Parser α) [t] (ts ++ rest) a :=
    fun past _ => lift_reader_run (hx past)
  exact htoken.bind hf

section

variable {f : Token → Parser β}

theorem current (hf : Yields (f t) (t :: ts) rest b) :
    Yields ((liftM Reader.current : Parser Token) >>= f) (t :: ts) rest b :=
  look (fun _ _ => rfl) hf

theorem next (hf : Yields (f t) ts rest b) :
    Yields ((liftM Reader.next : Parser Token) >>= f) (t :: ts) rest b :=
  cons (fun _ => Reader.next_run) hf

theorem symbol {s : Symbol} (hk : t.kind = .symbol s) (hf : Yields (f t) ts rest b) :
    Yields ((liftM (Reader.symbol s) : Parser Token) >>= f) (t :: ts) rest b :=
  cons (fun _ => Reader.ofKind_present hk) hf

theorem keyword {k : Keyword} (hk : t.kind = .keyword k) (hf : Yields (f t) ts rest b) :
    Yields ((liftM (Reader.keyword k) : Parser Token) >>= f) (t :: ts) rest b :=
  cons (fun _ => Reader.ofKind_present hk) hf

end

section

variable {f : Bool → Parser β}

theorem skipSymbol {s : Symbol} (hk : t.kind = .symbol s) (hf : Yields (f true) ts rest b) :
    Yields ((liftM (Reader.skipSymbol s) : Parser Bool) >>= f) (t :: ts) rest b :=
  cons (fun _ => Reader.skipSymbol_present hk) hf

theorem noSymbol {s : Symbol} (h : Lacks (.symbol s) (ts ++ rest))
    (hf : Yields (f false) ts rest b) :
    Yields ((liftM (Reader.skipSymbol s) : Parser Bool) >>= f) ts rest b :=
  look (fun _ _ => lift_reader_run (Reader.skipSymbol_absent h)) hf

theorem skipKeyword {k : Keyword} (hk : t.kind = .keyword k) (hf : Yields (f true) ts rest b) :
    Yields ((liftM (Reader.skipKeyword k) : Parser Bool) >>= f) (t :: ts) rest b :=
  cons (fun _ => Reader.skipKeyword_present hk) hf

theorem noKeyword {k : Keyword} (h : Lacks (.keyword k) (ts ++ rest))
    (hf : Yields (f false) ts rest b) :
    Yields ((liftM (Reader.skipKeyword k) : Parser Bool) >>= f) ts rest b :=
  look (fun _ _ => lift_reader_run
    (Reader.skipKeyword_absent fun t _ ht => h t (congrArg List.head? ht))) hf

end

theorem remaining {f : Nat → Parser β} (hf : Yields (f (ts ++ rest).length) ts rest b) :
    Yields ((liftM remaining : Parser Nat) >>= f) ts rest b :=
  look (fun _ _ => rfl) hf

end Yields

/-! ## Lists -/

/-- Items are read one by one, with a comma before each of them. -/
inductive Yields.Further {α : Type} (item : Parser α) (rest : List Token) :
    List Token → List α → Prop
  | ended : Further item rest [] []
  | more {comma : Token} {taken ts : List Token} {a : α} {as : List α}
      (hcomma : comma.kind = .symbol .comma) (hitem : Yields item taken (ts ++ rest) a)
      (hmore : Further item rest ts as) : Further item rest (comma :: (taken ++ ts)) (a :: as)

namespace Yields

variable {α : Type} {item : Parser α} {taken ts rest : List Token} {a : α} {as : List α}

/-- The loop over the items after the first one. -/
theorem commaStepsWithin (h : Further item rest ts as) (hrest : Lacks (.symbol .comma) rest)
    {bound : Nat} (hbound : (ts ++ rest).length ≤ bound) (before : List α) :
    Yields (DataChange.commaStepsWithin (fun items => return items ++ [← item]) bound before) ts
      rest (before ++ as) := by
  induction h generalizing bound before with
  | ended =>
    rw [List.append_nil]
    cases bound with
    | zero => exact pure before rest
    | succ bound => exact noSymbol hrest (pure before rest)
  | @more comma taken ts a as hcomma hitem hmore ih =>
    obtain ⟨bound, rfl⟩ : ∃ n, bound = n + 1 := ⟨bound - 1, by simp at hbound; omega⟩
    have hlength : (ts ++ rest).length ≤ bound := by simp at hbound ⊢; omega
    have hlater := ih hlength (before ++ [a])
    rw [List.append_assoc] at hlater
    refine skipSymbol hcomma (bind (a := before ++ [a]) ?_ hlater)
    exact last hitem (pure _ _)

theorem commaSeparated (hitem : Yields item taken (ts ++ rest) a) (h : Further item rest ts as)
    (hrest : Lacks (.symbol .comma) rest) :
    Yields (DataChange.commaSeparated item) (taken ++ ts) rest (a :: as) := by
  refine bind (a := [a]) (last hitem (pure _ _)) (remaining ?_)
  exact commaStepsWithin h hrest (Nat.le_refl _) [a]

/-- One item alone. -/
theorem commaSeparated_single (hitem : Yields item ts rest a)
    (hrest : Lacks (.symbol .comma) rest) :
    Yields (DataChange.commaSeparated item) ts rest [a] := by
  have hnone : Further item rest [] [] := .ended
  have hlist := commaSeparated hitem hnone hrest
  rwa [List.append_nil] at hlist

end Yields

end DataChange
