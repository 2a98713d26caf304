import DataChange.Proofs.Runs

/-!
# The tokens that a reader takes

A reader that succeeds has taken some tokens from the front of those to come. For each reader of
the cursor the tokens taken are given: `c.rest = taken ++ c'.rest`. In a parser the same is said of
its states: `s.Takes x t` and `s.TakesBody body t`. A list is read up to where no comma follows
(`commaSteps_lacks`).
-/

namespace DataChange

/-! ## Closing brackets -/

theorem not_openParen {t : Token} (h : t.isSymbol .closeParen = true) :
    t.isSymbol .openParen = false := by
  simp only [Token.isSymbol, decide_eq_true_eq] at h
  simp [Token.isSymbol, h]

/-- The tokens of a bracketed body, the bracket that closes it and the tokens after it; these do not
matter for where the body ends. -/
theorem splitClosing_eq : ∀ {ts : List Token} {depth : Nat} {body rest : List Token},
    splitClosing depth ts = some (body, rest) →
      ∃ close, close.isSymbol .closeParen = true ∧ ts = body ++ close :: rest ∧
        ∀ more, splitClosing depth (body ++ close :: more) = some (body, more)
  | [], _, _, _, h => by simp [splitClosing] at h
  | t :: ts, depth, body, rest, h => by
    unfold splitClosing at h
    split at h
    · rename_i ho
      obtain ⟨⟨b, r⟩, hb, he⟩ := Option.map_eq_some_iff.1 h
      cases he
      obtain ⟨close, hc, rfl, hm⟩ := splitClosing_eq hb
      refine ⟨close, hc, rfl, fun more => ?_⟩
      rw [List.cons_append]
      unfold splitClosing
      rw [if_pos ho, hm, Option.map_some]
    · rename_i ho
      split at h
      · rename_i hc
        cases depth with
        | zero =>
          cases h
          refine ⟨t, hc, rfl, fun more => ?_⟩
          rw [List.nil_append, splitClosing, if_neg ho, if_pos hc]
        | succ depth =>
          obtain ⟨⟨b, r⟩, hb, he⟩ := Option.map_eq_some_iff.1 h
          cases he
          obtain ⟨close, hc', rfl, hm⟩ := splitClosing_eq hb
          refine ⟨close, hc', rfl, fun more => ?_⟩
          rw [List.cons_append, splitClosing, if_neg ho, if_pos hc]
          simp only [hm, Option.map_some]
      · rename_i hc
        obtain ⟨⟨b, r⟩, hb, he⟩ := Option.map_eq_some_iff.1 h
        cases he
        obtain ⟨close, hc', rfl, hm⟩ := splitClosing_eq hb
        refine ⟨close, hc', rfl, fun more => ?_⟩
        rw [List.cons_append]
        unfold splitClosing
        rw [if_neg ho, if_neg hc, hm, Option.map_some]

/-- Inside further brackets the body of a bracket is passed over. -/
theorem splitClosing_within : ∀ {ts : List Token} {k : Nat} {body rest : List Token},
    splitClosing k ts = some (body, rest) → ∃ close, ts = body ++ close :: rest ∧
      ∀ depth more, splitClosing (depth + 1 + k) (body ++ close :: more) =
        (splitClosing depth more).map fun (b, r) => (body ++ close :: b, r)
  | [], _, _, _, h => by simp [splitClosing] at h
  | t :: ts, k, body, rest, h => by
    unfold splitClosing at h
    split at h
    · rename_i ho
      obtain ⟨⟨b, r⟩, hb, he⟩ := Option.map_eq_some_iff.1 h
      cases he
      obtain ⟨close, rfl, hm⟩ := splitClosing_within hb
      refine ⟨close, rfl, fun depth more => ?_⟩
      rw [List.cons_append]
      conv => lhs; unfold splitClosing
      rw [if_pos ho, Nat.add_assoc _ k 1, hm, Option.map_map]
      rfl
    · rename_i ho
      split at h
      · rename_i hc
        cases k with
        | zero =>
          cases h
          refine ⟨t, rfl, fun depth more => ?_⟩
          rw [List.nil_append, Nat.add_zero, splitClosing, if_neg ho, if_pos hc]
          rfl
        | succ k =>
          obtain ⟨⟨b, r⟩, hb, he⟩ := Option.map_eq_some_iff.1 h
          cases he
          obtain ⟨close, rfl, hm⟩ := splitClosing_within hb
          refine ⟨close, rfl, fun depth more => ?_⟩
          rw [List.cons_append, ← Nat.add_assoc, splitClosing, if_neg ho, if_pos hc]
          simp only [hm, Option.map_map]
          rfl
      · rename_i hc
        obtain ⟨⟨b, r⟩, hb, he⟩ := Option.map_eq_some_iff.1 h
        cases he
        obtain ⟨close, rfl, hm⟩ := splitClosing_within hb
        refine ⟨close, rfl, fun depth more => ?_⟩
        rw [List.cons_append]
        conv => lhs; unfold splitClosing
        rw [if_neg ho, if_neg hc, hm, Option.map_map]
        rfl

/-! ## Single tokens -/

namespace Reader

variable {c c' : Cursor} {t : Token}

theorem current_ok (h : current c = .ok t c') : c' = c ∧ ∃ ts, c.rest = t :: ts := by
  simp only [current, bind_ok, get_ok] at h
  obtain ⟨_, _, ⟨rfl, rfl⟩, h⟩ := h
  cases hr : c.rest with
  | nil =>
    simp only [hr] at h
    exact (throw_ok.1 h).elim
  | cons u ts =>
    simp only [hr] at h
    obtain ⟨rfl, rfl⟩ := pure_ok.1 h
    exact ⟨rfl, ts, rfl⟩

theorem next_ok (h : next c = .ok t c') : c.rest = t :: c'.rest := by
  simp only [next, bind_ok, modify_ok, pure_ok] at h
  obtain ⟨_, _, hc, _, _, rfl, rfl, rfl⟩ := h
  obtain ⟨rfl, ts, hr⟩ := current_ok hc
  simp [Cursor.advance, hr]

theorem ofKind_ok {kind : TokenKind} {expected : Expected} (h : ofKind kind expected c = .ok t c') :
    t.kind = kind ∧ c.rest = t :: c'.rest := by
  simp only [ofKind, bind_ok, get_ok] at h
  obtain ⟨_, _, ⟨rfl, rfl⟩, h⟩ := h
  cases hr : c.rest with
  | nil =>
    simp only [hr] at h
    exact (throw_ok.1 h).elim
  | cons u ts =>
    simp only [hr] at h
    split at h
    · rename_i hk
      have hn := next_ok h
      obtain ⟨rfl, -⟩ := List.cons.inj (hr.symm.trans hn)
      exact ⟨hk, hr ▸ hn⟩
    · exact (throw_ok.1 h).elim

theorem keyword_ok {k : Keyword} (h : keyword k c = .ok t c') :
    t.kind = .keyword k ∧ c.rest = t :: c'.rest :=
  ofKind_ok h

theorem symbol_ok {s : Symbol} (h : symbol s c = .ok t c') :
    t.kind = .symbol s ∧ c.rest = t :: c'.rest :=
  ofKind_ok h

theorem identifier_ok (h : identifier c = .ok t c') :
    t.isIdentifier = true ∧ c.rest = t :: c'.rest := by
  simp only [identifier, bind_ok] at h
  obtain ⟨u, d, hc, h⟩ := h
  obtain ⟨rfl, ts, hr⟩ := current_ok hc
  split at h
  · rename_i hi
    have hn := next_ok h
    obtain ⟨rfl, -⟩ := List.cons.inj (hr.symm.trans hn)
    exact ⟨hi, hn⟩
  · exact (throw_ok.1 h).elim

/-! ## Tokens that may be missing -/

theorem ofKind?_some {kind : TokenKind} (h : ofKind? kind c = .ok (some t) c') :
    t.kind = kind ∧ c.rest = t :: c'.rest := by
  simp only [ofKind?, bind_ok, get_ok] at h
  obtain ⟨_, _, ⟨rfl, rfl⟩, h⟩ := h
  cases hr : c.rest with
  | nil => simp [hr, pure_ok] at h
  | cons u ts =>
    simp only [hr] at h
    split at h
    · rename_i hk
      simp only [bind_ok, set_ok, pure_ok, Option.some.injEq] at h
      obtain ⟨_, _, rfl, rfl, rfl⟩ := h
      exact ⟨hk, by simp [Cursor.advance, hr]⟩
    · simp [pure_ok] at h

theorem ofKind?_none {kind : TokenKind} (h : ofKind? kind c = .ok none c') :
    c' = c ∧ ∀ t ts, c.rest = t :: ts → t.kind ≠ kind := by
  simp only [ofKind?, bind_ok, get_ok] at h
  obtain ⟨_, _, ⟨rfl, rfl⟩, h⟩ := h
  cases hr : c.rest with
  | nil =>
    simp only [hr] at h
    obtain ⟨-, rfl⟩ := pure_ok.1 h
    exact ⟨rfl, fun t ts ht => by cases ht⟩
  | cons u ts =>
    simp only [hr] at h
    split at h
    · simp only [bind_ok, set_ok, pure_ok, reduceCtorEq, false_and, and_false, exists_false] at h
    · rename_i hk
      obtain ⟨-, rfl⟩ := pure_ok.1 h
      refine ⟨rfl, fun t ts' ht => ?_⟩
      cases ht
      exact hk

theorem skipKeyword_true {k : Keyword} (h : skipKeyword k c = .ok true c') :
    ∃ t, t.kind = .keyword k ∧ c.rest = t :: c'.rest := by
  simp only [skipKeyword, bind_ok, pure_ok] at h
  obtain ⟨o, _, ho, hs, rfl⟩ := h
  obtain ⟨t, rfl⟩ := Option.isSome_iff_exists.1 hs
  exact ⟨t, ofKind?_some ho⟩

theorem skipKeyword_false {k : Keyword} (h : skipKeyword k c = .ok false c') :
    c' = c ∧ ∀ t ts, c.rest = t :: ts → t.kind ≠ .keyword k := by
  simp only [skipKeyword, bind_ok, pure_ok] at h
  obtain ⟨o, _, ho, hs, rfl⟩ := h
  obtain rfl : o = none := by simpa using hs
  exact ofKind?_none ho

theorem skipSymbol_true {s : Symbol} (h : skipSymbol s c = .ok true c') :
    ∃ t, t.kind = .symbol s ∧ c.rest = t :: c'.rest := by
  simp only [skipSymbol, bind_ok, pure_ok] at h
  obtain ⟨o, _, ho, hs, rfl⟩ := h
  obtain ⟨t, rfl⟩ := Option.isSome_iff_exists.1 hs
  exact ⟨t, ofKind?_some ho⟩

theorem skipSymbol_false {s : Symbol} (h : skipSymbol s c = .ok false c') :
    c' = c ∧ ∀ t ts, c.rest = t :: ts → t.kind ≠ .symbol s := by
  simp only [skipSymbol, bind_ok, pure_ok] at h
  obtain ⟨o, _, ho, hs, rfl⟩ := h
  obtain rfl : o = none := by simpa using hs
  exact ofKind?_none ho

theorem remaining_ok {n : Nat} (h : remaining c = .ok n c') : n = c.rest.length ∧ c' = c := by
  simp only [remaining, bind_ok, get_ok, pure_ok] at h
  obtain ⟨_, _, ⟨rfl, rfl⟩, rfl, rfl⟩ := h
  exact ⟨rfl, rfl⟩

/-! ## Brackets and the end -/

theorem openParens_ok {n : Nat} (h : openParens c = .ok n c') :
    ∃ opens, opens.length = n ∧ (∀ t ∈ opens, t.isSymbol .openParen = true) ∧
      c.rest = opens ++ c'.rest := by
  simp only [openParens, bind_ok, get_ok, set_ok, pure_ok] at h
  obtain ⟨_, _, ⟨rfl, rfl⟩, _, _, rfl, rfl, rfl⟩ := h
  refine ⟨c.rest.takeWhile (·.isSymbol .openParen), rfl, fun t ht => ?_, ?_⟩
  · exact List.all_eq_true.1 List.all_takeWhile t ht
  · rw [Cursor.advance, List.prefix_iff_eq_append.1 (List.takeWhile_prefix _)]

theorem closeParens_ok : ∀ {n : Nat} {c c' : Cursor} {u : Unit}, closeParens n c = .ok u c' →
    ∃ closes, closes.length = n ∧ (∀ t ∈ closes, t.isSymbol .closeParen = true) ∧
      c.rest = closes ++ c'.rest
  | 0, c, c', _, h => by
    obtain ⟨-, rfl⟩ := pure_ok.1 h
    exact ⟨[], rfl, by simp, rfl⟩
  | n + 1, c, c', _, h => by
    simp only [closeParens, bind_ok] at h
    obtain ⟨t, d, ht, h⟩ := h
    obtain ⟨hk, hr⟩ := symbol_ok ht
    obtain ⟨closes, rfl, hall, hc⟩ := closeParens_ok h
    refine ⟨t :: closes, rfl, ?_, by rw [hr, hc]; rfl⟩
    simpa [Token.isSymbol, hk] using hall

theorem finish_ok {u : Unit} (h : finish c = .ok u c') :
    c.rest = [] ∨ ∃ t, t.kind = .symbol .semicolon ∧ c.rest = [t] := by
  simp only [finish, bind_ok, get_ok] at h
  obtain ⟨o, d, ho, _, _, ⟨rfl, rfl⟩, h⟩ := h
  cases hr : d.rest with
  | nil =>
    cases o with
    | none =>
      obtain ⟨rfl, -⟩ := ofKind?_none ho
      exact .inl hr
    | some t =>
      obtain ⟨hk, hc⟩ := ofKind?_some ho
      exact .inr ⟨t, hk, by rw [hc, hr]⟩
  | cons t ts =>
    simp only [hr] at h
    exact (throw_ok.1 h).elim

theorem parenthesised_ok {body : List Token} (h : parenthesised c = .ok body c') :
    splitClosing 0 c.rest = some (body, c'.rest) := by
  simp only [parenthesised, bind_ok, get_ok] at h
  obtain ⟨_, _, ⟨rfl, rfl⟩, h⟩ := h
  cases hs : splitClosing 0 c.rest with
  | none => simp [hs, bind_ok, throw_ok] at h
  | some split =>
    obtain ⟨b, r⟩ := split
    simp only [hs, bind_ok, set_ok, pure_ok] at h
    obtain ⟨_, _, rfl, rfl, rfl⟩ := h
    obtain ⟨close, -, he, -⟩ := splitClosing_eq hs
    have hd : (c.advance (b.length + 1)).rest = r := by
      simp only [Cursor.advance, he]
      rw [List.drop_append]
      simp
    rw [hd]

end Reader

/-! ## Tokens taken by a parser -/

namespace Reading

/-- Taking the token `x` leads from `s` to `t`. -/
structure Takes (s : Reading) (x : Token) (t : Reading) : Prop where
  rest : s.cursor.rest = x :: t.cursor.rest
  parameters : t.parameters = s.parameters

/-- Taking a bracketed body and the bracket that closes it leads from `s` to `t`. -/
structure TakesBody (s : Reading) (body : List Token) (t : Reading) : Prop where
  split : splitClosing 0 s.cursor.rest = some (body, t.cursor.rest)
  parameters : t.parameters = s.parameters

variable {s t : Reading} {x : Token}

theorem Takes.suffix (h : s.Takes x t) : t.cursor.rest <:+ s.cursor.rest :=
  ⟨[x], by rw [h.rest]; rfl⟩

theorem next_takes (h : (liftM Reader.next : Parser Token) s = .ok x t) : s.Takes x t := by
  obtain ⟨c, hc, rfl⟩ := lift_reader_ok.1 h
  exact ⟨Reader.next_ok hc, rfl⟩

theorem symbol_takes {k : Symbol} (h : (liftM (Reader.symbol k) : Parser Token) s = .ok x t) :
    s.Takes x t ∧ x.kind = .symbol k := by
  obtain ⟨c, hc, rfl⟩ := lift_reader_ok.1 h
  obtain ⟨hk, hr⟩ := Reader.symbol_ok hc
  exact ⟨⟨hr, rfl⟩, hk⟩

theorem keyword_takes {k : Keyword} (h : (liftM (Reader.keyword k) : Parser Token) s = .ok x t) :
    s.Takes x t ∧ x.kind = .keyword k := by
  obtain ⟨c, hc, rfl⟩ := lift_reader_ok.1 h
  obtain ⟨hk, hr⟩ := Reader.keyword_ok hc
  exact ⟨⟨hr, rfl⟩, hk⟩

/-- A symbol that may be missing: either it is taken or nothing happens. -/
theorem skipSymbol_takes {k : Symbol} {found : Bool}
    (h : (liftM (Reader.skipSymbol k) : Parser Bool) s = .ok found t) :
    (found = true ∧ ∃ x, s.Takes x t ∧ x.kind = .symbol k) ∨ (found = false ∧ t = s) := by
  obtain ⟨c, hc, rfl⟩ := lift_reader_ok.1 h
  cases found with
  | true =>
    obtain ⟨x, hk, hr⟩ := Reader.skipSymbol_true hc
    exact .inl ⟨rfl, x, ⟨hr, rfl⟩, hk⟩
  | false =>
    obtain ⟨rfl, -⟩ := Reader.skipSymbol_false hc
    exact .inr ⟨rfl, rfl⟩

/-- A keyword that may be missing: either it is taken or nothing happens. -/
theorem skipKeyword_takes {k : Keyword} {found : Bool}
    (h : (liftM (Reader.skipKeyword k) : Parser Bool) s = .ok found t) :
    (found = true ∧ ∃ x, s.Takes x t ∧ x.kind = .keyword k) ∨ (found = false ∧ t = s) := by
  obtain ⟨c, hc, rfl⟩ := lift_reader_ok.1 h
  cases found with
  | true =>
    obtain ⟨x, hk, hr⟩ := Reader.skipKeyword_true hc
    exact .inl ⟨rfl, x, ⟨hr, rfl⟩, hk⟩
  | false =>
    obtain ⟨rfl, -⟩ := Reader.skipKeyword_false hc
    exact .inr ⟨rfl, rfl⟩

theorem parenthesised_takes {body : List Token}
    (h : (liftM Reader.parenthesised : Parser (List Token)) s = .ok body t) :
    s.TakesBody body t := by
  obtain ⟨c, hc, rfl⟩ := lift_reader_ok.1 h
  exact ⟨Reader.parenthesised_ok hc, rfl⟩

/-- Counting the tokens to come takes none. -/
theorem remaining_stays {n : Nat} (h : (liftM remaining : Parser Nat) s = .ok n t) : t = s := by
  obtain ⟨c, hc, rfl⟩ := lift_reader_ok.1 h
  obtain ⟨-, rfl⟩ := Reader.remaining_ok hc
  rfl

end Reading

/-! ## Where a list ends -/

/-- The kind of the first token is another one, or there is none. -/
def Lacks (kind : TokenKind) (ts : List Token) : Prop :=
  ∀ t ∈ ts.head?, t.kind ≠ kind

theorem Lacks.cons {kind : TokenKind} {t : Token} {ts : List Token} (h : t.kind ≠ kind) :
    Lacks kind (t :: ts) := by
  intro t' ht
  obtain rfl : t = t' := Option.some.inj ht
  exact h

theorem lacks_nil {kind : TokenKind} : Lacks kind [] := by
  intro t ht
  cases ht

/-- A loop that may go on for as long as there are tokens, and whose steps put none back, stops where
no comma follows. -/
theorem commaStepsWithin_lacks {τ : Type} {step : τ → Parser τ}
    (hstep : ∀ a s b t, step a s = .ok b t → t.cursor.rest <:+ s.cursor.rest) :
    ∀ (bound : Nat) {a b : τ} {s t : Reading}, s.cursor.rest.length ≤ bound →
      commaStepsWithin step bound a s = .ok b t → Lacks (.symbol .comma) t.cursor.rest
  | 0, a, b, s, t, hbound, h => by
    obtain ⟨-, rfl⟩ := pure_ok.1 h
    rw [List.length_eq_zero_iff.1 (Nat.le_zero.1 hbound)]
    exact lacks_nil
  | bound + 1, a, b, s, t, hbound, h => by
    simp only [commaStepsWithin, bind_ok] at h
    obtain ⟨found, u, hskip, h⟩ := h
    obtain ⟨c, hc, rfl⟩ := lift_reader_ok.1 hskip
    cases found with
    | true =>
      simp only [↓reduceIte, bind_ok] at h
      obtain ⟨a', v, ha, h⟩ := h
      -- the comma is a token less
      obtain ⟨x, -, hrest⟩ := Reader.skipSymbol_true hc
      have hsteps : v.cursor.rest.length ≤ c.rest.length := (hstep _ _ _ _ ha).length_le
      rw [hrest, List.length_cons] at hbound
      exact commaStepsWithin_lacks hstep bound (by omega) h
    | false =>
      obtain ⟨-, rfl⟩ := pure_ok.1 h
      obtain ⟨rfl, hother⟩ := Reader.skipSymbol_false hc
      intro x hx
      obtain ⟨xs, hrest⟩ := List.head?_eq_some_iff.1 hx
      exact hother x xs hrest

theorem commaSteps_lacks {τ : Type} {step : τ → Parser τ}
    (hstep : ∀ a s b t, step a s = .ok b t → t.cursor.rest <:+ s.cursor.rest) {a b : τ}
    {s t : Reading} (h : commaSteps step a s = .ok b t) :
    Lacks (.symbol .comma) t.cursor.rest := by
  simp only [commaSteps, bind_ok] at h
  obtain ⟨a', u, -, n, v, hcount, h⟩ := h
  obtain ⟨c, hc, rfl⟩ := lift_reader_ok.1 hcount
  obtain ⟨rfl, rfl⟩ := Reader.remaining_ok hc
  exact commaStepsWithin_lacks hstep _ (Nat.le_refl _) h

end DataChange
