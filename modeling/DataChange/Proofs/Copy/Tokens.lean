import DataChange.Proofs.Token.Consumed
import Mathlib.Data.List.Forall2

/-!
# Computations on copied tokens

One computation mirrors another if from paired states it succeeds wherever the other one does, with
a related result and in paired states again (`Mirrors`). The states here are cursors over tokens and
over a copy of them. An exact copy is followed by more tokens; one that is not exact stands at
another place of a text, and is of the tokens that a SET clause without subqueries is made of.
-/

namespace DataChange

/-! ## Computations -/

/-- How the states of two computations are paired, and how much is left to read in one. -/
structure Pairing (σ : Type) where
  Paired : σ → σ → Prop
  left : σ → Nat

/-- The second computation does what the first one does, which reads at least some tokens. -/
def Mirrors {ε σ α β : Type} (P : Pairing σ) (least : Nat) (R : α → β → Prop)
    (x : EStateM ε σ α) (y : EStateM ε σ β) : Prop :=
  ∀ ⦃s s' : σ⦄ ⦃a : α⦄ ⦃t : σ⦄, P.Paired s s' → x s = .ok a t →
    ∃ b t', y s' = .ok b t' ∧ R a b ∧ P.Paired t t' ∧ P.left t + least ≤ P.left s

namespace Mirrors

variable {ε σ α β γ δ : Type} {P : Pairing σ} {k l : Nat} {R : α → β → Prop} {S : γ → δ → Prop}
  {x : EStateM ε σ α} {y : EStateM ε σ β}

theorem pure {a : α} {b : β} (h : R a b) :
    Mirrors P 0 R (pure a : EStateM ε σ α) (pure b : EStateM ε σ β) := by
  intro s s' a' t hs hx
  obtain ⟨rfl, rfl⟩ := pure_ok.1 hx
  exact ⟨b, s', rfl, h, hs, Nat.le_refl _⟩

theorem mono (h : Mirrors P l R x y) (hle : k ≤ l) : Mirrors P k R x y := by
  intro s s' a t hs hx
  obtain ⟨b, t', hb, hab, ht, hl⟩ := h hs hx
  exact ⟨b, t', hb, hab, ht, by omega⟩

section

variable {f : α → EStateM ε σ γ} {g : β → EStateM ε σ δ}

theorem sequence (hx : Mirrors P k R x y) (hf : ∀ a b, R a b → Mirrors P l S (f a) (g b)) :
    Mirrors P (k + l) S (x >>= f) (y >>= g) := by
  intro s s' c u hs h
  obtain ⟨a, t, ha, hc⟩ := bind_ok.1 h
  obtain ⟨b, t', hb, hab, ht, hk⟩ := hx hs ha
  obtain ⟨d, u', hd, hcd, hu, hl⟩ := hf a b hab ht hc
  exact ⟨d, u', bind_ok.2 ⟨b, t', hb, hd⟩, hcd, hu, by omega⟩

/-- A sequence that reads at least what its first part reads. -/
theorem bind (hx : Mirrors P k R x y) (hf : ∀ a b, R a b → Mirrors P 0 S (f a) (g b)) :
    Mirrors P k S (x >>= f) (y >>= g) :=
  hx.sequence hf

/-- A sequence that reads at least what its second part reads. -/
theorem after (hx : Mirrors P k R x y) (hf : ∀ a b, R a b → Mirrors P l S (f a) (g b)) :
    Mirrors P l S (x >>= f) (y >>= g) :=
  (hx.sequence hf).mono (Nat.le_add_left l k)

end

theorem imp {R' : α → β → Prop} (h : Mirrors P k R x y) (hR : ∀ a b, R a b → R' a b) :
    Mirrors P k R' x y := by
  intro s s' a t hs hx
  obtain ⟨b, t', hb, hab, ht, hk⟩ := h hs hx
  exact ⟨b, t', hb, hR a b hab, ht, hk⟩

/-- What both do depends on where they are. -/
theorem get {f : σ → EStateM ε σ γ} {g : σ → EStateM ε σ δ}
    (h : ∀ s s', P.Paired s s' → Mirrors P k S (f s) (g s')) :
    Mirrors P k S (get >>= f) (get >>= g) := by
  intro s s' c t hs hx
  obtain ⟨_, _, hget, hc⟩ := bind_ok.1 hx
  obtain ⟨rfl, rfl⟩ := get_ok.1 hget
  obtain ⟨d, t', hd, hrest⟩ := h s s' hs hs hc
  exact ⟨d, t', bind_ok.2 ⟨s', s', get_ok.2 ⟨rfl, rfl⟩, hd⟩, hrest⟩

/-- Nothing mirrors a failure wrongly. -/
theorem throw (e : ε) : Mirrors P k R (throw e : EStateM ε σ α) y := by
  intro s s' a t _ hx
  exact (throw_ok.1 hx).elim

theorem reject {x : EStateM Failure σ β} (e : Error) :
    Mirrors P k R (reject e : EStateM Failure σ α) x :=
  .throw _

/-- One more item of a list. -/
theorem append (h : Mirrors P k R x y) (as : List α) (bs : List β) (hab : List.Forall₂ R as bs) :
    Mirrors P k (List.Forall₂ R) (do return as ++ [← x]) (do return bs ++ [← y]) :=
  h.bind fun _ _ hR => .pure (List.rel_append hab (.cons hR .nil))

end Mirrors

/-! ## Lists -/

section

variable {ε σ τ υ : Type} [MonadLiftT Reader (EStateM ε σ)] {P : Pairing σ} {R : τ → υ → Prop}

/-- A pairing of states at tokens: before the end both see a comma or none does, and what is left is
counted. -/
structure Pairing.SeesCommas (ε : Type) [MonadLiftT Reader (EStateM ε σ)] (P : Pairing σ) :
    Prop where
  comma : ∀ {s s' : σ} {found : Bool} {t : σ}, P.Paired s s' → 0 < P.left s →
    (liftM (Reader.skipSymbol .comma) : EStateM ε σ Bool) s = .ok found t →
    ∃ t', (liftM (Reader.skipSymbol .comma) : EStateM ε σ Bool) s' = .ok found t' ∧
      P.Paired t t' ∧ P.left t + found.toNat ≤ P.left s
  ended : ∀ {s : σ}, P.left s = 0 →
    (liftM (Reader.skipSymbol .comma) : EStateM ε σ Bool) s = .ok false s
  counted : ∀ {s s' : σ}, P.Paired s s' → ∃ m,
    (liftM remaining : EStateM ε σ Nat) s = .ok (P.left s) s ∧
    (liftM remaining : EStateM ε σ Nat) s' = .ok m s' ∧ P.left s ≤ m

/-- No comma comes after the copied tokens. -/
def Pairing.EndsLists (ε : Type) [MonadLiftT Reader (EStateM ε σ)] (P : Pairing σ) : Prop :=
  ∀ {s s' : σ}, P.Paired s s' → P.left s = 0 →
    (liftM (Reader.skipSymbol .comma) : EStateM ε σ Bool) s' = .ok false s'

/-- The second computation does what the first one does, where that stops before the end. -/
def MirrorsInside {α β : Type} (P : Pairing σ) (least : Nat) (R : α → β → Prop)
    (x : EStateM ε σ α) (y : EStateM ε σ β) : Prop :=
  ∀ ⦃s s' : σ⦄ ⦃a : α⦄ ⦃t : σ⦄, P.Paired s s' → x s = .ok a t → 0 < P.left t →
    ∃ b t', y s' = .ok b t' ∧ R a b ∧ P.Paired t t' ∧ P.left t + least ≤ P.left s

theorem Pairing.SeesCommas.comma_or_end (hP : P.SeesCommas ε) {s s' t : σ} {found : Bool}
    (hs : P.Paired s s') (hend : P.EndsLists ε ∨ 0 < P.left s)
    (h : (liftM (Reader.skipSymbol .comma) : EStateM ε σ Bool) s = .ok found t) :
    ∃ t', (liftM (Reader.skipSymbol .comma) : EStateM ε σ Bool) s' = .ok found t' ∧
      P.Paired t t' ∧ P.left t + found.toNat ≤ P.left s := by
  rcases Nat.eq_zero_or_pos (P.left s) with hleft | hleft
  · cases (hP.ended hleft).symm.trans h
    have hends : P.EndsLists ε := hend.resolve_right (by omega)
    exact ⟨s', hends hs hleft, hs, Nat.le_refl _⟩
  · exact hP.comma hs hleft h

variable {step : τ → EStateM ε σ τ} {step' : υ → EStateM ε σ υ}

/-- The loop over a list; the copy may look further, as there may be more after it. Where the loop
stops before the end of the copied tokens, that may be a comma. -/
theorem commaStepsWithin_mirrors (hP : P.SeesCommas ε)
    (hstep : ∀ a b, R a b → Mirrors P 0 R (step a) (step' b)) (n m : Nat) {a c : τ} {b : υ}
    {s s' t : σ} (hab : R a b) (hs : P.Paired s s') (hleft : P.left s ≤ n) (hle : n ≤ m)
    (h : commaStepsWithin step n a s = .ok c t) (hend : P.EndsLists ε ∨ 0 < P.left t) :
    ∃ d t', commaStepsWithin step' m b s' = .ok d t' ∧ R c d ∧ P.Paired t t' ∧
      P.left t ≤ P.left s := by
  -- on the fuel of the first run, which counts its tokens; the second may have more
  induction n generalizing m a b s s' with
  | zero =>
    obtain ⟨rfl, rfl⟩ := pure_ok.1 h
    have hends : P.EndsLists ε := hend.resolve_right (by omega)
    cases m with
    | zero => exact ⟨b, s', rfl, hab, hs, Nat.le_refl _⟩
    | succ m =>
      refine ⟨b, s', ?_, hab, hs, Nat.le_refl _⟩
      simp only [commaStepsWithin, bind_ok]
      exact ⟨false, s', hends hs (Nat.le_zero.1 hleft), rfl⟩
  | succ n ih =>
    cases m with
    | zero => omega
    | succ m =>
      simp only [commaStepsWithin, bind_ok] at h ⊢
      obtain ⟨found, u, hskip, h⟩ := h
      -- inside a list the tokens are not at their end: no comma would have been found there
      have hend' : P.EndsLists ε ∨ 0 < P.left s := by
        refine hend.imp_right fun hinside => Nat.pos_of_ne_zero fun hleft => ?_
        cases (hP.ended hleft).symm.trans hskip
        obtain ⟨rfl, rfl⟩ := pure_ok.1 h
        omega
      obtain ⟨u', hskip', hu, hcount⟩ := hP.comma_or_end hs hend' hskip
      cases found with
      | false =>
        obtain ⟨rfl, rfl⟩ := pure_ok.1 h
        exact ⟨b, u', ⟨false, u', hskip', rfl⟩, hab, hu, by omega⟩
      | true =>
        simp only [↓reduceIte, bind_ok] at h
        obtain ⟨a', v, ha', h⟩ := h
        obtain ⟨b', v', hb', hab', hv, hshort⟩ := hstep a b hab hu ha'
        simp only [Bool.toNat_true] at hcount
        obtain ⟨d, t', hd, hcd, ht, hfinal⟩ := ih m hab' hv (by omega) (by omega) h
        refine ⟨d, t', ⟨true, u', hskip', ?_⟩, hcd, ht, by omega⟩
        simp only [↓reduceIte, bind_ok]
        exact ⟨b', v', hb', hd⟩

theorem commaSteps_ok {k : Nat} (hP : P.SeesCommas ε)
    (hstep : ∀ a b, R a b → Mirrors P k R (step a) (step' b)) {a c : τ} {b : υ} (hab : R a b)
    {s s' t : σ} (hs : P.Paired s s') (h : commaSteps step a s = .ok c t)
    (hend : P.EndsLists ε ∨ 0 < P.left t) :
    ∃ d t', commaSteps step' b s' = .ok d t' ∧ R c d ∧ P.Paired t t' ∧
      P.left t + k ≤ P.left s := by
  simp only [commaSteps, bind_ok] at h ⊢
  obtain ⟨a', u, ha', n, v, hn, h⟩ := h
  obtain ⟨b', u', hb', hab', hu, hk⟩ := hstep a b hab hs ha'
  obtain ⟨m, hcount, hcount', hle⟩ := hP.counted hu
  obtain ⟨rfl, rfl⟩ : n = P.left u ∧ v = u := by
    simpa [eq_comm] using hn.symm.trans hcount
  obtain ⟨d, t', hd, hcd, ht, hfinal⟩ := commaStepsWithin_mirrors hP
    (fun a b hab => (hstep a b hab).mono (Nat.zero_le _)) _ m hab' hu (Nat.le_refl _) hle h hend
  exact ⟨d, t', ⟨b', u', hb', m, u', hcount', hd⟩, hcd, ht, by omega⟩

theorem commaSteps_mirrors {k : Nat} (hP : P.SeesCommas ε) (hends : P.EndsLists ε)
    (hstep : ∀ a b, R a b → Mirrors P k R (step a) (step' b)) {a : τ} {b : υ} (hab : R a b) :
    Mirrors P k R (commaSteps step a) (commaSteps step' b) :=
  fun _ _ _ _ hs h => commaSteps_ok hP hstep hab hs h (.inl hends)

section

variable {α β : Type} {Q : α → β → Prop} {k : Nat} {x : EStateM ε σ α} {y : EStateM ε σ β}

theorem commaSeparated_mirrors (hP : P.SeesCommas ε) (hends : P.EndsLists ε)
    (h : Mirrors P k Q x y) :
    Mirrors P k (List.Forall₂ Q) (commaSeparated x) (commaSeparated y) :=
  commaSteps_mirrors hP hends h.append .nil

theorem commaSeparated_inside (hP : P.SeesCommas ε) (h : Mirrors P k Q x y) :
    MirrorsInside P k (List.Forall₂ Q) (commaSeparated x) (commaSeparated y) :=
  fun _ _ _ _ hs hx hinside => commaSteps_ok hP h.append .nil hs hx (.inr hinside)

end

end

/-! ## Tokens -/

/-- Whether a token can stand in a SET clause that has no subquery and no VALUES. -/
def Token.inList (t : Token) : Bool :=
  match t.kind with
  | .keyword .SELECT | .keyword .WITH | .keyword .TABLE | .keyword .VALUES | .keyword .WHERE
  | .keyword .ORDER | .keyword .LIMIT => false
  | _ => true

/-- A token and its copy: the very same, or one of a SET clause that stands elsewhere. -/
structure Token.Copied (exact : Bool) (t t' : Token) : Prop where
  kind : t'.kind = t.kind
  text : t'.text = t.text
  same : exact = true → t' = t
  listed : exact = false → t.inList = true

namespace Token.Copied

variable {exact : Bool} {t t' : Token}

theorem isKeyword (h : t.Copied exact t') (k : Keyword) : t'.isKeyword k = t.isKeyword k := by
  simp [Token.isKeyword, h.kind]

theorem isSymbol (h : t.Copied exact t') (k : Symbol) : t'.isSymbol k = t.isSymbol k := by
  simp [Token.isSymbol, h.kind]

theorem isIdentifier (h : t.Copied exact t') : t'.isIdentifier = t.isIdentifier := by
  simp only [Token.isIdentifier, h.kind]

theorem inList (h : t.Copied exact t') : t'.inList = t.inList := by
  simp only [Token.inList, h.kind]

theorem place (h : t.Copied exact t') : exact = true → t'.fragment = t.fragment :=
  fun he => congrArg Token.fragment (h.same he)

end Token.Copied

/-- Cursors before some tokens and before their copy, with more tokens after the copy. -/
def Cursor.Copied (exact : Bool) (more : List Token) (c c' : Cursor) : Prop :=
  ∃ copy, List.Forall₂ (Token.Copied exact) c.rest copy ∧ c'.rest = copy ++ more

/-- What may come after an expression. -/
def endings : List TokenKind :=
  [.symbol .comma, .symbol .closeParen, .symbol .semicolon, .keyword .ON, .keyword .WHEN,
    .keyword .THEN, .keyword .WHERE, .keyword .ORDER, .keyword .LIMIT]

/-- Tokens that no expression goes on with. -/
def Ending (more : List Token) : Prop :=
  ∀ t ∈ more.head?, t.kind ∈ endings

theorem Ending.cons {t : Token} {ts : List Token} (h : t.kind ∈ endings) : Ending (t :: ts) := by
  intro t' ht
  obtain rfl : t = t' := Option.some.inj ht
  exact h

theorem Ending.lacks {more : List Token} (h : Ending more) {kind : TokenKind}
    (hkind : kind ∉ endings) : Lacks kind more :=
  fun t ht hk => hkind (hk ▸ h t ht)

/-- What may come after a clause. -/
def closings : List TokenKind :=
  [.keyword .ON, .keyword .WHEN, .symbol .semicolon]

/-- Tokens that no expression and no list goes on with. -/
def Closing (more : List Token) : Prop :=
  ∀ t ∈ more.head?, t.kind ∈ closings

theorem closing_nil : Closing [] := by
  intro t ht
  cases ht

theorem Closing.cons {t : Token} {ts : List Token} (h : t.kind ∈ closings) : Closing (t :: ts) := by
  intro t' ht
  obtain rfl : t = t' := Option.some.inj ht
  exact h

theorem Closing.lacks {more : List Token} (h : Closing more) {kind : TokenKind}
    (hkind : kind ∉ closings) : Lacks kind more :=
  fun t ht hk => hkind (hk ▸ h t ht)

theorem Closing.ending {more : List Token} (h : Closing more) : Ending more :=
  fun t ht => (by decide : closings ⊆ endings) (h t ht)

/-- Cursors paired over a copy. -/
def Pairing.cursors (exact : Bool) (more : List Token) : Pairing Cursor :=
  ⟨Cursor.Copied exact more, fun c => c.rest.length⟩

namespace Cursor.Copied

variable {exact : Bool} {more : List Token} {c c' : Cursor}

theorem cons {t : Token} {ts : List Token} (h : c.Copied exact more c') (ht : c.rest = t :: ts) :
    ∃ t' ts', c'.rest = t' :: ts' ∧ t.Copied exact t' ∧
      ∀ p p', Cursor.Copied exact more ⟨p, ts⟩ ⟨p', ts'⟩ := by
  obtain ⟨copy, hcopy, hrest⟩ := h
  rw [ht] at hcopy
  obtain ⟨t', ts', htt', hts, rfl⟩ := List.forall₂_cons_left_iff.1 hcopy
  exact ⟨t', ts' ++ more, hrest, htt', fun _ _ => ⟨ts', hts, rfl⟩⟩

theorem nil (h : c.Copied exact more c') (hc : c.rest = []) : c'.rest = more := by
  obtain ⟨copy, hcopy, hrest⟩ := h
  rw [hc] at hcopy
  obtain rfl := List.forall₂_nil_left_iff.1 hcopy
  exact hrest

/-- Before a token, an exact copy is at the same place. -/
theorem place (h : c.Copied exact more c') (hc : 0 < c.rest.length) :
    exact = true → c'.fragment = c.fragment := by
  obtain ⟨t, ts, ht⟩ := List.exists_cons_of_length_pos hc
  obtain ⟨t', ts', ht', htt', -⟩ := h.cons ht
  simpa [Cursor.fragment, ht, ht'] using htt'.place

/-- What the next token is like, unless it ends the copied tokens. -/
theorem peek (h : c.Copied exact more c') {p : Token → Bool}
    (hp : ∀ t t', t.Copied exact t' → p t' = p t) (hmore : ∀ t ∈ more.head?, p t = false) :
    c'.peek?.any p = c.peek?.any p := by
  unfold Cursor.peek?
  cases hc : c.rest with
  | nil =>
    rw [h.nil hc]
    cases hm : more.head? with
    | none => rfl
    | some t => simp [hmore t hm]
  | cons t ts =>
    obtain ⟨t', ts', hc', ht, -⟩ := h.cons hc
    simp [hc', hp t t' ht]

theorem isKeyword (h : c.Copied exact more c') {k : Keyword} (hmore : Lacks (.keyword k) more) :
    c'.isKeyword k = c.isKeyword k :=
  h.peek (fun t t' ht => ht.isKeyword k) fun t ht => by simpa [Token.isKeyword] using hmore t ht

/-- Before a token, the copy has the same one next. -/
theorem isSymbol (h : c.Copied exact more c') (hc : c.rest ≠ []) (k : Symbol) :
    c'.isSymbol k = c.isSymbol k := by
  obtain ⟨t, ts, ht⟩ := List.exists_cons_of_ne_nil hc
  obtain ⟨t', ts', ht', htt', -⟩ := h.cons ht
  simpa [Cursor.isSymbol, Cursor.peek?, ht, ht'] using htt'.isSymbol k

theorem startsQuery (h : c.Copied exact more c') (hmore : Ending more) :
    c'.startsQuery = c.startsQuery := by
  have hkeyword : ∀ {k : Keyword}, .keyword k ∉ endings → c'.isKeyword k = c.isKeyword k :=
    fun hk => h.isKeyword (hmore.lacks hk)
  simp only [Cursor.startsQuery, hkeyword (by decide : .keyword .SELECT ∉ endings),
    hkeyword (by decide : .keyword .WITH ∉ endings), hkeyword (by decide : .keyword .TABLE ∉ endings),
    hkeyword (by decide : .keyword .VALUES ∉ endings)]

/-- The tokens of a SET clause. -/
theorem listed (h : c.Copied false more c') : ∀ t ∈ c.rest, t.inList = true := by
  obtain ⟨copy, hcopy, -⟩ := h
  exact ((List.forall₂_and_left _ _).1 (hcopy.imp fun t t' ht => ⟨ht.listed rfl, ht⟩)).1

/-- No query begins among the tokens of a SET clause. -/
theorem not_startsQuery (h : c.Copied false more c') : c.startsQuery = false := by
  cases hc : c.rest with
  | nil => simp [Cursor.startsQuery, Cursor.isKeyword, Cursor.peek?, hc]
  | cons t ts =>
    obtain ⟨_, _, -, ht, -⟩ := h.cons hc
    have hlisted := ht.listed rfl
    simp only [Cursor.startsQuery, Cursor.isKeyword, Cursor.peek?, hc, List.head?_cons,
      Option.any_some, Token.isKeyword, Bool.or_eq_false_iff, decide_eq_false_iff_not]
    unfold Token.inList at hlisted
    split at hlisted <;> simp_all

/-- An exact copy is the tokens themselves. -/
theorem exact_iff : c.Copied true more c' ↔ c'.rest = c.rest ++ more := by
  have heq : ∀ {ts ts' : List Token}, List.Forall₂ (Token.Copied true) ts ts' ↔ ts' = ts := by
    intro ts ts'
    refine ⟨fun h => ?_, ?_⟩
    · induction h with
      | nil => rfl
      | cons ht _ ih => rw [ht.same rfl, ih]
    · rintro rfl
      exact List.forall₂_same.2 fun t _ => ⟨rfl, rfl, fun _ => rfl, fun h => by cases h⟩
  simp [Cursor.Copied, heq]

end Cursor.Copied

namespace Reader

variable {exact : Bool} {more : List Token}

theorem next_run {p ts : List Token} {t : Token} : next ⟨p, t :: ts⟩ = .ok t ⟨t :: p, ts⟩ := rfl

theorem current_mirrors :
    Mirrors (.cursors exact more) 0 (Token.Copied exact) current current := by
  intro c c' t d hc h
  obtain ⟨rfl, ts, ht⟩ := current_ok h
  obtain ⟨t', ts', ht', htt', -⟩ := hc.cons ht
  obtain ⟨p', r'⟩ := c'
  obtain rfl : r' = t' :: ts' := ht'
  exact ⟨t', _, rfl, htt', hc, Nat.le_refl _⟩

theorem next_mirrors : Mirrors (.cursors exact more) 1 (Token.Copied exact) next next := by
  intro c c' t d hc h
  have ht := next_ok h
  obtain ⟨t', ts', ht', htt', hrest⟩ := hc.cons ht
  obtain ⟨p', r'⟩ := c'
  obtain rfl : r' = t' :: ts' := ht'
  exact ⟨t', _, next_run, htt', hrest d.past _, by simp [Pairing.cursors, ht]⟩

theorem ofKind_mirrors (kind : TokenKind) (expected : Expected) :
    Mirrors (.cursors exact more) 1 (Token.Copied exact) (ofKind kind expected)
      (ofKind kind expected) := by
  intro c c' t d hc h
  obtain ⟨hk, ht⟩ := ofKind_ok h
  obtain ⟨t', ts', ht', htt', hrest⟩ := hc.cons ht
  obtain ⟨p', r'⟩ := c'
  obtain rfl : r' = t' :: ts' := ht'
  refine ⟨t', ⟨t' :: p', ts'⟩, ?_, htt', hrest d.past _, by simp [Pairing.cursors, ht]⟩
  simp only [ofKind, bind_ok, get_ok]
  exact ⟨_, _, ⟨rfl, rfl⟩, by simp only [htt'.kind, hk, ↓reduceIte]; rfl⟩

theorem keyword_mirrors (k : Keyword) :
    Mirrors (.cursors exact more) 1 (Token.Copied exact) (keyword k) (keyword k) :=
  ofKind_mirrors _ _

theorem symbol_mirrors (k : Symbol) :
    Mirrors (.cursors exact more) 1 (Token.Copied exact) (symbol k) (symbol k) :=
  ofKind_mirrors _ _

theorem identifier_mirrors :
    Mirrors (.cursors exact more) 1 (Token.Copied exact) identifier identifier := by
  refine current_mirrors.after fun t t' ht => ?_
  rw [ht.isIdentifier]
  split
  · exact next_mirrors
  · exact .throw _

theorem ofKind?_absent {c : Cursor} {kind : TokenKind}
    (h : ∀ t ts, c.rest = t :: ts → t.kind ≠ kind) : ofKind? kind c = .ok none c := by
  obtain ⟨past, rest⟩ := c
  simp only [ofKind?, bind_ok, get_ok]
  refine ⟨_, _, ⟨rfl, rfl⟩, ?_⟩
  cases rest with
  | nil => rfl
  | cons t ts =>
    simp only [h t ts rfl, ↓reduceIte]
    rfl

theorem skipKeyword_absent {c : Cursor} {k : Keyword}
    (h : ∀ t ts, c.rest = t :: ts → t.kind ≠ .keyword k) : skipKeyword k c = .ok false c :=
  bind_ok.2 ⟨none, c, ofKind?_absent h, rfl⟩

/-- A token that may be missing is no more there in the copy, if none comes after the end. -/
theorem ofKind?_copied {kind : TokenKind} {c c' d : Cursor} {o : Option Token}
    (hc : c.Copied exact more c') (hend : c.rest = [] → Lacks kind more)
    (h : ofKind? kind c = .ok o d) :
    ∃ o' d', ofKind? kind c' = .ok o' d' ∧ Option.Rel (Token.Copied exact) o o' ∧
      d.Copied exact more d' ∧ d.rest.length + o.isSome.toNat ≤ c.rest.length := by
  cases o with
  | some t =>
    obtain ⟨hk, ht⟩ := ofKind?_some h
    obtain ⟨t', ts', ht', htt', hrest⟩ := hc.cons ht
    obtain ⟨p', r'⟩ := c'
    obtain rfl : r' = t' :: ts' := ht'
    refine ⟨some t', ⟨t' :: p', ts'⟩, ?_, .some htt', hrest d.past _, by simp [ht]⟩
    simp only [ofKind?, bind_ok, get_ok]
    exact ⟨_, _, ⟨rfl, rfl⟩, by simp only [htt'.kind, hk, ↓reduceIte]; rfl⟩
  | none =>
    obtain ⟨rfl, hne⟩ := ofKind?_none h
    -- at the end of the copied tokens the question is about the token that follows them
    have hne' : ∀ t ts, c'.rest = t :: ts → t.kind ≠ kind := by
      intro t' ts' ht'
      cases hrest : d.rest with
      | nil =>
        have hhead : t' ∈ more.head? := by rw [← hc.nil hrest, ht']; rfl
        exact hend hrest t' hhead
      | cons t ts =>
        obtain ⟨t'', ts'', ht'', htt', -⟩ := hc.cons hrest
        obtain ⟨rfl, -⟩ := List.cons.inj (ht'.symm.trans ht'')
        rw [htt'.kind]
        exact hne t ts hrest
    exact ⟨none, c', ofKind?_absent hne', .none, hc, Nat.le_refl _⟩

theorem ofKind?_mirrors {kind : TokenKind} (hmore : Lacks kind more) :
    Mirrors (.cursors exact more) 0 (Option.Rel (Token.Copied exact)) (ofKind? kind)
      (ofKind? kind) := by
  intro c c' o d hc h
  obtain ⟨o', d', ho', hoo', hdd', hle⟩ := ofKind?_copied hc (fun _ => hmore) h
  exact ⟨o', d', ho', hoo', hdd', Nat.le_trans (Nat.le_add_right _ _) hle⟩

theorem skipKeyword_mirrors {k : Keyword} (hmore : Lacks (.keyword k) more) :
    Mirrors (.cursors exact more) 0 (· = ·) (skipKeyword k) (skipKeyword k) := by
  refine (ofKind?_mirrors hmore).bind fun o o' ho => .pure ?_
  cases ho <;> rfl

/-- A keyword that no SET clause has. -/
theorem skipKeyword_listed {k : Keyword} (hmore : Lacks (.keyword k) more)
    (hk : ∀ t : Token, t.kind = .keyword k → t.inList = false) :
    Mirrors (.cursors exact more) 0
      (fun found found' => found' = found ∧ (exact = false → found = false))
      (skipKeyword k) (skipKeyword k) := by
  intro c c' found d hc h
  obtain ⟨_, d', hfound', rfl, hpaired, hle⟩ := skipKeyword_mirrors hmore hc h
  refine ⟨found, d', hfound', ⟨rfl, ?_⟩, hpaired, hle⟩
  rintro rfl
  have habsent : skipKeyword k c = .ok false c := by
    refine skipKeyword_absent fun t ts ht hkind => ?_
    simpa [hk t hkind] using hc.listed t (by simp [ht])
  cases habsent.symm.trans h
  rfl

theorem skipSymbol_mirrors {k : Symbol} (hmore : Lacks (.symbol k) more) :
    Mirrors (.cursors exact more) 0 (· = ·) (skipSymbol k) (skipSymbol k) := by
  refine (ofKind?_mirrors hmore).bind fun o o' ho => .pure ?_
  cases ho <;> rfl

theorem parenthesised_mirrors :
    Mirrors (.cursors true more) 1 (· = ·) parenthesised parenthesised := by
  intro c c' body d hc h
  have hsplit := parenthesised_ok h
  obtain ⟨close, -, hrest, hany⟩ := splitClosing_eq hsplit
  have hc' : c'.rest = body ++ close :: (d.rest ++ more) := by
    simp [Cursor.Copied.exact_iff.1 hc, hrest]
  have hadvance : (c'.advance (body.length + 1)).rest = d.rest ++ more := by
    simp [Cursor.advance, hc', List.drop_append]
  refine ⟨body, c'.advance (body.length + 1), ?_, rfl,
    Cursor.Copied.exact_iff.2 hadvance, ?_⟩
  · simp only [parenthesised, bind_ok, get_ok]
    refine ⟨_, _, ⟨rfl, rfl⟩, ?_⟩
    rw [hc', hany]
    rfl
  · simp only [Pairing.cursors, hrest, List.length_append, List.length_cons]
    omega

theorem closeParens_mirrors (n : Nat) :
    Mirrors (.cursors exact more) 0 (fun _ _ => True) (closeParens n) (closeParens n) := by
  induction n with
  | zero => exact .pure trivial
  | succ n ih => exact (symbol_mirrors _).after fun _ _ _ => ih

/-- A statement that ends after some tokens ends after their copy. -/
theorem finish_mirrors :
    Mirrors (.cursors exact []) 0 (fun _ _ => True) finish finish := by
  refine (ofKind?_mirrors lacks_nil).bind fun _ _ _ => ?_
  intro c c' a d hc h
  obtain ⟨_, _, hget, h⟩ := bind_ok.1 h
  obtain ⟨rfl, rfl⟩ := get_ok.1 hget
  cases hrest : c.rest with
  | nil =>
    simp only [hrest] at h
    obtain ⟨-, rfl⟩ := pure_ok.1 h
    refine ⟨(), c', ?_, trivial, hc, Nat.le_refl _⟩
    simp only [bind_ok, get_ok]
    exact ⟨_, _, ⟨rfl, rfl⟩, by simp [hc.nil hrest, pure_ok]⟩
  | cons t ts =>
    simp only [hrest] at h
    exact (throw_ok.1 h).elim

/-- Cursors over a copy see the same commas. -/
theorem seesCommas : (Pairing.cursors exact more).SeesCommas Error := by
  refine ⟨fun {s s' found t} hs hleft h => ?_, fun {s} hs => ?_, fun {s s'} hs => ?_⟩
  · obtain ⟨o, _, ho, hfound⟩ := bind_ok.1 h
    obtain ⟨rfl, rfl⟩ := pure_ok.1 hfound
    obtain ⟨o', t', ho', hoo', hpaired, hle⟩ :=
      ofKind?_copied hs (fun hend => absurd hleft (by simp [Pairing.cursors, hend])) ho
    refine ⟨t', bind_ok.2 ⟨o', t', ho', ?_⟩, hpaired, hle⟩
    cases hoo' <;> rfl
  · obtain ⟨p, r⟩ := s
    obtain rfl : r = [] := List.length_eq_zero_iff.1 hs
    rfl
  · obtain ⟨copy, hcopy, hrest⟩ := hs
    exact ⟨s'.rest.length, rfl, rfl, by simp [Pairing.cursors, hrest, hcopy.length_eq]⟩

theorem endsLists (hmore : Lacks (.symbol .comma) more) :
    (Pairing.cursors exact more).EndsLists Error := by
  intro s s' hs hleft
  have hrest : s'.rest = more := hs.nil (List.length_eq_zero_iff.1 hleft)
  refine bind_ok.2 ⟨none, s', ofKind?_absent fun t ts ht => ?_, rfl⟩
  exact hmore t (by rw [← hrest, ht]; rfl)

end Reader

end DataChange
