import DataChange.Proofs.Expr.Words
import DataChange.Proofs.Token.Yields

/-!
# Readings of operands and operators

What the parts of the expression parser give on given tokens: an operand, what follows a name, what
stands between brackets, and an operator with what belongs to it on its right. The parser of the
expressions within is left open.
-/

namespace DataChange

/-- The level at which the operand of an operator is read. -/
def UnaryOp.level : UnaryOp → Level
  | not => .negation
  | negate | plus => .sign

theorem UnaryOp.rank_level (op : UnaryOp) : op.level.rank = op.rank := by
  cases op <;> rfl

theorem BinaryOp.rank_level (op : BinaryOp) : op.level.rank = op.rank := by
  cases op <;> rfl

namespace Expr

variable {level : Level} {least n : Nat} {ts us rest : List Token} {t : Token} {e e' : Expr}

/-! ## Where an expression ends -/

/-- Whether an expression can go on with the token. -/
def extendedBy (t : Token) : Bool :=
  (operatorOf? t).isSome || t.isKeyword .IS || t.isSymbol .openParen || t.isSymbol .dot

/-- The first token is neither a tighter operator nor one that goes on with a name. -/
def Stops (least : Nat) (rest : List Token) : Prop :=
  ∀ t ∈ rest.head?,
    (levelOf t).rank ≤ least ∧ t.kind ≠ .symbol .openParen ∧ t.kind ≠ .symbol .dot

theorem Stops.mono {more : Nat} (h : Stops least rest) (hle : least ≤ more) : Stops more rest :=
  fun t ht => ⟨Nat.le_trans (h t ht).1 hle, (h t ht).2⟩

theorem stops_of_not_extendedBy (h : ∀ t ∈ rest.head?, extendedBy t = false) : Stops 0 rest := by
  intro t ht
  have hend := h t ht
  simp only [extendedBy, Bool.or_eq_false_iff, Token.isKeyword, Token.isSymbol,
    decide_eq_false_iff_not, Option.isSome_eq_false_iff, Option.isNone_iff_eq_none] at hend
  obtain ⟨⟨⟨hop, his⟩, hopen⟩, hdot⟩ := hend
  refine ⟨?_, hopen, hdot⟩
  unfold operatorOf? at hop
  unfold levelOf
  split
  · next s hk => simp [hk] at hop; simp [hop, Level.rank]
  · next hk => simp [hk] at hop
  · next hk => simp [hk] at hop
  · next hk => exact absurd hk his
  · simp [Level.rank]

theorem stops_symbol {s : Symbol} (hk : t.kind = .symbol s) (hs : s = .comma ∨ s = .closeParen) :
    Stops least (t :: rest) := by
  rintro _ ⟨⟩
  rcases hs with rfl | rfl <;> simp [levelOf, hk, BinaryOp.ofSymbol?, Level.rank]

theorem Stops.lacks_openParen (h : Stops least rest) : Lacks (.symbol .openParen) rest :=
  fun t ht => (h t ht).2.1

/-! ## The loop over the operators -/

theorem levelOf_le (t : Token) : (levelOf t).rank ≤ Level.sign.rank := by
  cases levelOf t <;> decide

theorem extendWithin_stops {parse : Level → Parser Expr} {bound : Nat}
    (h : ∀ t ∈ rest.head?, (levelOf t).rank ≤ level.rank) :
    Yields (extendWithin parse level bound e) [] rest e := by
  intro past n
  cases bound with
  | zero => rfl
  | succ bound =>
    cases rest with
    | nil => rfl
    | cons t ts =>
      rw [extendWithin_cons rfl, if_pos (h t rfl)]
      rfl

/-! ## Operands -/

section

variable {parse : Level → Parser Expr} {items : Parser (List Expr)}

theorem operand_primary (ht : t.kind ∉ [.keyword .NOT, .symbol .minus, .symbol .plus])
    (h : Yields (primary (commaSeparated (parse .lowest))) (t :: ts) rest e) :
    Yields (Expr.operand parse) (t :: ts) rest e := by
  refine .current ?_
  split
  iterate 3 next hk => simp [hk] at ht
  · exact h

theorem operand_integer {n : Int64} (hk : t.kind = .integer)
    (hn : Decimal.readInt64? t.text = some n) :
    Yields (Expr.operand parse) [t] rest (literal (.bigint n) t.fragment) := by
  refine operand_primary (by simp [hk]) (.next ?_)
  simp only [hk, hn]
  exact .pure _ _

/-- A literal that is one word. -/
theorem operand_literal {v : Value} {w : Word} (hw : v.words = [w]) (ht : w.Spells t) :
    Yields (Expr.operand parse) [t] rest (literal v t.fragment) := by
  have hkeyword : ∀ {k : Keyword}, [.keyword k] = [w] → t.kind = .keyword k := by
    rintro k ⟨⟩
    exact ht
  cases v with
  | null =>
    have hk := hkeyword hw
    refine operand_primary (by simp [hk]) (.next ?_)
    simp only [hk]
    exact .pure _ _
  | boolean b =>
    cases b <;> have hk := hkeyword hw <;> refine operand_primary (by simp [hk]) (.next ?_) <;>
      simp only [hk] <;> exact .pure _ _
  | bigint n =>
    simp only [Value.words] at hw
    split at hw
    · simp at hw
    · next hn =>
      cases hw
      exact operand_integer ht.1 (ht.2 ▸ Decimal.readInt64?_natAbs hn)
  | varchar s =>
    cases hw
    obtain ⟨hk, rfl⟩ := ht
    refine operand_primary (by simp [hk]) (.next ?_)
    simp only [hk]
    exact .pure _ _
  | double x => cases hw

theorem isIdentifier_not_sign (ht : t.isIdentifier = true) :
    t.kind ∉ [.keyword .NOT, .symbol .minus, .symbol .plus] := by
  intro hk
  simp only [List.mem_cons, List.not_mem_nil, or_false] at hk
  rcases hk with hk | hk | hk <;> simp [Token.isIdentifier, hk, Keyword.isReserved] at ht

theorem primary_named (ht : t.isIdentifier = true) (h : Yields (named items t) ts rest e) :
    Yields (primary items) (t :: ts) rest e := by
  refine .next ?_
  dsimp only
  split
  iterate 10 next hk => simp [Token.isIdentifier, hk, Keyword.isReserved] at ht
  · rw [if_pos ht]
    exact h

theorem named_column (hrest : Stops least rest) :
    Yields (named items t) [] rest (untyped (.column ⟨none, t.text, none⟩) t.fragment) := by
  refine .noSymbol hrest.lacks_openParen fun past n => afterName_none ?_
  rcases rest with _ | ⟨dot, _ | ⟨column, ts⟩⟩
  · rfl
  · rfl
  · simp [qualified?, Token.isSymbol, (hrest dot rfl).2.2]

theorem named_qualified {dot column : Token} (hdot : dot.kind = .symbol .dot)
    (hcolumn : column.isIdentifier = true) :
    Yields (named items t) [dot, column] rest
      (untyped (.column ⟨some t.text, column.text, none⟩) column.fragment) := by
  refine .noSymbol (fun x hx => ?_) fun past n => afterName_some ?_
  · obtain rfl : dot = x := by simpa using hx
    simp [hdot]
  · simp [qualified?, Token.isSymbol, hdot, hcolumn]

/-- The items between the brackets of a call. -/
theorem named_call {o close : Token} {arguments : List Expr} (ho : o.kind = .symbol .openParen)
    (hitems : ts ≠ [] ∧ Lacks (.symbol .closeParen) ts ∧ Yields items ts (close :: rest) arguments ∨
      ts = [] ∧ arguments = [])
    (hclose : close.kind = .symbol .closeParen) :
    Yields (named items t) (o :: (ts ++ [close])) rest
      (untyped (.call t.text none arguments) t.fragment) := by
  refine .skipSymbol ho ?_
  simp only [↓reduceIte]
  refine .get fun past n => ?_
  have hend : Yields (do
      let _ ← Reader.symbol .closeParen
      return untyped (.call t.text none arguments) t.fragment) [close] rest
      (untyped (.call t.text none arguments) t.fragment) := .symbol hclose (.pure _ _)
  rcases hitems with ⟨hne, hfirst, hitems⟩ | ⟨rfl, rfl⟩
  · obtain ⟨x, xs, rfl⟩ := List.exists_cons_of_ne_nil hne
    have hx : Cursor.isSymbol ⟨past, (x :: xs ++ [close]) ++ rest⟩ .closeParen = false := by
      simpa [Cursor.isSymbol, Cursor.peek?, Token.isSymbol] using hfirst x rfl
    simp only [hx, Bool.false_eq_true, ↓reduceIte]
    exact .bind hitems hend
  · have hx : Cursor.isSymbol ⟨past, ([] ++ [close]) ++ rest⟩ .closeParen = true := by
      simp [Cursor.isSymbol, Cursor.peek?, Token.isSymbol, hclose]
    simp only [hx, ↓reduceIte]
    exact hend

theorem primary_row {o close : Token} {es : List Expr} (hk : t.kind = .keyword .ROW)
    (ho : o.kind = .symbol .openParen) (hitems : Yields items ts (close :: rest) es)
    (hclose : close.kind = .symbol .closeParen) :
    Yields (primary items) (t :: o :: (ts ++ [close])) rest (untyped (.row es) t.fragment) := by
  refine .next ?_
  simp only [hk]
  exact .symbol ho (.bind hitems (.symbol hclose (.pure _ _)))

theorem primary_bracketed {close : Token} (ho : t.kind = .symbol .openParen) (hne : ts ≠ [])
    (hfirst : ∀ x ∈ ts.head?, Cursor.startsQuery ⟨[], [x]⟩ = false)
    (hitem : Yields items ts (close :: rest) [e]) (hclose : close.kind = .symbol .closeParen) :
    Yields (primary items) (t :: (ts ++ [close])) rest e := by
  refine .next ?_
  simp only [ho]
  refine .get fun past n => ?_
  obtain ⟨x, xs, rfl⟩ := List.exists_cons_of_ne_nil hne
  have hquery : Cursor.startsQuery ⟨past, (x :: xs ++ [close]) ++ rest⟩ = false := hfirst x rfl
  simp only [hquery, Bool.false_eq_true, ↓reduceIte]
  have hrow : Yields (rowItems items) (x :: xs) (close :: rest) e :=
    .get fun past n => .last hitem (.pure _ _)
  exact .bind hrow (.symbol hclose (.pure _ _))

end

/-! ## Operators -/

section

variable {parse : Level → Parser Expr}

theorem operation_binary {op : BinaryOp} {right : Expr} (hop : operatorOf? t = some op)
    (hr : Yields (parse op.level) ts rest right) :
    Yields (Expr.operation parse e) (t :: ts) rest (untyped (.binary op e right) t.fragment) := by
  refine .next ?_
  have his : t.isKeyword .IS = false := by
    by_contra his
    have hk : t.kind = .keyword .IS := by simpa [Token.isKeyword] using his
    simp [operatorOf?, hk] at hop
  simp only [his, hop, Bool.false_eq_true, ↓reduceIte]
  exact .last hr (.pure _ _)

theorem operation_isNull {null : Token} (hk : t.kind = .keyword .IS)
    (hnull : null.kind = .keyword .NULL) :
    Yields (Expr.operation parse e) [t, null] rest (untyped (.isNull e false) t.fragment) := by
  refine .next ?_
  simp only [Token.isKeyword, hk, decide_true, ↓reduceIte]
  refine .noKeyword (fun x hx => ?_) (.keyword hnull (.pure _ _))
  obtain rfl : null = x := by simpa using hx
  simp [hnull]

theorem operation_isNotNull {not null : Token} (hk : t.kind = .keyword .IS)
    (hnot : not.kind = .keyword .NOT) (hnull : null.kind = .keyword .NULL) :
    Yields (Expr.operation parse e) [t, not, null] rest (untyped (.isNull e true) t.fragment) := by
  refine .next ?_
  simp only [Token.isKeyword, hk, decide_true, ↓reduceIte]
  exact .skipKeyword hnot (.keyword hnull (.pure _ _))

theorem operand_unary {op : UnaryOp} (ht : op.word.Spells t)
    (hsign : op = .negate → e.isNumber = false) (h : Yields (parse op.level) ts rest e) :
    Yields (Expr.operand parse) (t :: ts) rest (untyped (.unary op e) t.fragment) := by
  refine .current ?_
  cases op with
  | not =>
    have hk : t.kind = .keyword .NOT := ht
    simp only [hk]
    exact .next (.last h (.pure _ _))
  | plus =>
    have hk : t.kind = .symbol .plus := ht
    simp only [hk]
    exact .next (.last h (.pure _ _))
  | negate =>
    have hk : t.kind = .symbol .minus := ht
    simp only [hk]
    refine .next (.last h ?_)
    have hnumber := hsign rfl
    unfold isNumber at hnumber
    unfold negated
    split
    · next hk => simp [hk] at hnumber
    · next hk => simp [hk] at hnumber
    · exact .pure _ _

end

end Expr

end DataChange
