import DataChange.Expr.Parser
import DataChange.Proofs.Expr.Shape
import DataChange.Proofs.Token.Consumed

/-!
# The grammar of expressions

`Reads s e t` says that the tokens between the states `s` and `t` spell the expression `e`, with
one rule for each form of expression. How tight operators bind is left open: the parser picks one
of the readings that the grammar has (`parse_reads`). What is said of all parsed expressions is
proved by induction on these rules.
-/

namespace DataChange

/-! ## Whole numbers -/

namespace Decimal

theorem splitSign_digits {cs : List Char} (h : cs.all Char.isDigit = true) :
    splitSign cs = (false, cs) := by
  unfold splitSign
  split
  · simp [Char.isDigit] at h
  · simp [Char.isDigit] at h
  · rfl

/-- Digits alone spell no number below zero, so not the one whose sign cannot be turned. -/
theorem readInt64?_digits {s : String} {n : Int64} (hd : s.toList.all Char.isDigit = true)
    (h : readInt64? s = some n) : n ≠ Int64.minValue := by
  unfold readInt64? readInt? at h
  simp only [splitSign_digits hd, hd, Bool.not_true, Bool.or_false, Bool.false_eq_true,
    ↓reduceIte] at h
  split at h
  · next m hm =>
    split at hm
    · cases hm
    · cases hm
      split at h
      · next hrange =>
        cases h
        rw [Bool.and_eq_true, decide_eq_true_eq, decide_eq_true_eq, Int64.toInt_minValue,
          Int64.toInt_maxValue] at hrange
        intro hmin
        have hvalue := congrArg Int64.toInt hmin
        rw [Int64.toInt_ofInt_of_le hrange.1 (by omega), Int64.toInt_minValue] at hvalue
        omega
      · cases h
  · cases h

end Decimal

/-- A literal whose sign can be turned. -/
def Value.isNegatable (v : Value) : Bool :=
  v != .bigint Int64.minValue

theorem Value.isNegatable_neg {n : Int64} (h : n ≠ Int64.minValue) :
    (Value.bigint (-n)).isNegatable = true := by
  have hmin : -Int64.minValue = Int64.minValue := by decide
  have hneg : -n ≠ Int64.minValue := fun hn => h (Int64.neg_inj.1 (hn.trans hmin.symm))
  simpa [isNegatable] using hneg

theorem Token.isNegatable {x : Token} {n : Int64} (hk : x.kind = .integer)
    (h : Decimal.readInt64? x.text = some n) : (Value.bigint n).isNegatable = true := by
  have hspelled := x.spelled
  rw [hk] at hspelled
  simpa [Value.isNegatable] using Decimal.readInt64?_digits hspelled h

/-- Whether a token of this kind is a literal by itself. -/
def TokenKind.isLiteral : TokenKind → Bool
  | .integer | .decimal | .string | .keyword .TRUE | .keyword .FALSE | .keyword .NULL => true
  | _ => false

namespace Expr

/-- The row of some items; a single one is itself. -/
def ofItems (fragment : Fragment) : List Expr → Expr
  | [item] => item
  | items => untyped (.row items) fragment

/-! ## The rules -/

mutual

/-- The tokens from `s` to `t` spell an expression. -/
inductive Reads : Reading → Expr → Reading → Prop
  | literal {s t : Reading} {x : Token} {value : Value} (hx : s.Takes x t)
      (hk : x.kind.isLiteral = true) (hv : value.isNegatable = true) :
      Reads s (.literal value x.fragment) t
  | defaultMarker {s t : Reading} {x : Token} (hx : s.Takes x t) (hk : x.kind = .keyword .DEFAULT) :
      Reads s (untyped .defaultMarker x.fragment) t
  | marker {s t : Reading} {x : Token} (hx : s.Takes x t) (hk : x.kind = .parameter) :
      Reads s (untyped (.parameter ⟨s.parameters, false, false⟩) x.fragment)
        { t with parameters := s.parameters + 1 }
  | column {s t : Reading} {x : Token} (hx : s.Takes x t) (hk : x.isIdentifier = true) :
      Reads s (untyped (.column ⟨none, x.text, none⟩) x.fragment) t
  | qualified {s t u v : Reading} {x dot y : Token} (hx : s.Takes x t)
      (hk : x.isIdentifier = true) (hd : t.Takes dot u) (hdot : dot.kind = .symbol .dot)
      (hy : u.Takes y v) (hky : y.isIdentifier = true) :
      Reads s (untyped (.column ⟨some x.text, y.text, none⟩) y.fragment) v
  | emptyCall {s t u v : Reading} {x o close : Token} (hx : s.Takes x t)
      (hk : x.isIdentifier = true) (ho : t.Takes o u) (hko : o.kind = .symbol .openParen)
      (hc : u.Takes close v) (hkc : close.kind = .symbol .closeParen) :
      Reads s (untyped (.call x.text none []) x.fragment) v
  | call {s t u v w : Reading} {x o close : Token} {arguments : List Expr} (hx : s.Takes x t)
      (hk : x.isIdentifier = true) (ho : t.Takes o u) (hko : o.kind = .symbol .openParen)
      (ha : ReadsList u arguments v) (hc : v.Takes close w)
      (hkc : close.kind = .symbol .closeParen) :
      Reads s (untyped (.call x.text none arguments) x.fragment) w
  | row {s t u v w : Reading} {x o close : Token} {items : List Expr} (hx : s.Takes x t)
      (hk : x.kind = .keyword .ROW) (ho : t.Takes o u) (hko : o.kind = .symbol .openParen)
      (hi : ReadsList u items v) (hc : v.Takes close w) (hkc : close.kind = .symbol .closeParen) :
      Reads s (untyped (.row items) x.fragment) w
  | bracket {s t u v : Reading} {o close : Token} {items : List Expr} (ho : s.Takes o t)
      (hko : o.kind = .symbol .openParen) (hi : ReadsList t items u) (hc : u.Takes close v)
      (hkc : close.kind = .symbol .closeParen) :
      Reads s (ofItems t.cursor.fragment items) v
  | query {s t u : Reading} {o : Token} {body : List Token} (ho : s.Takes o t)
      (hko : o.kind = .symbol .openParen) (hq : t.cursor.startsQuery = true)
      (hb : t.TakesBody body u) : Reads s (untyped (.pending .scalar body) o.fragment) u
  | not {s t u : Reading} {x : Token} {e : Expr} (hx : s.Takes x t) (hk : x.kind = .keyword .NOT)
      (he : Reads t e u) : Reads s (untyped (.unary .not e) x.fragment) u
  | minus {s t u v : Reading} {x : Token} {e e' : Expr} (hx : s.Takes x t)
      (hk : x.kind = .symbol .minus) (he : Reads t e u) (hn : negated e x.fragment u = .ok e' v) :
      Reads s e' v
  | plus {s t u : Reading} {x : Token} {e : Expr} (hx : s.Takes x t) (hk : x.kind = .symbol .plus)
      (he : Reads t e u) : Reads s (untyped (.unary .plus e) x.fragment) u
  | isNull {s t u v : Reading} {x null : Token} {e : Expr} (he : Reads s e t) (hx : t.Takes x u)
      (hk : x.kind = .keyword .IS) (hn : u.Takes null v) (hkn : null.kind = .keyword .NULL) :
      Reads s (untyped (.isNull e false) x.fragment) v
  | isNotNull {s t u v w : Reading} {x y null : Token} {e : Expr} (he : Reads s e t)
      (hx : t.Takes x u) (hk : x.kind = .keyword .IS) (hy : u.Takes y v)
      (hky : y.kind = .keyword .NOT) (hn : v.Takes null w) (hkn : null.kind = .keyword .NULL) :
      Reads s (untyped (.isNull e true) x.fragment) w
  | binary {s t u v : Reading} {x : Token} {op : BinaryOp} {left right : Expr}
      (hl : Reads s left t) (hx : t.Takes x u) (hop : operatorOf? x = some op)
      (hr : Reads u right v) : Reads s (untyped (.binary op left right) x.fragment) v

/-- The tokens from `s` to `t` spell expressions between commas. -/
inductive ReadsList : Reading → List Expr → Reading → Prop
  | single {s t : Reading} {e : Expr} (he : Reads s e t) : ReadsList s [e] t
  | more {s t u v : Reading} {es : List Expr} {comma : Token} {e : Expr} (hes : ReadsList s es t)
      (hc : t.Takes comma u) (hk : comma.kind = .symbol .comma) (he : Reads u e v) :
      ReadsList s (es ++ [e]) v

end

/-! ## The parser follows the rules -/

/-- A parser of expressions that follows the grammar. -/
def Follows (p : Parser Expr) : Prop :=
  ∀ s e t, p s = .ok e t → Reads s e t

/-- A parser of lists of expressions that follows the grammar. -/
def FollowsList (p : Parser (List Expr)) : Prop :=
  ∀ s es t, p s = .ok es t → ReadsList s es t

variable {s t : Reading} {e : Expr}

theorem followsList_commaSeparated {p : Parser Expr} (hp : Follows p) :
    FollowsList (commaSeparated p) := by
  intro s es t h
  refine commaSteps_induct (fun es u => ReadsList s es u) h ?_ ?_ ?_ ?_
  · intro es u h
    simp only [bind_ok, pure_ok, List.nil_append] at h
    obtain ⟨e, _, he, rfl, rfl⟩ := h
    exact .single (hp _ _ _ he)
  · intro es u n v hi h
    obtain rfl := Reading.remaining_stays h
    exact hi
  · intro es u v fs w hi hskip h
    simp only [bind_ok, pure_ok] at h
    obtain ⟨e, _, he, rfl, rfl⟩ := h
    rcases Reading.skipSymbol_takes hskip with ⟨-, comma, hc, hk⟩ | ⟨h, -⟩
    · exact .more hi hc hk (hp _ _ _ he)
    · cases h
  · intro es u v hi hskip
    rcases Reading.skipSymbol_takes hskip with ⟨h, -⟩ | ⟨-, rfl⟩
    · cases h
    · exact hi

theorem named_reads {p : Parser (List Expr)} (hp : FollowsList p) {u : Reading} {x : Token}
    (hx : s.Takes x u) (hk : x.isIdentifier = true) (h : named p x u = .ok e t) :
    Reads s e t := by
  simp only [named, bind_ok] at h
  obtain ⟨isCall, v, hskip, h⟩ := h
  rcases Reading.skipSymbol_takes hskip with ⟨rfl, o, ho, hko⟩ | ⟨rfl, rfl⟩
  · simp only [↓reduceIte, bind_ok, get_ok] at h
    obtain ⟨_, _, ⟨rfl, rfl⟩, h⟩ := h
    -- the bracket is closed at once, or the arguments come first
    split at h
    · simp only [pure_bind, bind_ok, pure_ok] at h
      obtain ⟨close, _, hclose, rfl, rfl⟩ := h
      obtain ⟨hc, hkc⟩ := Reading.symbol_takes hclose
      exact .emptyCall hx hk ho hko hc hkc
    · simp only [bind_ok, pure_ok] at h
      obtain ⟨arguments, _, ha, close, _, hclose, rfl, rfl⟩ := h
      obtain ⟨hc, hkc⟩ := Reading.symbol_takes hclose
      exact .call hx hk ho hko (hp _ _ _ ha) hc hkc
  · simp only [Bool.false_eq_true, ↓reduceIte, bind_ok, get_ok] at h
    obtain ⟨_, _, ⟨rfl, rfl⟩, h⟩ := h
    -- the name is qualified only if a dot and another name follow it
    rcases hrest : v.cursor.rest with _ | ⟨dot, _ | ⟨column, tail⟩⟩
    · simp only [hrest] at h
      obtain ⟨rfl, rfl⟩ := pure_ok.1 h
      exact .column hx hk
    · simp only [hrest] at h
      obtain ⟨rfl, rfl⟩ := pure_ok.1 h
      exact .column hx hk
    · simp only [hrest] at h
      split at h
      · rename_i hd
        simp only [bind_ok, modify_ok, pure_ok] at h
        obtain ⟨_, _, rfl, rfl, rfl⟩ := h
        simp only [Bool.and_eq_true, Token.isSymbol, decide_eq_true_eq] at hd
        have hdot : v.Takes dot { v with cursor := v.cursor.advance 1 } :=
          ⟨by simp [Cursor.advance, hrest], rfl⟩
        exact .qualified hx hk hdot hd.1 ⟨by simp [Cursor.advance, hrest], rfl⟩ hd.2
      · obtain ⟨rfl, rfl⟩ := pure_ok.1 h
        exact .column hx hk

theorem rowItems_reads {p : Parser (List Expr)} (hp : FollowsList p)
    (h : rowItems p s = .ok e t) :
    ∃ items, ReadsList s items t ∧ e = ofItems s.cursor.fragment items := by
  simp only [rowItems, bind_ok, get_ok] at h
  obtain ⟨_, _, ⟨rfl, rfl⟩, items, u, hitems, h⟩ := h
  refine ⟨items, ?_⟩
  rcases items with _ | ⟨item, _ | ⟨second, more⟩⟩
  all_goals
    obtain ⟨rfl, rfl⟩ := pure_ok.1 h
    exact ⟨hp _ _ _ hitems, rfl⟩

theorem inBrackets_reads {p : Parser (List Expr)} (hp : FollowsList p) {u : Reading} {o : Token}
    (ho : s.Takes o u) (hko : o.kind = .symbol .openParen)
    (h : inBrackets p o.fragment u = .ok e t) : Reads s e t := by
  simp only [inBrackets, bind_ok, get_ok] at h
  obtain ⟨_, _, ⟨rfl, rfl⟩, h⟩ := h
  split at h
  · rename_i hq
    simp only [bind_ok, pure_ok] at h
    obtain ⟨body, _, hbody, rfl, rfl⟩ := h
    exact .query ho hko hq (Reading.parenthesised_takes hbody)
  · simp only [bind_ok, pure_ok] at h
    obtain ⟨row, _, hrow, close, _, hclose, rfl, rfl⟩ := h
    obtain ⟨items, hi, rfl⟩ := rowItems_reads hp hrow
    obtain ⟨hc, hkc⟩ := Reading.symbol_takes hclose
    exact .bracket ho hko hi hc hkc

theorem nextMarker_ok {n : Nat} (h : nextMarker s = .ok n t) :
    n = s.parameters ∧ t = { s with parameters := s.parameters + 1 } := by
  simp only [nextMarker, bind_ok, get_ok, set_ok, pure_ok] at h
  obtain ⟨_, _, ⟨rfl, rfl⟩, _, _, rfl, rfl, rfl⟩ := h
  exact ⟨rfl, rfl⟩

theorem primary_reads {p : Parser (List Expr)} (hp : FollowsList p) : Follows (primary p) := by
  intro s e t h
  simp only [primary, bind_ok] at h
  obtain ⟨x, u, hx, h⟩ := h
  have hx := Reading.next_takes hx
  obtain ⟨m, hm, h⟩ := run_eq h
  -- one goal for each kind of token that can begin an operand, in the order of `primary`
  split at hm
  · rename_i hk
    split at hm
    · next n hn =>
      subst hm
      obtain ⟨rfl, rfl⟩ := pure_ok.1 h
      exact .literal hx (by rw [hk]; rfl) (x.isNegatable hk hn)
    · subst hm
      exact (reject_ok.1 h).elim
  · rename_i hk
    split at hm
    · subst hm
      obtain ⟨rfl, rfl⟩ := pure_ok.1 h
      exact .literal hx (by rw [hk]; rfl) rfl
    · subst hm
      exact (reject_ok.1 h).elim
  iterate 4
    · rename_i hk
      subst hm
      obtain ⟨rfl, rfl⟩ := pure_ok.1 h
      exact .literal hx (by rw [hk]; rfl) rfl
  · rename_i hk
    subst hm
    obtain ⟨rfl, rfl⟩ := pure_ok.1 h
    exact .defaultMarker hx hk
  · rename_i hk
    subst hm
    simp only [bind_ok, pure_ok] at h
    obtain ⟨n, _, hn, rfl, rfl⟩ := h
    obtain ⟨rfl, rfl⟩ := nextMarker_ok hn
    rw [hx.parameters]
    exact .marker hx hk
  · rename_i hk
    subst hm
    simp only [bind_ok, pure_ok] at h
    obtain ⟨o, _, ho, items, _, hi, close, _, hclose, rfl, rfl⟩ := h
    obtain ⟨ho, hko⟩ := Reading.symbol_takes ho
    obtain ⟨hc, hkc⟩ := Reading.symbol_takes hclose
    exact .row hx hk ho hko (hp _ _ _ hi) hc hkc
  · rename_i hk
    subst hm
    exact inBrackets_reads hp hx hk h
  · subst hm
    split at h
    · rename_i hk
      exact named_reads hp hx hk h
    · exact (reject_ok.1 h).elim

theorem operand_reads {parse : Level → Parser Expr} (hp : ∀ level, Follows (parse level)) :
    Follows (operand parse) := by
  intro s e t h
  simp only [operand, bind_ok] at h
  obtain ⟨x, u, hx, h⟩ := h
  obtain ⟨c, hc, rfl⟩ := lift_reader_ok.1 hx
  obtain ⟨rfl, ts, hr⟩ := Reader.current_ok hc
  obtain ⟨m, hm, h⟩ := run_eq h
  split at hm
  · rename_i hk
    subst hm
    simp only [bind_ok, pure_ok] at h
    obtain ⟨y, v, hy, e, _, he, rfl, rfl⟩ := h
    have hy := Reading.next_takes hy
    obtain ⟨rfl, -⟩ := List.cons.inj (hr.symm.trans hy.rest)
    exact .not hy hk (hp _ _ _ _ he)
  · rename_i hk
    subst hm
    simp only [bind_ok] at h
    obtain ⟨y, v, hy, e, _, he, h⟩ := h
    have hy := Reading.next_takes hy
    obtain ⟨rfl, -⟩ := List.cons.inj (hr.symm.trans hy.rest)
    exact .minus hy hk (hp _ _ _ _ he) h
  · rename_i hk
    subst hm
    simp only [bind_ok, pure_ok] at h
    obtain ⟨y, v, hy, e, _, he, rfl, rfl⟩ := h
    have hy := Reading.next_takes hy
    obtain ⟨rfl, -⟩ := List.cons.inj (hr.symm.trans hy.rest)
    exact .plus hy hk (hp _ _ _ _ he)
  · subst hm
    exact primary_reads (followsList_commaSeparated (hp _)) _ _ _ h

theorem operation_reads {parse : Level → Parser Expr} (hp : ∀ level, Follows (parse level))
    {u : Reading} {left : Expr} (hl : Reads s left u) (h : operation parse left u = .ok e t) :
    Reads s e t := by
  simp only [operation, bind_ok] at h
  obtain ⟨x, v, hx, h⟩ := h
  have hx := Reading.next_takes hx
  split at h
  · rename_i hk
    have hk : x.kind = .keyword .IS := by simpa [Token.isKeyword] using hk
    simp only [bind_ok, pure_ok] at h
    obtain ⟨isNegated, w, hskip, null, _, hn, rfl, rfl⟩ := h
    obtain ⟨hn, hkn⟩ := Reading.keyword_takes hn
    rcases Reading.skipKeyword_takes hskip with ⟨rfl, y, hy, hky⟩ | ⟨rfl, rfl⟩
    · exact .isNotNull hl hx hk hy hky hn hkn
    · exact .isNull hl hx hk hn hkn
  · cases hop : operatorOf? x with
    | none =>
      simp only [hop] at h
      exact (reject_ok.1 h).elim
    | some op =>
      simp only [hop, bind_ok, pure_ok] at h
      obtain ⟨right, _, hr, rfl, rfl⟩ := h
      exact .binary hl hx hop (hp _ _ _ _ hr)

/-- The loop of operators: each one extends what was read so far. -/
theorem extendWithin_reads {parse : Level → Parser Expr} (hp : ∀ level, Follows (parse level))
    {level : Level} : ∀ (bound : Nat) {u : Reading} {left : Expr}, Reads s left u →
      extendWithin parse level bound left u = .ok e t → Reads s e t
  | 0, u, left, hl, h => by
    obtain ⟨rfl, rfl⟩ := pure_ok.1 h
    exact hl
  | bound + 1, u, left, hl, h => by
    simp only [extendWithin, bind_ok, get_ok] at h
    obtain ⟨_, _, ⟨rfl, rfl⟩, h⟩ := h
    cases hr : u.cursor.rest with
    | nil =>
      simp only [hr] at h
      obtain ⟨rfl, rfl⟩ := pure_ok.1 h
      exact hl
    | cons x xs =>
      simp only [hr] at h
      split at h
      · obtain ⟨rfl, rfl⟩ := pure_ok.1 h
        exact hl
      · simp only [bind_ok] at h
        obtain ⟨left', v, hop, h⟩ := h
        exact extendWithin_reads hp bound (operation_reads hp hl hop) h

theorem parseWithin_reads : ∀ (bound : Nat) (level : Level), Follows (parseWithin bound level)
  | 0, level => by
    intro s e t h
    simp only [parseWithin, bind_ok, get_ok] at h
    obtain ⟨_, _, -, h⟩ := h
    exact (reject_ok.1 h).elim
  | bound + 1, level => by
    intro s e t h
    have hp := parseWithin_reads bound
    simp only [parseWithin, bind_ok] at h
    obtain ⟨left, u, hl, n, v, hn, h⟩ := h
    obtain rfl := Reading.remaining_stays hn
    exact extendWithin_reads hp n (operand_reads hp _ _ _ hl) h

theorem parseAt_reads (level : Level) : Follows (parseAt level) := by
  intro s e t h
  simp only [parseAt, bind_ok] at h
  obtain ⟨n, v, hn, h⟩ := h
  obtain rfl := Reading.remaining_stays hn
  exact parseWithin_reads _ _ _ _ _ h

theorem parse_reads : Follows parse :=
  parseAt_reads .lowest

theorem parseList_reads : FollowsList parseList :=
  followsList_commaSeparated parse_reads

theorem parseRow_reads (h : parseRow s = .ok e t) :
    ∃ items, ReadsList s items t ∧ e = ofItems s.cursor.fragment items :=
  rowItems_reads parseList_reads h

/-! ## Nothing is bound yet -/

/-- Whether the node is neither a bound column nor a compiled subquery, nor a list of rows. -/
def isRaw (e : Expr) : Bool :=
  match e.kind with
  | .column ref => ref.binding.isNone
  | .query .. | .values _ => false
  | _ => true

/-- Whether a minus can stand before the node. -/
def isNegatable (e : Expr) : Bool :=
  match e.kind with
  | .constant value => value.isNegatable
  | _ => true

/-- Whether the node can be read within an expression, where no subquery stands for a row. -/
def isPlain (e : Expr) : Bool :=
  e.isRaw && e.shape.isPlain && e.isNegatable

/-- An expression in which nothing is bound or compiled. -/
abbrev Raw (e : Expr) : Prop :=
  Each (fun n => n.isRaw = true) e

/-- An expression that can be read within another. -/
abbrev Plain (e : Expr) : Prop :=
  Each (fun n => n.isPlain = true) e

theorem Plain.raw (h : Plain e) : Raw e :=
  h.imp fun n hn => by
    simp only [isPlain, Bool.and_eq_true] at hn
    exact hn.1.1

theorem Plain.regular (h : Plain e) : Regular e :=
  h.imp fun n hn => by
    simp only [isPlain, Bool.and_eq_true] at hn
    exact hn.1.2

theorem Plain.isNegatable (h : Plain e) : e.isNegatable = true := by
  have hnode := h.node
  simp only [isPlain, Bool.and_eq_true] at hnode
  exact hnode.2

/-- Nothing is bound in an expression if nothing is in any of its nodes. -/
theorem raw_iff : Raw e ↔ ∀ n ∈ e.nodes, n.isRaw = true := by
  constructor
  · intro h
    induction h with
    | @intro e hnode _ ih =>
      intro n hn
      rcases mem_nodes.1 hn with ⟨c, hc, hn⟩ | ⟨shape, plan, hk, -⟩ | rfl
      · exact ih c hc n hn
      · simp [isRaw, hk] at hnode
      · exact hnode
  · intro h
    induction e using induct with
    | h e ih =>
      exact .intro (h e (self_mem_nodes e)) fun c hc =>
        ih c hc fun n hn => h n (mem_nodes.2 (.inl ⟨c, hc, hn⟩))

theorem Plain.row {fragment : Fragment} {items : List Expr} (hne : items ≠ [])
    (h : ∀ i ∈ items, Plain i) : Plain (untyped (.row items) fragment) :=
  .intro (by simpa [isPlain, isRaw, Shape.isPlain, Expr.shape, untyped, Expr.isNegatable]
    using List.length_pos_iff.2 hne) h

theorem Plain.ofItems {fragment : Fragment} {items : List Expr} (hne : items ≠ [])
    (h : ∀ i ∈ items, Plain i) : Plain (ofItems fragment items) := by
  rcases items with _ | ⟨item, _ | ⟨second, more⟩⟩
  · exact absurd rfl hne
  · exact h item (by simp)
  · exact .row hne h

theorem Plain.negated {fragment : Fragment} {e' : Expr} (he : Plain e)
    (h : e.negated fragment s = .ok e' t) : Plain e' := by
  obtain ⟨kind, f, type⟩ := e
  unfold Expr.negated at h
  obtain ⟨m, hm, h⟩ := run_eq h
  split at hm
  · split at hm <;> subst hm
    · exact (throw_ok.1 h).elim
    · next hmin =>
      obtain ⟨rfl, rfl⟩ := pure_ok.1 h
      exact .leaf (Value.isNegatable_neg hmin) rfl
  · subst hm
    obtain ⟨rfl, rfl⟩ := pure_ok.1 h
    exact .leaf rfl rfl
  · subst hm
    obtain ⟨rfl, rfl⟩ := pure_ok.1 h
    exact he.wrap rfl rfl

theorem ReadsList.ne_nil {es : List Expr} (h : ReadsList s es t) : es ≠ [] := by
  cases h <;> simp

mutual

theorem Reads.plain : ∀ {s t : Reading} {e : Expr}, Reads s e t → Plain e
  | _, _, _, .literal _ _ hv => .leaf hv rfl
  | _, _, _, .defaultMarker _ _ => .leaf rfl rfl
  | _, _, _, .marker _ _ => .leaf rfl rfl
  | _, _, _, .column _ _ => .leaf rfl rfl
  | _, _, _, .qualified _ _ _ _ _ _ => .leaf rfl rfl
  | _, _, _, .emptyCall _ _ _ _ _ _ => .leaf rfl rfl
  | _, _, _, .call _ _ _ _ ha _ _ => .intro rfl ha.plain
  | _, _, _, .row _ _ _ _ hi _ _ => .row hi.ne_nil hi.plain
  | _, _, _, .bracket _ _ hi _ _ => .ofItems hi.ne_nil hi.plain
  | _, _, _, .query _ _ _ _ => .leaf rfl rfl
  | _, _, _, .not _ _ he => he.plain.wrap rfl rfl
  | _, _, _, .minus _ _ he hn => he.plain.negated hn
  | _, _, _, .plus _ _ he => he.plain.wrap rfl rfl
  | _, _, _, .isNull he _ _ _ _ => he.plain.wrap rfl rfl
  | _, _, _, .isNotNull he _ _ _ _ _ _ => he.plain.wrap rfl rfl
  | _, _, _, .binary hl _ _ hr => hl.plain.pair hr.plain rfl rfl

theorem ReadsList.plain : ∀ {s t : Reading} {es : List Expr}, ReadsList s es t → ∀ e ∈ es, Plain e
  | _, _, _, .single he => by simpa using he.plain
  | _, _, _, .more hes _ _ he => by
    intro e h
    rcases List.mem_append.1 h with h | h
    · exact hes.plain e h
    · exact List.mem_singleton.1 h ▸ he.plain

end

theorem Reads.raw (h : Reads s e t) : Raw e :=
  h.plain.raw

theorem ReadsList.raw {es : List Expr} (h : ReadsList s es t) : ∀ e ∈ es, Raw e :=
  fun e he => (h.plain e he).raw

end Expr

end DataChange
