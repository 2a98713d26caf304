import DataChange.Proofs.Copy.Exprs

/-!
# The words of an expression

The operators bind, from the loosest to the tightest: OR, AND, NOT, the comparisons and IS NULL,
then `+`, `-` and `||`, then `*`, `/` and `%`, and the signs. An expression is written as words,
with brackets around an operand only where its own operator is looser than its place allows: on the
left of an operator and under NOT or a sign the rank of that operator, on its right one rank more. A
word says what a token has to be (`Word.Spells`), so one expression is written in many texts.
-/

namespace DataChange

/-- A part of a written expression. -/
inductive Word where
  | keyword (k : Keyword)
  | symbol (s : Symbol)
  | name (text : String)
  | integer (n : Nat)
  | string (text : String)
  deriving DecidableEq, Repr

/-- The tokens that a word is written as. -/
def Word.Spells : Word → Token → Prop
  | keyword k, t => t.kind = .keyword k
  | symbol s, t => t.kind = .symbol s
  | name text, t => t.isIdentifier = true ∧ t.text = text
  | integer n, t => t.kind = .integer ∧ t.text = toString n
  | string text, t => t.kind = .string ∧ t.text = text

instance Word.decidableSpells : ∀ (w : Word) (t : Token), Decidable (w.Spells t)
  | .keyword _, _ | .symbol _, _ => inferInstanceAs (Decidable (_ = _))
  | .name _, _ | .integer _, _ | .string _, _ => inferInstanceAs (Decidable (_ ∧ _))

/-- Tokens that are written for words. -/
abbrev Spelled (ws : List Word) (ts : List Token) : Prop :=
  List.Forall₂ Word.Spells ws ts

namespace Spelled

variable {w : Word} {ws vs : List Word} {ts : List Token}

theorem cons (h : Spelled (w :: ws) ts) : ∃ t us, ts = t :: us ∧ w.Spells t ∧ Spelled ws us := by
  obtain ⟨t, us, ht, hus, rfl⟩ := List.forall₂_cons_left_iff.1 h
  exact ⟨t, us, rfl, ht, hus⟩

theorem singleton (h : Spelled [w] ts) : ∃ t, ts = [t] ∧ w.Spells t := by
  obtain ⟨t, us, rfl, ht, hus⟩ := h.cons
  obtain rfl := List.forall₂_nil_left_iff.1 hus
  exact ⟨t, rfl, ht⟩

theorem append (h : Spelled (ws ++ vs) ts) : ∃ us us', ts = us ++ us' ∧ Spelled ws us ∧
    Spelled vs us' := by
  induction ws generalizing ts with
  | nil => exact ⟨[], ts, rfl, .nil, h⟩
  | cons w ws ih =>
    obtain ⟨t, us, rfl, ht, hus⟩ := h.cons
    obtain ⟨us, us', rfl, hws, hvs⟩ := ih hus
    exact ⟨t :: us, us', rfl, List.Forall₂.cons ht hws, hvs⟩

theorem bracketed (h : Spelled (.symbol .openParen :: (ws ++ [.symbol .closeParen])) ts) :
    ∃ o us c, ts = o :: (us ++ [c]) ∧ o.kind = .symbol .openParen ∧ Spelled ws us ∧
      c.kind = .symbol .closeParen := by
  obtain ⟨o, us, rfl, ho, hus⟩ := h.cons
  obtain ⟨us, us', rfl, hws, hclose⟩ := hus.append
  obtain ⟨c, rfl, hc⟩ := hclose.singleton
  exact ⟨o, us, c, rfl, ho, hws, hc⟩

end Spelled

/-! ## Operators -/

/-- How tight an operator before its operand binds. -/
def UnaryOp.rank : UnaryOp → Nat
  | not => 3
  | negate | plus => 7

/-- How tight an operator between its operands binds. -/
def BinaryOp.rank : BinaryOp → Nat
  | or => 1
  | and => 2
  | equal | notEqual | less | lessEqual | greater | greaterEqual => 4
  | add | subtract | concat => 5
  | multiply | divide | remainder => 6

def UnaryOp.word : UnaryOp → Word
  | not => .keyword .NOT
  | negate => .symbol .minus
  | plus => .symbol .plus

def BinaryOp.word : BinaryOp → Word
  | and => .keyword .AND
  | or => .keyword .OR
  | equal => .symbol .equal
  | notEqual => .symbol .notEqual
  | less => .symbol .less
  | lessEqual => .symbol .lessEqual
  | greater => .symbol .greater
  | greaterEqual => .symbol .greaterEqual
  | add => .symbol .plus
  | subtract => .symbol .minus
  | multiply => .symbol .asterisk
  | divide => .symbol .slash
  | remainder => .symbol .percent
  | concat => .symbol .concat

/-! ## Numbers -/

namespace Decimal

theorem all_isDigit_toDigits (k : Nat) : (Nat.toDigits 10 k).all Char.isDigit = true :=
  List.all_eq_true.2 fun _ h => Nat.isDigit_of_mem_toDigits (by decide) (by decide) h

/-- The digits of a number spell it. -/
theorem digitsValue_toDigits (k : Nat) : digitsValue (Nat.toDigits 10 k) = k := by
  have hvalue : ∀ cs, digitsValue cs = Nat.ofDigitChars 10 cs 0 := by
    intro cs
    simp only [digitsValue, Nat.ofDigitChars, Nat.mul_comm]
  rw [hvalue, Nat.ofDigitChars_ten_toDigits]

/-- The magnitude of a number is read if 64 signed bits have room for it. -/
theorem readInt64?_toString {k : Nat} (h : (k : Int) ≤ Int64.maxValue.toInt) :
    readInt64? (toString k) = some (Int64.ofInt k) := by
  have hread : readInt? (toString k).toList = some (k : Int) := by
    simp [readInt?, splitSign_digits (all_isDigit_toDigits k), Nat.toDigits_ne_nil,
      all_isDigit_toDigits, digitsValue_toDigits]
  have hmin : Int64.minValue.toInt ≤ (k : Int) := by
    rw [Int64.toInt_minValue]
    omega
  simp only [readInt64?, hread, hmin, h, decide_true, Bool.and_self, ↓reduceIte]

theorem readInt64?_natAbs {n : Int64} (h : ¬ n < 0) :
    readInt64? (toString n.toInt.natAbs) = some n := by
  have hpos : 0 ≤ n.toInt := by simpa [Int64.lt_iff_toInt_lt] using h
  have hroom : (n.toInt.natAbs : Int) ≤ Int64.maxValue.toInt := by
    rw [Int.natAbs_of_nonneg hpos]
    exact Int64.toInt_le n
  rw [readInt64?_toString hroom, Int.natAbs_of_nonneg hpos, Int64.ofInt_toInt]

theorem readInt64?_natAbs_neg {n : Int64} (h : n < 0) (hmin : n ≠ Int64.minValue) :
    readInt64? (toString n.toInt.natAbs) = some (-n) := by
  have hneg : n.toInt < 0 := by simpa [Int64.lt_iff_toInt_lt] using h
  have hle := Int64.minValue_le_toInt n
  have hne : n.toInt ≠ Int64.minValue.toInt := fun hn => hmin (Int64.toInt_inj.1 hn)
  have hroom : (n.toInt.natAbs : Int) ≤ Int64.maxValue.toInt := by
    rw [Int64.toInt_minValue] at hle hne
    rw [Int64.toInt_maxValue]
    omega
  rw [readInt64?_toString hroom, Int.ofNat_natAbs_of_nonpos (by omega), Int64.ofInt_neg,
    Int64.ofInt_toInt]

end Decimal

/-! ## Expressions -/

/-- A literal; a number below zero has its sign before it. -/
def Value.words : Value → List Word
  | null => [.keyword .NULL]
  | boolean true => [.keyword .TRUE]
  | boolean false => [.keyword .FALSE]
  | bigint n =>
    if n < 0 then [.symbol .minus, .integer n.toInt.natAbs] else [.integer n.toInt.natAbs]
  | varchar s => [.string s]
  | double _ => []

def ColumnRef.words (ref : ColumnRef) : List Word :=
  match ref.qualifier with
  | some qualifier => [.name qualifier, .symbol .dot, .name ref.name]
  | none => [.name ref.name]

namespace Expr

/-- The rank of IS NULL is that of a comparison. -/
def isNullRank : Nat := BinaryOp.equal.rank

/-- How tight the operator of a node binds; other nodes are tighter than every operator. -/
def rank (kind : ExprKind) : Nat :=
  match kind with
  | .binary op _ _ => op.rank
  | .isNull _ _ => isNullRank
  | .unary op _ => op.rank
  | _ => 8

/-- Brackets around the words of a node that is looser than its place allows. -/
def inPlace (least : Nat) (kind : ExprKind) (words : List Word) : List Word :=
  if rank kind < least then .symbol .openParen :: (words ++ [.symbol .closeParen]) else words

mutual

/-- The words of an expression in a place that allows operators of at least a rank. -/
def words (least : Nat) : Expr → List Word
  | ⟨kind, _, _⟩ => inPlace least kind (kindWords kind)

def kindWords : ExprKind → List Word
  | .constant value => value.words
  | .column ref => ref.words
  | .row items => .keyword .ROW :: .symbol .openParen :: (listWords items ++ [.symbol .closeParen])
  | .call name _ arguments =>
    .name name :: .symbol .openParen :: (listWords arguments ++ [.symbol .closeParen])
  | .unary op operand => op.word :: words op.rank operand
  | .binary op left right =>
    words op.rank left ++ op.word :: words (op.rank + 1) right
  | .isNull operand negated =>
    words isNullRank operand ++ .keyword .IS ::
      (if negated then [.keyword .NOT, .keyword .NULL] else [.keyword .NULL])
  | _ => []

/-- The words of expressions with commas between them. -/
def listWords : List Expr → List Word
  | [] => []
  | e :: es => words 0 e ++ furtherWords es

/-- The words of expressions with a comma before each of them. -/
def furtherWords : List Expr → List Word
  | [] => []
  | e :: es => .symbol .comma :: (words 0 e ++ furtherWords es)

end

theorem words_eq (least : Nat) (e : Expr) :
    words least e = inPlace least e.kind (kindWords e.kind) := by
  obtain ⟨kind, fragment, type⟩ := e
  rfl

/-! ## Expressions that can be written -/

/-- Whether the node is a number. -/
def isNumber (e : Expr) : Bool :=
  match e.kind with
  | .constant (.bigint _) | .constant (.double _) => true
  | _ => false

end Expr

/-- Whether the value is written exactly: doubles are not, and the magnitude of the lowest number is
not a number. -/
def Value.isWritable : Value → Bool
  | double _ => false
  | v => v.isNegatable

/-- An expression without parameters, subqueries and DEFAULT, in which no minus is before a number
and nothing is bound. -/
inductive Expr.Writable : Expr → Prop
  | literal {value : Value} (hv : value.isWritable = true) (f : Fragment) :
      Writable (.literal value f)
  | column (qualifier : Option String) (name : String) (f : Fragment) :
      Writable (.untyped (.column ⟨qualifier, name, none⟩) f)
  | row {items : List Expr} (hne : items ≠ []) (h : ∀ i ∈ items, Writable i) (f : Fragment) :
      Writable (.untyped (.row items) f)
  | call (name : String) {arguments : List Expr} (h : ∀ i ∈ arguments, Writable i) (f : Fragment) :
      Writable (.untyped (.call name none arguments) f)
  | unary {op : UnaryOp} {operand : Expr} (h : Writable operand)
      (hsign : op = .negate → operand.isNumber = false) (f : Fragment) :
      Writable (.untyped (.unary op operand) f)
  | binary (op : BinaryOp) {left right : Expr} (hl : Writable left) (hr : Writable right)
      (f : Fragment) : Writable (.untyped (.binary op left right) f)
  | isNull {operand : Expr} (h : Writable operand) (negated : Bool) (f : Fragment) :
      Writable (.untyped (.isNull operand negated) f)

/-! ## The first word -/

/-- Whether an expression can start with the word. -/
def Word.startsExpr : Word → Bool
  | keyword k => k = .NOT || k = .NULL || k = .TRUE || k = .FALSE || k = .ROW
  | symbol s => s = .minus || s = .plus || s = .openParen
  | name _ | integer _ | string _ => true

/-- The words are not none, and an expression can start with the first one. -/
def Leading (ws : List Word) : Prop :=
  ∃ w more, ws = w :: more ∧ w.startsExpr = true

namespace Word

variable {w : Word} {t : Token}

/-- No query starts with what an expression starts with. -/
theorem startsQuery_of_startsExpr (hw : w.startsExpr = true) (ht : w.Spells t)
    (past ts : List Token) : Cursor.startsQuery ⟨past, t :: ts⟩ = false := by
  simp only [Cursor.startsQuery, Cursor.isKeyword, Cursor.peek?, List.head?_cons, Option.any_some,
    Token.isKeyword, Bool.or_eq_false_iff, decide_eq_false_iff_not]
  cases w with
  | keyword k =>
    have hk : t.kind = .keyword k := ht
    rw [hk]
    cases k <;> simp [startsExpr] at hw ⊢
  | symbol s =>
    have hk : t.kind = .symbol s := ht
    simp [hk]
  | name text =>
    have hname := ht.1
    refine ⟨⟨⟨?_, ?_⟩, ?_⟩, ?_⟩ <;> intro hk <;>
      simp [Token.isIdentifier, hk, Keyword.isReserved] at hname
  | integer n => simp [ht.1]
  | string text => simp [ht.1]

theorem kind_ne_closeParen (hw : w.startsExpr = true) (ht : w.Spells t) :
    t.kind ≠ .symbol .closeParen := by
  intro hk
  cases w with
  | symbol s =>
    obtain rfl : Symbol.closeParen = s := by simpa [hk, Spells] using ht
    simp [startsExpr] at hw
  | name text => simp [Token.isIdentifier, hk, Spells] at ht
  | _ => simp [hk, Spells] at ht

end Word

namespace Leading

variable {ws : List Word}

theorem append (h : Leading ws) (more : List Word) : Leading (ws ++ more) := by
  obtain ⟨w, ws, rfl, hw⟩ := h
  exact ⟨w, ws ++ more, rfl, hw⟩

theorem inPlace (h : Leading ws) (least : Nat) (kind : ExprKind) :
    Leading (Expr.inPlace least kind ws) := by
  unfold Expr.inPlace
  split
  · exact ⟨_, _, rfl, rfl⟩
  · exact h

/-- The first of the tokens that the words are written as. -/
theorem first_token (h : Leading ws) {ts : List Token} (hts : Spelled ws ts) :
    ∃ t us, ts = t :: us ∧ t.kind ≠ .symbol .closeParen ∧
      ∀ past more, Cursor.startsQuery ⟨past, t :: more⟩ = false := by
  obtain ⟨w, ws, rfl, hw⟩ := h
  obtain ⟨t, us, rfl, ht, -⟩ := hts.cons
  exact ⟨t, us, rfl, Word.kind_ne_closeParen hw ht, Word.startsQuery_of_startsExpr hw ht⟩

end Leading

/-- A number below zero has two words, every other value one. -/
theorem Value.words_cases {v : Value} (hv : v.isWritable = true) : (∃ w, v.words = [w]) ∨
    ∃ n : Int64, v = .bigint n ∧ n < 0 ∧ n ≠ Int64.minValue ∧
      v.words = [.symbol .minus, .integer n.toInt.natAbs] := by
  cases v with
  | null => exact .inl ⟨_, rfl⟩
  | boolean b => cases b <;> exact .inl ⟨_, rfl⟩
  | bigint n =>
    by_cases hn : n < 0
    · exact .inr ⟨n, rfl, hn, by simpa [isWritable, isNegatable] using hv, by simp [words, hn]⟩
    · exact .inl ⟨.integer n.toInt.natAbs, by simp only [words, hn, ↓reduceIte]⟩
  | varchar s => exact .inl ⟨_, rfl⟩
  | double x => cases hv

theorem Value.leading {v : Value} (hv : v.isWritable = true) : Leading v.words := by
  cases v with
  | null => exact ⟨_, _, rfl, rfl⟩
  | boolean b => cases b <;> exact ⟨_, _, rfl, rfl⟩
  | bigint n =>
    simp only [words]
    split
    · exact ⟨_, _, rfl, rfl⟩
    · exact ⟨_, _, rfl, rfl⟩
  | varchar s => exact ⟨_, _, rfl, rfl⟩
  | double x => cases hv

namespace Expr.Writable

variable {e : Expr}

theorem kind_leading (h : e.Writable) : Leading (kindWords e.kind) := by
  induction h with
  | literal hv f => exact Value.leading hv
  | column qualifier name f => cases qualifier <;> exact ⟨_, _, rfl, rfl⟩
  | row | call => exact ⟨_, _, rfl, rfl⟩
  | @unary op => cases op <;> exact ⟨_, _, rfl, rfl⟩
  | @binary op left right _ _ _ ihl =>
    have hleft := ihl.inPlace op.rank left.kind
    rw [← words_eq] at hleft
    exact hleft.append _
  | @isNull operand _ negated _ ih =>
    have hoperand := ih.inPlace isNullRank operand.kind
    rw [← words_eq] at hoperand
    exact hoperand.append _

theorem leading (h : e.Writable) (least : Nat) : Leading (e.words least) := by
  rw [words_eq]
  exact h.kind_leading.inPlace _ _

end Expr.Writable

end DataChange
