import DataChange.Proofs.Expr.Yields
import DataChange.Proofs.Statement.CompileRuns

/-!
# Operators bind as tight as they should

From the words of an expression the parser reads that expression (`Expr.parse_words`). The parser
reads an operand and extends it operator by operator, so what is said of an expression is not that
it is read but that whatever is read of it, extended by what comes after, is read (`Begins`). A node
is read from its words alone where the place has room for it (`ReadFrom`); brackets make room
anywhere.
-/

namespace DataChange

namespace Expr

variable {level : Level} {least n : Nat} {ts us rest : List Token} {t : Token} {e e' : Expr}

/-! ## What an expression begins with -/

/-- At a level, an expression begins with one that is written as some tokens: if operators extend
it to another one, that one is read. -/
def Begins (n : Nat) (level : Level) (ts rest : List Token) (e : Expr) : Prop :=
  ∀ us last e', rest = us ++ last →
    (∀ bound, rest.length ≤ bound →
      Yields (extendWithin (parseWithin n) level bound e) us last e') →
    Yields (parseWithin (n + 1) level) (ts ++ us) last e'

theorem Begins.ended (h : Begins n level ts rest e)
    (hrest : ∀ t ∈ rest.head?, (levelOf t).rank ≤ level.rank) :
    Yields (parseWithin (n + 1) level) ts rest e := by
  simpa using h [] rest e rfl fun _ _ => extendWithin_stops hrest

theorem Begins.operand (h : Yields (operand (parseWithin n)) ts rest e) :
    Begins n level ts rest e := by
  rintro us last e' rfl hextend
  exact h.bind (.remaining (hextend _ (Nat.le_refl _)))

/-- An operator that binds tighter than the level extends what the expression begins with. -/
theorem Begins.operation (h : Begins n level ts (t :: us ++ rest) e)
    (htight : level.rank < (levelOf t).rank)
    (hop : Yields (operation (parseWithin n) e) (t :: us) rest e') :
    Begins n level (ts ++ t :: us) rest e' := by
  rintro vs last r rfl hextend
  rw [List.append_assoc]
  refine h _ last r (by simp) fun bound hbound => ?_
  -- the operator is one token, so the rest of the bound is enough for what comes after
  obtain ⟨bound, rfl⟩ : ∃ k, bound = k + 1 := ⟨bound - 1, by simp at hbound; omega⟩
  have hlater := hop.bind (hextend bound (by simp at hbound ⊢; omega))
  intro past k
  rw [List.cons_append, List.cons_append, extendWithin_cons rfl, if_neg (by omega)]
  exact hlater past k

/-! ## Places -/

/-- What is as tight as a place allows is tighter than a level. -/
def Holds (level : Level) (least : Nat) : Prop :=
  ∀ op : BinaryOp, least ≤ op.rank → level.rank < op.rank

/-- Wherever operators of a rank are allowed, an expression is read that begins with a given one if
the tokens are its words. -/
def ReadFrom (least : Nat) (ws : List Word) (e : Expr) : Prop :=
  ∀ level n ts rest, Holds level least → Stops least rest → (ts ++ rest).length ≤ n →
    Spelled ws ts → ∃ e', e.Copied false e' ∧ Begins n level ts rest e'

theorem holds_lowest : Holds .lowest least := by
  intro op _
  cases op <;> decide

/-- No operator between operands is as tight as a sign, and NOT is looser than a comparison. -/
theorem holds_operand (op : UnaryOp) : Holds op.level op.rank := by
  intro op' h
  cases op <;> cases op' <;> revert h <;> decide

theorem spelled_operator {op : BinaryOp} (h : op.word.Spells t) :
    operatorOf? t = some op ∧ (levelOf t).rank = op.rank ∧ t.kind ≠ .symbol .openParen ∧
      t.kind ≠ .symbol .dot := by
  cases op <;> simp_all [BinaryOp.word, Word.Spells, operatorOf?, levelOf, BinaryOp.ofSymbol?,
    BinaryOp.level, Level.rank, BinaryOp.rank]

namespace ReadFrom

variable {ws : List Word}

theorem mono {more : Nat} (h : ReadFrom more ws e) (hle : least ≤ more) : ReadFrom least ws e :=
  fun _ _ _ _ hholds hrest =>
    h _ _ _ _ (fun op hop => hholds op (Nat.le_trans hle hop)) (hrest.mono hle)

/-- The expression alone, where no operator of the level follows. -/
theorem yields (h : ReadFrom least ws e) (hholds : Holds level least) (hrest : Stops least rest)
    (hend : Stops level.rank rest) (hn : (ts ++ rest).length ≤ n) (hts : Spelled ws ts) :
    ∃ e', e.Copied false e' ∧ Yields (parseWithin (n + 1) level) ts rest e' := by
  obtain ⟨e', hcopied, hbegins⟩ := h _ _ _ _ hholds hrest hn hts
  exact ⟨e', hcopied, hbegins.ended fun t ht => (hend t ht).1⟩

/-- Brackets make room for any operator. -/
theorem bracketed (h : ReadFrom (rank e.kind) ws e) (hleading : Leading ws) :
    ReadFrom least (.symbol .openParen :: (ws ++ [.symbol .closeParen])) e := by
  intro level n ts rest _ _ hn hts
  obtain ⟨o, us, c, rfl, ho, hus, hc⟩ := hts.bracketed
  -- the bracket is one token, so one level of nesting less is enough for what is in it
  obtain ⟨n, rfl⟩ : ∃ k, n = k + 1 := ⟨n - 1, by simp at hn; omega⟩
  have hend : ∀ {least}, Stops least (c :: rest) := stops_symbol hc (.inr rfl)
  obtain ⟨e', hcopied, he'⟩ := h.yields holds_lowest hend hend (by simp at hn ⊢; omega) hus
  refine ⟨e', hcopied, .operand (operand_primary (by simp [ho]) ?_)⟩
  obtain ⟨t, us, rfl, -, hquery⟩ := hleading.first_token hus
  refine primary_bracketed ho (by simp) ?_ ?_ hc
  · rintro _ ⟨⟩
    exact hquery [] []
  · exact .commaSeparated_single he' (by simp [Lacks, hc])

/-- In a place, brackets are where the operator is too loose. -/
theorem inPlace (h : ReadFrom (rank e.kind) (kindWords e.kind) e)
    (hleading : Leading (kindWords e.kind)) (least : Nat) : ReadFrom least (e.words least) e := by
  rw [words_eq, Expr.inPlace]
  split
  · exact h.bracketed hleading
  · next hle => exact h.mono (Nat.not_lt.1 hle)

end ReadFrom

/-! ## Lists -/

/-- A comma or the closing bracket follows an item. -/
theorem stops_further {es : List Expr} {close : Token} (hclose : close.kind = .symbol .closeParen)
    (hts : Spelled (furtherWords es) ts) : Stops least (ts ++ close :: rest) := by
  cases es with
  | nil =>
    obtain rfl := List.forall₂_nil_left_iff.1 hts
    exact stops_symbol hclose (.inr rfl)
  | cons e es =>
    obtain ⟨comma, us, rfl, hcomma, -⟩ := hts.cons
    exact stops_symbol hcomma (.inl rfl)

theorem further_read {items : List Expr} (h : ∀ i ∈ items, ReadFrom 0 (i.words 0) i) {close : Token}
    (hclose : close.kind = .symbol .closeParen) (hn : (ts ++ close :: rest).length ≤ n)
    (hts : Spelled (furtherWords items) ts) :
    ∃ items', List.Forall₂ (Copied false) items items' ∧
      Yields.Further (parseWithin (n + 1) .lowest) (close :: rest) ts items' := by
  induction items generalizing ts with
  | nil =>
    obtain rfl := List.forall₂_nil_left_iff.1 hts
    exact ⟨[], .nil, .ended⟩
  | cons e es ih =>
    obtain ⟨comma, us, rfl, hcomma, hus⟩ := hts.cons
    obtain ⟨us, vs, rfl, hus, hvs⟩ := hus.append
    have hend : Stops 0 (vs ++ close :: rest) := stops_further hclose hvs
    have hfirst : (us ++ (vs ++ close :: rest)).length ≤ n := by simp at hn ⊢; omega
    have hothers : (vs ++ close :: rest).length ≤ n := by simp at hn ⊢; omega
    obtain ⟨e', hcopied, he'⟩ := (h e (by simp)).yields holds_lowest hend hend hfirst hus
    obtain ⟨es', hes', hfurther⟩ := ih (fun i hi => h i (by simp [hi])) hothers hvs
    exact ⟨e' :: es', .cons hcopied hes', .more hcomma he' hfurther⟩

theorem list_read {items : List Expr} (hne : items ≠ [])
    (h : ∀ i ∈ items, ReadFrom 0 (i.words 0) i) {close : Token}
    (hclose : close.kind = .symbol .closeParen) (hn : (ts ++ close :: rest).length ≤ n)
    (hts : Spelled (listWords items) ts) :
    ∃ items', List.Forall₂ (Copied false) items items' ∧
      Yields (commaSeparated (parseWithin (n + 1) .lowest)) ts (close :: rest) items' := by
  obtain ⟨e, es, rfl⟩ := List.exists_cons_of_ne_nil hne
  obtain ⟨us, vs, rfl, hus, hvs⟩ := Spelled.append hts
  have hend : Stops 0 (vs ++ close :: rest) := stops_further hclose hvs
  have hfirst : (us ++ (vs ++ close :: rest)).length ≤ n := by simp at hn ⊢; omega
  have hothers : (vs ++ close :: rest).length ≤ n := by simp at hn ⊢; omega
  obtain ⟨e', hcopied, he'⟩ := (h e (by simp)).yields holds_lowest hend hend hfirst hus
  obtain ⟨es', hes', hfurther⟩ := further_read (fun i hi => h i (by simp [hi])) hclose hothers hvs
  exact ⟨e' :: es', .cons hcopied hes', .commaSeparated he' hfurther (by simp [Lacks, hclose])⟩

/-! ## Nodes -/

/-- What is read as an operand is read from every level. -/
theorem ReadFrom.operand {ws : List Word}
    (h : ∀ n ts rest, Stops least rest → (ts ++ rest).length ≤ n → Spelled ws ts →
      ∃ e', e.Copied false e' ∧ Yields (Expr.operand (parseWithin n)) ts rest e') :
    ReadFrom least ws e := by
  intro level n ts rest _ hrest hn hts
  obtain ⟨e', hcopied, he'⟩ := h n ts rest hrest hn hts
  exact ⟨e', hcopied, .operand he'⟩

/-- A number below zero is read as its magnitude, and the minus goes into it. -/
theorem operand_negative {v : Int64} {minus : Token} (hv : v < 0) (hmin : v ≠ Int64.minValue)
    (hminus : minus.kind = .symbol .minus) (ht : (Word.integer v.toInt.natAbs).Spells t) :
    ∃ f, Yields (Expr.operand (parseWithin (n + 1))) [minus, t] rest (literal (.bigint v) f) := by
  have hread := Decimal.readInt64?_natAbs_neg hv hmin
  rw [← ht.2] at hread
  have hsign : Yields (parseWithin (n + 1) .sign) [t] rest (literal (.bigint (-v)) t.fragment) :=
    (Begins.operand (operand_integer ht.1 hread)).ended fun x _ => levelOf_le x
  have hneg : -v ≠ Int64.minValue := by
    simpa [Value.isNegatable] using Value.isNegatable_neg hmin
  refine ⟨minus.fragment.withText ("-" ++ (Value.bigint (-v)).text), .current ?_⟩
  simp only [hminus]
  refine .next (.last hsign ?_)
  simp only [negated, literal, hneg, ↓reduceIte, Int64.neg_neg]
  exact .pure _ _

theorem literal_copied (v : Value) (f f' : Fragment) :
    (literal v f).Copied false (literal v f') :=
  .intro (.constant v) (by simp)

theorem literal_read {v : Value} (hv : v.isWritable = true) (f : Fragment) :
    ReadFrom least v.words (literal v f) := by
  refine .operand fun n ts rest hrest hn hts => ?_
  rcases Value.words_cases hv with ⟨w, hw⟩ | ⟨k, rfl, hk, hmin, hw⟩
  · rw [hw] at hts
    obtain ⟨t, rfl, ht⟩ := Spelled.singleton hts
    exact ⟨_, literal_copied v f _, operand_literal hw ht⟩
  · rw [hw] at hts
    obtain ⟨minus, us, rfl, hminus, hus⟩ := Spelled.cons hts
    obtain ⟨t, rfl, ht⟩ := hus.singleton
    obtain ⟨n, rfl⟩ : ∃ m, n = m + 1 := ⟨n - 1, by simp at hn; omega⟩
    obtain ⟨f', hf'⟩ := operand_negative hk hmin hminus ht
    exact ⟨_, literal_copied _ f f', hf'⟩

theorem column_read (qualifier : Option String) (name : String) (f : Fragment) :
    ReadFrom least (ColumnRef.words ⟨qualifier, name, none⟩)
      (untyped (.column ⟨qualifier, name, none⟩) f) := by
  refine .operand fun n ts rest hrest hn hts => ?_
  cases qualifier with
  | none =>
    obtain ⟨t, rfl, ht, rfl⟩ := Spelled.singleton hts
    exact ⟨_, .intro (.column _) (by simp),
      operand_primary (isIdentifier_not_sign ht) (primary_named ht (named_column hrest))⟩
  | some qualifier =>
    obtain ⟨t, us, rfl, ⟨ht, rfl⟩, hus⟩ := Spelled.cons hts
    obtain ⟨dot, us, rfl, hdot, hus⟩ := hus.cons
    obtain ⟨column, rfl, hcolumn, rfl⟩ := hus.singleton
    exact ⟨_, .intro (.column _) (by simp),
      operand_primary (isIdentifier_not_sign ht) (primary_named ht (named_qualified hdot hcolumn))⟩

theorem row_read {items : List Expr} (hne : items ≠ [])
    (h : ∀ i ∈ items, ReadFrom 0 (i.words 0) i) (f : Fragment) :
    ReadFrom least (kindWords (.row items)) (untyped (.row items) f) := by
  refine .operand fun n ts rest hrest hn hts => ?_
  obtain ⟨t, us, rfl, ht, hus⟩ := Spelled.cons hts
  obtain ⟨o, us, close, rfl, ho, hus, hclose⟩ := hus.bracketed
  obtain ⟨n, rfl⟩ : ∃ k, n = k + 1 := ⟨n - 1, by simp at hn; omega⟩
  have hlength : (us ++ close :: rest).length ≤ n := by simp at hn ⊢; omega
  obtain ⟨items', hcopied, hitems⟩ := list_read hne h hclose hlength hus
  have hk : t.kind = .keyword .ROW := ht
  exact ⟨_, .intro (.row hcopied) (by simp),
    operand_primary (by simp [hk]) (primary_row hk ho hitems hclose)⟩

theorem call_read (name : String) {arguments : List Expr}
    (hleading : ∀ i ∈ arguments, Leading (i.words 0))
    (h : ∀ i ∈ arguments, ReadFrom 0 (i.words 0) i) (f : Fragment) :
    ReadFrom least (kindWords (.call name none arguments))
      (untyped (.call name none arguments) f) := by
  refine .operand fun n ts rest hrest hn hts => ?_
  obtain ⟨t, us, rfl, ⟨ht, rfl⟩, hus⟩ := Spelled.cons hts
  obtain ⟨o, us, close, rfl, ho, hus, hclose⟩ := hus.bracketed
  obtain ⟨n, rfl⟩ : ∃ k, n = k + 1 := ⟨n - 1, by simp at hn; omega⟩
  suffices hnamed : ∃ arguments', List.Forall₂ (Copied false) arguments arguments' ∧
      Yields (named (commaSeparated (parseWithin (n + 1) .lowest)) t) (o :: (us ++ [close])) rest
        (untyped (.call t.text none arguments') t.fragment) by
    obtain ⟨arguments', hcopied, hnamed⟩ := hnamed
    exact ⟨_, .intro (.call _ _ hcopied) (by simp),
      operand_primary (isIdentifier_not_sign ht) (primary_named ht hnamed)⟩
  -- the parser looks for the closing bracket before it reads any argument
  cases arguments with
  | nil =>
    obtain rfl := List.forall₂_nil_left_iff.1 hus
    exact ⟨[], .nil, named_call ho (.inr ⟨rfl, rfl⟩) hclose⟩
  | cons e es =>
    have hfirst : Leading (listWords (e :: es)) := (hleading e (by simp)).append _
    obtain ⟨x, xs, rfl, hx, -⟩ := hfirst.first_token hus
    have hlength : (x :: xs ++ close :: rest).length ≤ n := by simp at hn ⊢; omega
    obtain ⟨arguments', hcopied, hitems⟩ := list_read (by simp) h hclose hlength hus
    have hlacks : Lacks (.symbol .closeParen) (x :: xs) := by
      rintro _ ⟨⟩
      exact hx
    exact ⟨arguments', hcopied, named_call ho (.inl ⟨by simp, hlacks, hitems⟩) hclose⟩

theorem Copied.isNumber (h : e.Copied false e') : e'.isNumber = e.isNumber := by
  obtain ⟨hkind, -⟩ := h
  cases hkind <;> rfl

theorem unary_read {op : UnaryOp} (hsign : op = .negate → e.isNumber = false)
    (h : ReadFrom op.rank (e.words op.rank) e) (f : Fragment) :
    ReadFrom op.rank (kindWords (.unary op e)) (untyped (.unary op e) f) := by
  refine .operand fun n ts rest hrest hn hts => ?_
  obtain ⟨t, us, rfl, ht, hus⟩ := Spelled.cons hts
  obtain ⟨n, rfl⟩ : ∃ k, n = k + 1 := ⟨n - 1, by simp at hn; omega⟩
  have hlength : (us ++ rest).length ≤ n := by simp at hn ⊢; omega
  have hend : Stops op.level.rank rest := by rwa [op.rank_level]
  obtain ⟨e', hcopied, he'⟩ := h.yields (holds_operand op) hrest hend hlength hus
  exact ⟨_, .intro (.unary op hcopied) (by simp),
    operand_unary ht (fun hop => hcopied.isNumber.trans (hsign hop)) he'⟩

theorem binary_read {op : BinaryOp} {left right : Expr}
    (hl : ReadFrom op.rank (left.words op.rank) left)
    (hr : ReadFrom (op.rank + 1) (right.words (op.rank + 1)) right) (f : Fragment) :
    ReadFrom op.rank (kindWords (.binary op left right))
      (untyped (.binary op left right) f) := by
  intro level n ts rest hholds hrest hn hts
  obtain ⟨us, vs, rfl, hus, hvs⟩ := Spelled.append hts
  obtain ⟨t, vs, rfl, ht, hvs⟩ := hvs.cons
  obtain ⟨hop, hlevel, hopen, hdot⟩ := spelled_operator ht
  obtain ⟨n, rfl⟩ : ∃ k, n = k + 1 := ⟨n - 1, by simp at hn; omega⟩
  have hstops : Stops op.rank (t :: vs ++ rest) := by
    rintro _ ⟨⟩
    exact ⟨Nat.le_of_eq hlevel, hopen, hdot⟩
  -- the left operand is not read alone: the whole begins with it
  obtain ⟨left', hleft, hbegins⟩ := hl _ _ _ _ hholds hstops (by simpa using hn) hus
  have hlength : (vs ++ rest).length ≤ n := by simp at hn ⊢; omega
  have htighter : Holds op.level (op.rank + 1) := fun op' h => by rwa [op.rank_level]
  have hend : Stops op.level.rank rest := by rwa [op.rank_level]
  obtain ⟨right', hright, hyields⟩ :=
    hr.yields htighter (hrest.mono (Nat.le_succ _)) hend hlength hvs
  exact ⟨_, .intro (.binary op hleft hright) (by simp),
    hbegins.operation (hlevel ▸ hholds op (Nat.le_refl _)) (operation_binary hop hyields)⟩

theorem isNull_read (h : ReadFrom isNullRank (e.words isNullRank) e) (isNegated : Bool)
    (f : Fragment) :
    ReadFrom isNullRank (kindWords (.isNull e isNegated))
      (untyped (.isNull e isNegated) f) := by
  intro level n ts rest hholds hrest hn hts
  obtain ⟨us, vs, rfl, hus, hvs⟩ := Spelled.append hts
  obtain ⟨t, vs, rfl, ht, hvs⟩ := hvs.cons
  have hk : t.kind = .keyword .IS := ht
  have hlevel : (levelOf t).rank = isNullRank := by
    simp only [levelOf, hk]
    rfl
  -- IS follows the operand, and stops the parser at this rank
  have hstops : Stops isNullRank (t :: vs ++ rest) := by
    rintro _ ⟨⟩
    simp [hlevel, hk]
  obtain ⟨e', hcopied, hbegins⟩ := h _ _ _ _ hholds hstops (by simpa using hn) hus
  have htight : level.rank < (levelOf t).rank := hlevel ▸ hholds .equal (Nat.le_refl _)
  refine ⟨untyped (.isNull e' isNegated) t.fragment, .intro (.isNull hcopied _) (by simp), ?_⟩
  cases isNegated with
  | false =>
    obtain ⟨null, rfl, hnull⟩ := Spelled.singleton hvs
    exact hbegins.operation htight (operation_isNull hk hnull)
  | true =>
    obtain ⟨not, vs, rfl, hnot, hvs⟩ := Spelled.cons hvs
    obtain ⟨null, rfl, hnull⟩ := hvs.singleton
    exact hbegins.operation htight (operation_isNotNull hk hnot hnull)

/-- Every expression is read from its words, with brackets or without them. -/
theorem Writable.read (h : e.Writable) : ReadFrom (rank e.kind) (kindWords e.kind) e := by
  induction h with
  | literal hv f => exact literal_read hv f
  | column qualifier name f => exact column_read qualifier name f
  | row hne h f ih => exact row_read hne (fun i hi => (ih i hi).inPlace (h i hi).kind_leading 0) f
  | call name h f ih =>
    exact call_read name (fun i hi => (h i hi).leading 0)
      (fun i hi => (ih i hi).inPlace (h i hi).kind_leading 0) f
  | unary h hsign f ih => exact unary_read hsign (ih.inPlace h.kind_leading _) f
  | binary op hl hr f ihl ihr =>
    exact binary_read (ihl.inPlace hl.kind_leading _) (ihr.inPlace hr.kind_leading _) f
  | isNull h isNegated f ih => exact isNull_read (ih.inPlace h.kind_leading _) isNegated f

theorem Writable.parse (h : e.Writable) (hts : Spelled (e.words 0) ts) (hrest : Stops 0 rest) :
    ∃ e', e.Copied false e' ∧ Yields Expr.parse ts rest e' := by
  have hread : ReadFrom 0 (e.words 0) e := h.read.inPlace h.kind_leading 0
  obtain ⟨e', hcopied, hyields⟩ := hread.yields holds_lowest hrest hrest (Nat.le_refl _) hts
  exact ⟨e', hcopied, .remaining hyields⟩

/-- The tokens that an expression is written as are read as the same expression up to the
fragments, and the parser stops right after them, unless a token follows that an expression goes on
with. -/
theorem parse_words (h : e.Writable) (hts : Spelled (e.words 0) ts)
    (hrest : ∀ t ∈ rest.head?, extendedBy t = false) :
    ∃ e', e.Copied false e' ∧ ∀ past n,
      Expr.parse ⟨⟨past, ts ++ rest⟩, n⟩ = .ok e' ⟨⟨ts.reverse ++ past, rest⟩, n⟩ :=
  h.parse hts (stops_of_not_extendedBy hrest)

/-- An expression whose operators stand on either side of looser and of tighter ones. -/
def mixed : Expr :=
  let column (name : String) : Expr := untyped (.column ⟨none, name, none⟩) .absent
  let difference (left right : Expr) : Expr := untyped (.binary .subtract left right) .absent
  let row : Expr := untyped (.row [literal (.boolean true) .absent]) .absent
  let call : Expr := untyped (.call "f" none [literal .null .absent, row]) .absent
  let comparison : Expr := untyped (.binary .less
    (difference (difference (column "a") (literal (.bigint (-5)) .absent))
      (difference (column "b") (untyped (.unary .negate (column "c")) .absent)))
    (literal (.varchar "x") .absent)) .absent
  untyped (.binary .and (untyped (.unary .not comparison) .absent)
    (untyped (.isNull (untyped (.binary .or (column "d") call) .absent) true) .absent)) .absent

theorem parse_words_mixed :
    let tokens := Statement.tokensOf
      "NOT a - -5 - (b - -c) < 'x' AND (d OR f(NULL, ROW(TRUE))) IS NOT NULL"
    let rest := Statement.tokensOf "THEN"
    mixed.Writable ∧ Spelled (mixed.words 0) tokens ∧ rest ≠ [] ∧ ∃ e', mixed.Copied false e' ∧
      parse ⟨⟨[], tokens ++ rest⟩, 0⟩ = .ok e' ⟨⟨tokens.reverse, rest⟩, 0⟩ := by
  intro tokens rest
  have hwritable : mixed.Writable := by
    refine .binary _ (.unary (.binary _ ?_ (.literal rfl _) _) (by simp) _)
      (.isNull (.binary _ (.column ..) (.call _ ?_ _) _) _ _) _
    · exact .binary _ (.binary _ (.column ..) (.literal rfl _) _)
        (.binary _ (.column ..) (.unary (.column ..) (fun _ => rfl) _) _) _
    · simpa using ⟨.literal rfl _, .row (by simp) (by simpa using .literal rfl _) _⟩
  have hspelled : Spelled (mixed.words 0) tokens := by
    unfold tokens
    rw [Statement.tokensOf_eq_scanned rfl]
    decide +kernel
  have hrest : ∀ t ∈ rest.head?, extendedBy t = false := by
    unfold rest
    rw [Statement.tokensOf_eq_scanned rfl]
    decide +kernel
  obtain ⟨e', hcopied, hparse⟩ := parse_words hwritable hspelled hrest
  exact ⟨hwritable, hspelled, by decide +kernel, e', hcopied, by simpa using hparse [] 0⟩

end Expr

end DataChange
