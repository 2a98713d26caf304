import DataChange.Proofs.Expr.Precedence
import DataChange.Proofs.Token.Lexemes

/-!
# Literals are read back

The text of a literal is read into the tokens of its words (`Value.tokenize_text`), and so the
parser gives the literal back (`Expr.parse_text_iff`). The lowest number is the exception: its
magnitude is read before its sign and is no number.
-/

namespace DataChange

/-! ## The tokens of a literal -/

/-- A lexeme alone is one token. -/
theorem tokensWithin_single {kind : TokenKind} {text : List Char} (h : kind.Admits text)
    {bound : Nat} (hbound : (kind.lexeme text).length ≤ bound) (place : Place) :
    ∃ t, tokensWithin bound place (kind.lexeme text) = .ok [t] ∧ t.kind = kind ∧
      t.text = String.ofList text := by
  have hlexeme := List.length_pos_iff.2 h.lexeme_ne_nil
  obtain ⟨bound, rfl⟩ : ∃ n, bound = n + 1 := ⟨bound - 1, by omega⟩
  have hseparated : Piece.Separated [] := by simp [Piece.Separated]
  obtain ⟨c, cs, spelled, hcs, hread⟩ := Piece.read_admitted h hseparated
  have hended : tokensWithin bound (place.advance (kind.lexeme text)) [] = .ok [] := by
    cases bound <;> rfl
  have htokens := tokensWithin_lexeme hcs hread hended
  rw [List.append_nil] at htokens
  exact ⟨_, htokens, rfl, rfl⟩

theorem tokenize_single {kind : TokenKind} {s : String} {text : List Char} (h : kind.Admits text)
    (hs : s.toList = kind.lexeme text) :
    ∃ t, tokenize s = .ok [t] ∧ t.kind = kind ∧ t.text = String.ofList text := by
  simp only [tokenize, hs]
  exact tokensWithin_single h (Nat.le_refl _) .start

/-- Every keyword is read from its own text. -/
theorem TokenKind.admits_keyword (k : Keyword) : (keyword k).Admits k.text.toList := by
  have hchecked : Keyword.all.all (fun k => k.text.toList.head?.any Piece.startsWord &&
      k.text.toList.all Piece.continuesWord &&
        Piece.wordKind (String.ofList k.text.toList) = .keyword k) = true := by
    decide +kernel
  have hk := List.all_eq_true.1 hchecked k k.mem_all
  cases htext : k.text.toList with
  | nil => simp [htext] at hk
  | cons c cs =>
    simp only [htext, List.head?_cons, Option.any_some, List.all_cons, Bool.and_eq_true,
      decide_eq_true_eq] at hk
    obtain ⟨⟨hc, -, hcs⟩, hkind⟩ := hk
    rw [← hkind]
    exact .word hc (List.all_eq_true.1 hcs)

/-- A minus is a symbol where no other minus follows. -/
theorem Piece.read_minus {c : Char} (hc : c ≠ '-') (cs : List Char) :
    Piece.read '-' (c :: cs) = ⟨.lexeme (.symbol .minus) "-" rfl, ['-']⟩ := by
  have hcomment : readComment? '-' (c :: cs) = none := by
    unfold readComment?
    split
    · next h => exact absurd (List.cons.inj h).1 hc
    · next h _ => cases h
    · rfl
  have hblank : Text.isBlank '-' = false := by decide
  simp only [read, hblank, hcomment, Bool.false_eq_true, ↓reduceIte, Option.getD_none]
  rfl

/-- A minus and a magnitude are two tokens. -/
theorem tokensWithin_negative {digits : List Char} (hne : digits ≠ [])
    (hdigits : ∀ c ∈ digits, c.isDigit = true) {bound : Nat} (hbound : digits.length < bound)
    (place : Place) : ∃ minus t, tokensWithin bound place ('-' :: digits) = .ok [minus, t] ∧
      minus.kind = .symbol .minus ∧ t.kind = .integer ∧ t.text = String.ofList digits := by
  obtain ⟨c, cs, rfl⟩ := List.exists_cons_of_ne_nil hne
  have hc : c ≠ '-' := by
    rintro rfl
    simpa using hdigits '-' (by simp)
  obtain ⟨bound, rfl⟩ : ∃ n, bound = n + 1 := ⟨bound - 1, by omega⟩
  obtain ⟨t, ht, hkind, htext⟩ := tokensWithin_single (.integer hne hdigits)
    (Nat.le_of_lt_succ hbound) (place.advance ['-'])
  have hcs : ['-'] ++ (c :: cs) = '-' :: c :: cs := rfl
  have htokens := tokensWithin_lexeme hcs (Piece.read_minus hc cs) ht
  exact ⟨_, t, htokens, rfl, hkind, htext⟩

namespace Value

theorem doubleQuotes_eq (cs : List Char) : doubleQuotes cs = doubled '\x27' cs := by
  induction cs with
  | nil => rfl
  | cons c cs ih => simp only [doubleQuotes, doubled, ih]

theorem text_bigint {n : Int64} (h : ¬ n < 0) :
    (bigint n).text.toList = Nat.toDigits 10 n.toInt.natAbs := by
  have hpos : 0 ≤ n.toInt := by simpa [Int64.lt_iff_toInt_lt] using h
  obtain ⟨m, hm⟩ := Int.eq_ofNat_of_zero_le hpos
  simp only [text, hm]
  exact Nat.toList_repr

theorem text_bigint_neg {n : Int64} (h : n < 0) :
    (bigint n).text.toList = '-' :: Nat.toDigits 10 n.toInt.natAbs := by
  have hneg : n.toInt < 0 := by simpa [Int64.lt_iff_toInt_lt] using h
  obtain ⟨m, hm⟩ := Int.eq_negSucc_of_lt_zero hneg
  have htext : (bigint n).text = "-" ++ (m + 1).repr := by
    simp only [text, hm]
    rfl
  simp only [htext, hm, String.toList_append, Nat.toList_repr, Int.natAbs_negSucc]
  rfl

/-- A value of one word is read into one token. -/
theorem tokenize_word {v : Value} {w : Word} {kind : TokenKind} {text : List Char}
    (hw : v.words = [w]) (h : kind.Admits text) (htext : v.text.toList = kind.lexeme text)
    (hspells : ∀ t : Token, t.kind = kind → t.text = String.ofList text → w.Spells t) :
    ∃ tokens, tokenize v.text = .ok tokens ∧ Spelled v.words tokens := by
  obtain ⟨t, ht, hkind, htoken⟩ := tokenize_single h htext
  rw [hw]
  exact ⟨[t], ht, List.Forall₂.cons (hspells t hkind htoken) .nil⟩

/-- The text of a value that is no double is read into the tokens of its words. -/
theorem tokenize_text {v : Value} (hv : ∀ x, v ≠ double x) :
    ∃ tokens, tokenize v.text = .ok tokens ∧ Spelled v.words tokens := by
  have hkeyword : ∀ {k : Keyword}, v.words = [.keyword k] → v.text = k.text →
      ∃ tokens, tokenize v.text = .ok tokens ∧ Spelled v.words tokens :=
    fun {k} hw htext =>
      tokenize_word hw (TokenKind.admits_keyword k) (congrArg String.toList htext) fun t hk _ => hk
  cases v with
  | null => exact hkeyword rfl rfl
  | boolean b => cases b <;> exact hkeyword rfl rfl
  | bigint n =>
    have hdigits : ∀ c ∈ Nat.toDigits 10 n.toInt.natAbs, c.isDigit = true :=
      fun c => Nat.isDigit_of_mem_toDigits (by decide) (by decide)
    have hspells : ∀ t : Token, t.kind = .integer →
        t.text = String.ofList (Nat.toDigits 10 n.toInt.natAbs) →
          (Word.integer n.toInt.natAbs).Spells t :=
      fun t hkind htext => ⟨hkind, htext.trans (by simp [← Nat.toList_repr])⟩
    -- a negative number is spelled as two tokens, a minus and the digits
    by_cases hn : n < 0
    · obtain ⟨minus, t, htokens, hminus, hkind, htext⟩ :=
        tokensWithin_negative Nat.toDigits_ne_nil hdigits (Nat.lt_succ_self _) .start
      refine ⟨[minus, t], ?_, ?_⟩
      · simp only [tokenize, text_bigint_neg hn]
        exact htokens
      · simp only [words, hn, ↓reduceIte]
        exact List.Forall₂.cons hminus (.cons (hspells t hkind htext) .nil)
    · refine tokenize_word ?_ (.integer Nat.toDigits_ne_nil hdigits) (text_bigint hn) hspells
      simp only [words, hn, ↓reduceIte]
  | varchar s =>
    refine tokenize_word rfl (.quoted rfl s.toList) ?_ fun t hkind htext => ⟨hkind, ?_⟩
    · simp [text, quoted, doubleQuotes_eq, TokenKind.lexeme, TokenKind.quote?]
    · simpa using htext
  | double x => exact absurd rfl (hv x)

end Value

namespace Expr

theorem Copied.literal {v : Value} {f : Fragment} {e : Expr}
    (h : (Expr.literal v f).Copied false e) : ∃ f', e = Expr.literal v f' := by
  cases h with
  | @intro _ kind' _ f' _ hkind =>
    cases hkind
    exact ⟨f', rfl⟩

/-- The text of a value that is no double is read into tokens. The parser takes them all and gives
the value back, unless it is the lowest number. -/
theorem parse_text_iff {v : Value} (hv : ∀ x, v ≠ .double x) (n : Nat) :
    ∃ tokens, tokenize v.text = .ok tokens ∧
      ((∃ f, parse ⟨.ofTokens tokens, n⟩ = .ok (literal v f) ⟨⟨tokens.reverse, []⟩, n⟩) ↔
        v ≠ .bigint Int64.minValue) := by
  obtain ⟨tokens, htokens, hspelled⟩ := Value.tokenize_text hv
  refine ⟨tokens, htokens, ?_, fun hmin => ?_⟩
  · rintro ⟨f, hparse⟩
    -- no literal that the parser gives is the lowest number
    have hplain := (parse_reads _ _ _ hparse).plain.isNegatable
    simpa [isNegatable, literal, Value.isNegatable] using hplain
  · have hwritable : v.isWritable = true := by
      cases v with
      | double x => exact absurd rfl (hv x)
      | bigint k => simpa [Value.isWritable, Value.isNegatable] using hmin
      | _ => rfl
    have hwords : Spelled ((literal v .absent).words 0) tokens := by
      simpa [words_eq, inPlace, literal, kindWords] using hspelled
    have hrest : Stops 0 [] := by simp [Stops]
    obtain ⟨e, hcopied, hparse⟩ := Writable.parse (.literal hwritable .absent) hwords hrest
    obtain ⟨f, rfl⟩ := hcopied.literal
    exact ⟨f, by simpa [Cursor.ofTokens] using hparse [] n⟩

theorem parse_text_iff_quoted :
    let v := Value.varchar "it's\n--\"/*"
    (∀ x, v ≠ .double x) ∧ v.text = "'it''s\n--\"/*'" ∧ ∃ tokens, tokenize v.text = .ok tokens ∧
      ∃ f, parse ⟨.ofTokens tokens, 0⟩ = .ok (literal v f) ⟨⟨tokens.reverse, []⟩, 0⟩ := by
  intro v
  have hv : ∀ x, v ≠ .double x := by simp [v]
  obtain ⟨tokens, htokens, hparse⟩ := parse_text_iff hv 0
  exact ⟨hv, by decide +kernel, tokens, htokens, hparse.2 (by simp [v])⟩

/-- The magnitude of the lowest number is refused, as it is out of range without its sign. -/
theorem lowest_not_read : ∃ tokens, tokenize (Value.bigint Int64.minValue).text = .ok tokens ∧
    ∃ t, parse ⟨.ofTokens tokens, 0⟩ = .error
      (.rejected (.unexpected .integerInRange (.written "9223372036854775808" 1 2))) t := by
  have hrefused : (tokenize (Value.bigint Int64.minValue).text).toOption.map (fun tokens =>
      match parse ⟨.ofTokens tokens, 0⟩ with
      | .ok _ _ => none
      | .error e _ => some e) = some (some
        (.rejected (.unexpected .integerInRange (.written "9223372036854775808" 1 2)))) := by
    decide +kernel
  cases h : tokenize (Value.bigint Int64.minValue).text with
  | error e => simp [h, Except.toOption] at hrefused
  | ok tokens =>
    refine ⟨tokens, rfl, ?_⟩
    simp only [h, Except.toOption, Option.map_some, Option.some.injEq] at hrefused
    split at hrefused
    · cases hrefused
    · next e t hparse =>
      cases hrefused
      exact ⟨t, hparse⟩

end Expr

end DataChange
