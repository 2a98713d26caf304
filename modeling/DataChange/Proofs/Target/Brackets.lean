import DataChange.Proofs.Marker.Clauses
import DataChange.Proofs.Marker.Paired

/-!
# Brackets before SELECT

Whether a group of columns is given a subquery or a row of values is guessed from the brackets
before SELECT. The guess takes a row for a subquery if its first value begins with one, and then
the row cannot be read (`SetClause.readQuery_refused`): the brackets before SELECT do not close
together, since a comma comes between them.
-/

namespace DataChange

/-- Whether some tokens begin with SELECT, maybe behind brackets. -/
def opensSelect (tokens : List Token) : Bool :=
  (tokens.dropWhile (·.isSymbol .openParen)).head?.any (·.isKeyword .SELECT)

theorem opensSelect_append {tokens rest : List Token} (hrest : opensSelect rest = false) :
    opensSelect (tokens ++ rest) = opensSelect tokens := by
  induction tokens with
  | nil => simpa [opensSelect] using hrest
  | cons t ts ih =>
    cases ht : t.isSymbol .openParen with
    | true => simpa [opensSelect, ht] using ih
    | false => simp [opensSelect, ht]

theorem opensSelect_opening {opening : Token} {tokens : List Token}
    (h : opening.kind = .symbol .openParen) :
    opensSelect (opening :: tokens) = opensSelect tokens := by
  simp [opensSelect, Token.isSymbol, h]

theorem opensSelect_symbol {t : Token} {ts : List Token} {k : Symbol} (ht : t.kind = .symbol k)
    (hk : k ≠ .openParen) : opensSelect (t :: ts) = false := by
  simp [opensSelect, Token.isSymbol, Token.isKeyword, ht, hk]

theorem opensSelect_iff {tokens : List Token} : opensSelect tokens = true ↔
    ∃ opens q rest, (∀ o ∈ opens, o.isSymbol .openParen = true) ∧ q.kind = .keyword .SELECT ∧
      tokens = opens ++ q :: rest := by
  induction tokens with
  | nil => simp [opensSelect]
  | cons t ts ih =>
    cases ht : t.isSymbol .openParen with
    | true =>
      have hstep : opensSelect (t :: ts) = opensSelect ts := by simp [opensSelect, ht]
      rw [hstep, ih]
      constructor
      · rintro ⟨opens, q, rest, hopens, hq, rfl⟩
        exact ⟨t :: opens, q, rest, by simpa [ht] using hopens, hq, rfl⟩
      · rintro ⟨opens, q, rest, hopens, hq, heq⟩
        cases opens with
        | nil =>
          obtain ⟨rfl, -⟩ := List.cons.inj heq
          simp [Token.isSymbol, hq] at ht
        | cons o opens =>
          obtain ⟨rfl, rfl⟩ := List.cons.inj heq
          exact ⟨opens, q, rest, fun x hx => hopens x (by simp [hx]), hq, rfl⟩
    | false =>
      constructor
      · intro h
        refine ⟨[], t, ts, by simp, ?_, rfl⟩
        simpa [opensSelect, ht, Token.isKeyword] using h
      · rintro ⟨opens, q, rest, hopens, hq, heq⟩
        cases opens with
        | nil =>
          obtain ⟨rfl, rfl⟩ := List.cons.inj heq
          simp [opensSelect, ht, Token.isKeyword, hq]
        | cons o opens =>
          obtain ⟨rfl, -⟩ := List.cons.inj heq
          simp [ht] at hopens

/-- Closed tokens hold no bracket that closes more than they open. -/
theorem Closed.not_closed {commas : Bool} {o x : Token} {value body after : List Token}
    (h : Closed commas (o :: value)) (ho : o.isSymbol .openParen = true)
    (hbody : splitClosing 0 value = some (body, x :: after)) :
    ¬ x.isSymbol .closeParen = true := by
  intro hx
  have hwhole := h.splitClosing_eq_some hx []
  obtain ⟨close, hclose, hwithin⟩ := splitClosing_within hbody
  have hfirst : splitClosing 0 (x :: (after ++ [x])) = some ([], after ++ [x]) := by
    rw [splitClosing, if_neg (by simp [not_openParen hx]), if_pos hx]
  have hleft := hwithin 0 (x :: (after ++ [x]))
  rw [hclose, List.cons_append, splitClosing, if_pos ho] at hwhole
  simp [hleft, hfirst] at hwhole

namespace SetClause

variable {c : Cursor} {s t : Reading} {e : Expr} {degree brackets : Nat}

theorem bracketsBeforeSelect?_of_opensSelect (h : opensSelect c.rest = false) :
    bracketsBeforeSelect? c = none := by
  cases hb : bracketsBeforeSelect? c with
  | none => rfl
  | some brackets =>
    obtain ⟨opens, o, q, rest, -, hopens, ho, hq, hrest⟩ := bracketsBeforeSelect?_some hb
    have hselect : opensSelect c.rest = true := by
      refine opensSelect_iff.2 ⟨opens ++ [o], q, rest, ?_, hq, by simp [hrest]⟩
      simpa [or_imp, forall_and] using ⟨hopens, ho⟩
    rw [h] at hselect
    cases hselect

/-- All brackets before SELECT are counted. -/
theorem bracketsBeforeSelect?_opens (opens rest : List Token) {q : Token} (hne : opens ≠ [])
    (hopens : ∀ o ∈ opens, o.isSymbol .openParen = true) (hq : q.kind = .keyword .SELECT)
    (hc : c.rest = opens ++ q :: rest) : bracketsBeforeSelect? c = some opens.length := by
  have hselect : q.isSymbol .openParen = false := by simp [Token.isSymbol, hq]
  have htake : (opens ++ q :: rest).takeWhile (·.isSymbol .openParen) = opens := by
    rw [List.takeWhile_append_of_pos hopens]
    simp [hselect]
  have hpos : 0 < opens.length := List.length_pos_iff.2 hne
  simp [bracketsBeforeSelect?, hc, htake, hpos, Token.isKeyword, hq]

/-- Brackets around tokens whose first bracket closes last: still the first bracket closes last. -/
theorem closes_wrapped {o : Token} {xs body opens closes : List Token}
    (hclosed : Closed false (o :: xs)) (ho : o.isSymbol .openParen = true)
    (hbody : splitClosing 0 xs = some (body, [])) (hlen : opens.length = closes.length)
    (hopens : ∀ x ∈ opens, x.isSymbol .openParen = true)
    (hcloses : ∀ x ∈ closes, x.isSymbol .closeParen = true) :
    ∃ y ys body, opens ++ o :: xs ++ closes = y :: ys ∧ splitClosing 0 ys = some (body, []) := by
  cases opens with
  | nil =>
    obtain rfl := List.length_eq_zero_iff.1 hlen.symm
    exact ⟨o, xs, body, by simp, hbody⟩
  | cons o' opens =>
    obtain rfl | ⟨closes, c, rfl⟩ := List.eq_nil_or_concat closes
    · simp at hlen
    have hlead : ∀ y ys, o :: xs = y :: ys → y.startsQuery = false := by
      intro y ys hy
      obtain ⟨rfl, -⟩ := List.cons.inj hy
      have hk : o.kind = .symbol .openParen := by simpa [Token.isSymbol] using ho
      simp [Token.startsQuery, Token.isKeyword, hk]
    obtain ⟨hwrapped, -⟩ := hclosed.wrap hlead (by simpa using hlen : opens.length = closes.length)
      (fun x hx => hopens x (by simp [hx])) (fun x hx => hcloses x (by simp [hx]))
    exact ⟨o', opens ++ o :: xs ++ closes ++ [c], _, by simp,
      by simpa using hwrapped.splitClosing_eq_some (hcloses c (by simp)) []⟩

/-- The tokens of a subquery for a group: it closes right before the brackets around it do. -/
theorem readQuery_closes (hb : bracketsBeforeSelect? s.cursor = some brackets)
    (h : readQuery degree brackets s = .ok e t) :
    ∃ opens o xs body closes, opens.length = brackets - 1 ∧ closes.length = brackets - 1 ∧
      (∀ x ∈ opens, x.isSymbol .openParen = true) ∧
      (∀ x ∈ closes, x.isSymbol .closeParen = true) ∧ o.isSymbol .openParen = true ∧
      Closed false (o :: xs) ∧ splitClosing 0 xs = some (body, []) ∧
      s.cursor.rest = opens ++ o :: xs ++ closes ++ t.cursor.rest := by
  obtain ⟨opens, o, q, rest, hlen, hopens, ho, hq, hrest⟩ := bracketsBeforeSelect?_some hb
  simp only [readQuery, bind_ok, modify_ok, pure_ok] at h
  obtain ⟨_, r, rfl, o', u, hopen, body, v, hbody, _, _, hclose, rfl, rfl⟩ := h
  obtain ⟨htakes, -⟩ := Reading.symbol_takes hopen
  have hsplit := (Reading.parenthesised_takes hbody).split
  obtain ⟨c, hc, rfl⟩ := lift_reader_ok.1 hclose
  obtain ⟨closes, hclen, hcloses, hcr⟩ := Reader.closeParens_ok hc
  have hadvance : (s.cursor.advance (brackets - 1)).rest = o :: q :: rest := by
    simp [Cursor.advance, hrest, ← hlen]
  obtain ⟨rfl, hu⟩ := List.cons.inj (hadvance.symm.trans htakes.rest)
  have hopens' : opensQuery (o :: u.cursor.rest) = true := by
    simp [← hu, opensQuery, ho, Token.startsQuery, Token.isKeyword, hq]
  obtain ⟨close, -, hv, hsplits⟩ := splitClosing_eq hsplit
  obtain ⟨close', heq, hclosed, -⟩ := Closed.query false ho hsplit hopens'
  obtain rfl : close = close' := by simpa [hv] using heq
  refine ⟨opens, o, body ++ [close], body, closes, hlen, hclen, hopens, hcloses, ho, hclosed,
    hsplits [], ?_⟩
  rw [hrest, hu, hv, hcr]
  simp

/-- A row whose first value begins with a bracketed SELECT is no subquery. -/
theorem readQuery_refused {opening comma o : Token} {value later : List Token}
    (hvalue : Closed false (o :: value)) (hopening : opening.isSymbol .openParen = true)
    (ho : o.isSymbol .openParen = true) (hcomma : comma.kind = .symbol .comma)
    (hselect : opensSelect (o :: value) = true)
    (hs : s.cursor.rest = opening :: o :: (value ++ comma :: later)) :
    ∃ brackets, bracketsBeforeSelect? s.cursor = some brackets ∧
      ∀ e t, readQuery degree brackets s ≠ .ok e t := by
  obtain ⟨opens, q, rest, hopens, hq, hsplit⟩ := opensSelect_iff.1 hselect
  have hbrackets : bracketsBeforeSelect? s.cursor = some (opens.length + 1) := by
    refine bracketsBeforeSelect?_opens (opening :: opens) (rest ++ comma :: later) (by simp)
      (by simpa [hopening] using hopens) hq ?_
    rw [hs, ← List.cons_append, hsplit]
    simp
  refine ⟨_, hbrackets, fun e t hrun => ?_⟩
  obtain ⟨opens', o', xs, body, closes, hlen, hclen, hopens', hcloses, ho', hclosed, hbody, hrest⟩ :=
    readQuery_closes hbrackets hrun
  -- at least one bracket is skipped, since the value itself begins with one
  have hpos : 0 < opens.length := by
    cases opens with
    | nil =>
      obtain ⟨rfl, -⟩ := List.cons.inj hsplit
      simp [Token.isSymbol, hq] at ho
    | cons => simp
  cases opens' with
  | nil => simp at hlen; omega
  | cons x opens' =>
  obtain rfl | ⟨closes, c, rfl⟩ := List.eq_nil_or_concat closes
  · simp at hclen
    omega
  obtain ⟨y, ys, inner, hwrapped, hinner⟩ := closes_wrapped hclosed ho' hbody
    (by simp at hlen hclen; omega : opens'.length = closes.length)
    (fun x hx => hopens' x (by simp [hx])) (fun x hx => hcloses x (by simp [hx]))
  -- Both the brackets before SELECT and the value close the bracket that the value begins with.
  have hsame : o :: (value ++ comma :: later) = y :: (ys ++ c :: t.cursor.rest) := by
    have hwhole : s.cursor.rest = x :: ((opens' ++ o' :: xs ++ closes) ++ c :: t.cursor.rest) := by
      simpa using hrest
    rw [hs, hwrapped] at hwhole
    exact (List.cons.inj hwhole).2
  obtain ⟨rfl, htokens⟩ := List.cons.inj hsame
  obtain ⟨inner', after, hafter⟩ := hvalue.paired o value List.suffix_rfl ho
  have hends := (splitClosing_append hafter (comma :: later)).symm.trans
    (htokens ▸ splitClosing_append hinner (c :: t.cursor.rest))
  have hleft : after ++ comma :: later = c :: t.cursor.rest := by
    simpa using congrArg Prod.snd (Option.some.inj hends)
  have hc := hcloses c (by simp)
  cases after with
  | nil =>
    obtain ⟨rfl, -⟩ := List.cons.inj hleft
    simp [Token.isSymbol, hcomma] at hc
  | cons x after =>
    obtain ⟨rfl, -⟩ := List.cons.inj hleft
    exact hvalue.not_closed ho hafter hc

end SetClause

end DataChange
