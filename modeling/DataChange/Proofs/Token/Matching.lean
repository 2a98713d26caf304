import DataChange.Proofs.Token.Consumed

/-!
# Matching brackets

A bracket that has been read is closed by the `)` before which all brackets are closed again
(`Cursor.ClosesAt`). `splitClosing` counts the brackets that are open and finds this one
(`splitClosing_eq_some_iff`), so that `Reader.parenthesised` takes the tokens before it, and fails
only where the bracket is never closed.
-/

namespace DataChange

/-- How many of some tokens open a bracket. -/
def opens (ts : List Token) : Nat :=
  ts.countP (·.isSymbol .openParen)

/-- How many of some tokens close a bracket. -/
def closes (ts : List Token) : Nat :=
  ts.countP (·.isSymbol .closeParen)

/-- Tokens that close each bracket they open, and no other. -/
structure Balanced (ts : List Token) : Prop where
  /-- No bracket is closed before it is opened. -/
  opened : ∀ xs, xs <+: ts → closes xs ≤ opens xs
  closed : closes ts = opens ts

/-- Tokens that close each bracket they open, and `depth` brackets that are open before them. -/
structure BalancedIn (depth : Nat) (ts : List Token) : Prop where
  opened : ∀ xs, xs <+: ts → closes xs ≤ opens xs + depth
  closed : closes ts = opens ts + depth

theorem opens_cons (t : Token) (ts : List Token) : opens (t :: ts) = opens [t] + opens ts := by
  rw [opens, ← List.singleton_append, List.countP_append]
  rfl

theorem closes_cons (t : Token) (ts : List Token) : closes (t :: ts) = closes [t] + closes ts := by
  rw [closes, ← List.singleton_append, List.countP_append]
  rfl

theorem balancedIn_zero {ts : List Token} : BalancedIn 0 ts ↔ Balanced ts :=
  ⟨fun h => ⟨h.opened, h.closed⟩, fun h => ⟨h.opened, h.closed⟩⟩

namespace BalancedIn

variable {depth depth' : Nat} {t : Token} {ts : List Token}

/-- Nothing is left open after no tokens. -/
theorem nil_iff : BalancedIn depth [] ↔ depth = 0 := by
  constructor
  · intro h
    have hclosed := h.closed
    simp only [opens, closes, List.countP_nil] at hclosed
    omega
  · rintro rfl
    refine ⟨fun xs hx => ?_, rfl⟩
    rw [List.prefix_nil.1 hx]
    exact Nat.le_refl _

/-- The first token changes how many brackets are open before the others. -/
theorem cons_iff (h : depth + opens [t] = depth' + closes [t]) :
    BalancedIn depth (t :: ts) ↔ BalancedIn depth' ts := by
  constructor
  · intro hb
    refine ⟨fun xs hx => ?_, ?_⟩
    · have hle := hb.opened (t :: xs) (List.cons_prefix_cons.2 ⟨rfl, hx⟩)
      rw [opens_cons, closes_cons] at hle
      omega
    · have heq := hb.closed
      rw [opens_cons, closes_cons] at heq
      omega
  · intro hb
    refine ⟨fun xs hx => ?_, ?_⟩
    · obtain rfl | ⟨ys, rfl, hy⟩ := List.prefix_cons_iff.1 hx
      · exact Nat.zero_le _
      · have hle := hb.opened ys hy
        rw [opens_cons, closes_cons]
        omega
    · have heq := hb.closed
      rw [opens_cons, closes_cons]
      omega

end BalancedIn

/-! ## The split at the closing bracket -/

variable {depth depth' : Nat} {t : Token} {ts body rest : List Token}

theorem splitClosing_close (h : t.isSymbol .closeParen = true) :
    splitClosing 0 (t :: ts) = some ([], ts) := by
  simp [splitClosing, not_openParen h, h]

/-- A token that does not close the last open bracket is passed over. -/
theorem splitClosing_cons (h : depth + opens [t] = depth' + closes [t]) :
    splitClosing depth (t :: ts) =
      (splitClosing depth' ts).map fun (body, rest) => (t :: body, rest) := by
  by_cases hc : t.isSymbol .closeParen = true
  · have ho := not_openParen hc
    obtain rfl : depth = depth' + 1 := by simpa [opens, closes, ho, hc] using h
    simp [splitClosing, ho, hc]
  · by_cases ho : t.isSymbol .openParen = true
    · obtain rfl : depth + 1 = depth' := by simpa [opens, closes, ho, hc] using h
      simp [splitClosing, ho]
    · obtain rfl : depth = depth' := by simpa [opens, closes, ho, hc] using h
      simp [splitClosing, ho, hc]

/-- A token closes the last open bracket or is passed over. -/
theorem closes_last_or (depth : Nat) (t : Token) :
    (depth = 0 ∧ t.isSymbol .closeParen = true) ∨
      ∃ depth', depth + opens [t] = depth' + closes [t] := by
  by_cases hc : t.isSymbol .closeParen = true
  · cases depth with
    | zero => exact .inl ⟨rfl, hc⟩
    | succ depth =>
      exact .inr ⟨depth, by simp [opens, closes, not_openParen hc, hc]⟩
  · exact .inr ⟨depth + opens [t], by simp [closes, hc]⟩

/-- `splitClosing` splits at the bracket before which everything is closed. -/
theorem splitClosing_eq_some_iff :
    splitClosing depth ts = some (body, rest) ↔
      ∃ close, close.isSymbol .closeParen = true ∧ ts = body ++ close :: rest ∧
        BalancedIn depth body := by
  induction ts generalizing depth body with
  | nil => simp [splitClosing]
  | cons t ts ih =>
    -- on the tokens: each one closes the bracket that was opened, or changes the depth by one
    obtain ⟨rfl, hc⟩ | ⟨depth', h⟩ := closes_last_or depth t
    · rw [splitClosing_close hc]
      constructor
      · rintro ⟨⟩
        exact ⟨t, hc, rfl, BalancedIn.nil_iff.2 rfl⟩
      · rintro ⟨close, -, heq, hb⟩
        cases body with
        | nil => cases heq; rfl
        | cons u body =>
          obtain ⟨rfl, -⟩ := List.cons.inj heq
          have hle := hb.opened [t] (List.cons_prefix_cons.2 ⟨rfl, List.nil_prefix⟩)
          simp [opens, closes, not_openParen hc, hc] at hle
    · rw [splitClosing_cons h]
      constructor
      · intro hs
        obtain ⟨⟨b, r⟩, hb, he⟩ := Option.map_eq_some_iff.1 hs
        cases he
        obtain ⟨close, hc, rfl, hbody⟩ := ih.1 hb
        exact ⟨close, hc, rfl, (BalancedIn.cons_iff h).2 hbody⟩
      · rintro ⟨close, hc, heq, hb⟩
        cases body with
        | nil =>
          obtain ⟨rfl, -⟩ := List.cons.inj heq
          have hdepth := BalancedIn.nil_iff.1 hb
          simp [opens, closes, not_openParen hc, hc, hdepth] at h
        | cons u body =>
          obtain ⟨rfl, rfl⟩ := List.cons.inj heq
          rw [ih.2 ⟨close, hc, rfl, (BalancedIn.cons_iff h).1 hb⟩, Option.map_some]

/-! ## The bracket that is closed -/

namespace Cursor

/-- The tokens to come that stand before a position. -/
def upTo (c : Cursor) (q : Nat) : List Token :=
  (c.tokens.take q).drop c.position

/-- At the position `q` stands the `)` that closes the bracket opened just before the cursor: what
stands between is balanced. -/
structure ClosesAt (c : Cursor) (q : Nat) : Prop where
  later : c.position ≤ q
  close : ∃ t, c.tokens[q]? = some t ∧ t.isSymbol .closeParen = true
  balanced : Balanced (c.upTo q)

variable {c : Cursor} {q : Nat}

theorem upTo_position_add (c : Cursor) (n : Nat) : c.upTo (c.position + n) = c.rest.take n := by
  simp [upTo, tokens, position, List.take_append]

theorem getElem?_tokens_position_add (c : Cursor) (n : Nat) :
    c.tokens[c.position + n]? = c.rest[n]? := by
  simp [tokens, position, List.getElem?_append_right]

theorem closesAt_iff :
    c.ClosesAt q ↔
      ∃ body rest, splitClosing 0 c.rest = some (body, rest) ∧ q = c.position + body.length := by
  constructor
  · intro h
    obtain ⟨n, rfl⟩ := Nat.exists_eq_add_of_le h.later
    obtain ⟨close, hq, hc⟩ := h.close
    rw [getElem?_tokens_position_add] at hq
    obtain ⟨hn, rfl⟩ := List.getElem?_eq_some_iff.1 hq
    have hb := h.balanced
    rw [upTo_position_add] at hb
    refine ⟨c.rest.take n, c.rest.drop (n + 1), splitClosing_eq_some_iff.2
      ⟨_, hc, ?_, balancedIn_zero.2 hb⟩, ?_⟩
    · rw [List.getElem_cons_drop, List.take_append_drop]
    · rw [List.length_take_of_le (Nat.le_of_lt hn)]
  · rintro ⟨body, rest, hs, rfl⟩
    obtain ⟨close, hc, hr, hb⟩ := splitClosing_eq_some_iff.1 hs
    refine ⟨Nat.le_add_right .., ⟨close, ?_, hc⟩, ?_⟩
    · rw [getElem?_tokens_position_add, hr, List.getElem?_append_right (Nat.le_refl _),
        Nat.sub_self]
      rfl
    · rw [upTo_position_add, hr, List.take_left]
      exact balancedIn_zero.1 hb

/-- No two brackets close the same one. -/
theorem ClosesAt.unique {q' : Nat} (h : c.ClosesAt q) (h' : c.ClosesAt q') : q = q' := by
  obtain ⟨body, rest, hs, rfl⟩ := closesAt_iff.1 h
  obtain ⟨body', rest', hs', rfl⟩ := closesAt_iff.1 h'
  rw [hs] at hs'
  cases hs'
  rfl

/-- The fragment of a cursor after the last token. -/
theorem fragment_advance_length (c : Cursor) :
    (c.advance c.rest.length).fragment = (c.tokens.getLast?.map (·.fragment)).getD .absent := by
  have hpast : (c.advance c.rest.length).past = c.tokens.reverse := by simp [advance, tokens]
  have hrest : (c.advance c.rest.length).rest = [] := by simp [advance]
  rw [List.getLast?_eq_head?_reverse, ← hpast, fragment.eq_def, hrest]
  cases (c.advance c.rest.length).past <;> rfl

end Cursor

namespace Reader

variable {c : Cursor}

theorem parenthesised_closed (h : splitClosing 0 c.rest = some (body, rest)) :
    parenthesised c = .ok body (c.advance (body.length + 1)) := by
  unfold parenthesised
  rw [bind_run (get_ok.2 ⟨rfl, rfl⟩), h]
  rfl

theorem parenthesised_open (h : splitClosing 0 c.rest = none) :
    parenthesised c = .error ((c.advance c.rest.length).endedBefore (.symbol .closeParen))
      (c.advance c.rest.length) := by
  unfold parenthesised
  rw [bind_run (get_ok.2 ⟨rfl, rfl⟩), h]
  rfl

/-- A bracketed body is read exactly where the bracket before the cursor is closed: the tokens
before the first `)` that closes it, and then this `)`. Otherwise all tokens are passed over, and
the failure is that they end too early. Either way the tokens themselves stay. -/
theorem parenthesised_exact (c : Cursor) :
    ((∃ body d, parenthesised c = .ok body d) ↔ ∃ q, c.ClosesAt q) ∧
      (∀ body d, parenthesised c = .ok body d →
        ∃ q, c.ClosesAt q ∧ (∀ k < q, ¬ c.ClosesAt k) ∧ body = c.upTo q ∧ Balanced body ∧
          d.position = q + 1 ∧ d.tokens = c.tokens ∧ d.position ≤ d.tokens.length) ∧
      (∀ e d, parenthesised c = .error e d →
        e = ⟨.unexpectedEnd (.symbol .closeParen),
            (c.tokens.getLast?.map (·.fragment)).getD .absent⟩ ∧
          (∀ q, ¬ c.ClosesAt q) ∧
          d.position = d.tokens.length ∧ d.tokens = c.tokens) := by
  cases hs : splitClosing 0 c.rest with
  | some split =>
    obtain ⟨body, rest⟩ := split
    have hrun := parenthesised_closed hs
    have hcloses : c.ClosesAt (c.position + body.length) :=
      Cursor.closesAt_iff.2 ⟨body, rest, hs, rfl⟩
    obtain ⟨close, -, hr, hb⟩ := splitClosing_eq_some_iff.1 hs
    rw [hrun]
    refine ⟨⟨fun _ => ⟨_, hcloses⟩, fun _ => ⟨_, _, rfl⟩⟩, ?_, by simp⟩
    rintro _ _ ⟨⟩
    refine ⟨_, hcloses, fun k hk hk' => ?_, ?_, balancedIn_zero.1 hb, ?_,
      c.tokens_advance _, Cursor.position_le _⟩
    · exact Nat.ne_of_lt hk (hk'.unique hcloses)
    · rw [Cursor.upTo_position_add, hr, List.take_left]
    · simp [Cursor.advance, Cursor.position, hr]
      omega
  -- if any token closed the bracket the text could be split there
  | none =>
    have hopen : ∀ q, ¬ c.ClosesAt q := fun q hq => by
      obtain ⟨body, rest, hs', -⟩ := Cursor.closesAt_iff.1 hq
      rw [hs] at hs'
      cases hs'
    rw [parenthesised_open hs]
    refine ⟨⟨by simp, fun hq => (hq.elim hopen).elim⟩, by simp, ?_⟩
    rintro _ _ ⟨⟩
    refine ⟨?_, hopen, ?_, c.tokens_advance _⟩
    · rw [Cursor.endedBefore, Cursor.fragment_advance_length]
    · simp [Cursor.advance, Cursor.position, Cursor.tokens, Nat.add_comm]

end Reader

end DataChange
