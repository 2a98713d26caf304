import DataChange.Proofs.Expr.Grammar
import DataChange.Proofs.Marker.Scan

/-!
# Question marks of parsed expressions

The marks of an expression that is read are the question marks outside subqueries, numbered in the
order of the text, and its bodies are the subqueries in the order of the text (`Reads.scan`). The
proof goes by the rules of the grammar: the scan of an expression is put together from the scans
of its parts.
-/

namespace DataChange

namespace Expr

/-! ## First tokens -/

/-- Tokens of which the first does not start a query. -/
def Leads (xs : List Token) : Prop :=
  ∃ x rest, xs = x :: rest ∧ x.startsQuery = false

theorem Leads.append {xs : List Token} (h : Leads xs) (ys : List Token) : Leads (xs ++ ys) := by
  obtain ⟨x, rest, rfl, hx⟩ := h
  exact ⟨x, rest ++ ys, rfl, hx⟩

theorem Leads.head {xs : List Token} (h : Leads xs) (y : Token) (ys : List Token)
    (hy : xs = y :: ys) : y.startsQuery = false := by
  obtain ⟨x, rest, rfl, hx⟩ := h
  cases hy
  exact hx

theorem Leads.keyword {x : Token} {k : Keyword} (h : x.kind = .keyword k)
    (hk : k ≠ .SELECT ∧ k ≠ .WITH ∧ k ≠ .TABLE ∧ k ≠ .VALUES) (ys : List Token) :
    Leads (x :: ys) :=
  ⟨x, ys, rfl, by simp [Token.startsQuery, Token.isKeyword, h, hk]⟩

theorem Leads.literal {x : Token} (h : x.kind.isLiteral = true) (ys : List Token) :
    Leads (x :: ys) := by
  refine ⟨x, ys, rfl, ?_⟩
  unfold TokenKind.isLiteral at h
  split at h <;> simp_all [Token.startsQuery, Token.isKeyword]

theorem Leads.symbol {x : Token} {k : Symbol} (h : x.kind = .symbol k) (ys : List Token) :
    Leads (x :: ys) :=
  ⟨x, ys, rfl, by simp [Token.startsQuery, Token.isKeyword, h]⟩

/-- An identifier starts no query. -/
theorem Leads.identifier {x : Token} (h : x.isIdentifier = true) (ys : List Token) :
    Leads (x :: ys) := by
  refine ⟨x, ys, rfl, ?_⟩
  unfold Token.isIdentifier at h
  unfold Token.startsQuery Token.isKeyword
  split at h <;> simp_all
  rename_i k hk
  cases k <;> simp_all [Keyword.isReserved]

theorem plain_of_isLiteral {kind : TokenKind} (h : kind.isLiteral = true) :
    kind.isPlain true = true := by
  unfold TokenKind.isLiteral at h
  split at h <;> simp_all [TokenKind.isPlain]

theorem plain_of_operatorOf {x : Token} {op : BinaryOp} (h : operatorOf? x = some op) :
    x.kind.isPlain true = true := by
  unfold operatorOf? at h
  split at h
  · rename_i k hk
    rw [hk]
    cases k <;> simp_all [BinaryOp.ofSymbol?, TokenKind.isPlain]
  · simp_all [TokenKind.isPlain]
  · simp_all [TokenKind.isPlain]
  · cases h

/-! ## Marks of the forms of expression -/

variable {s t : Reading} {e : Expr} {fragment : Fragment}

theorem marks_ofItems (items : List Expr) : (ofItems fragment items).marks = marksOf items := by
  rcases items with _ | ⟨item, _ | ⟨second, more⟩⟩ <;>
    simp [ofItems, untyped, marks_mk, children, planNodes, mark?]

theorem bodies_ofItems (items : List Expr) : (ofItems fragment items).bodies = bodiesOf items := by
  rcases items with _ | ⟨item, _ | ⟨second, more⟩⟩ <;>
    simp [ofItems, untyped, bodies_mk, children, planNodes, body?]

/-- A minus before an operand finds nothing and takes nothing. -/
theorem negated_scan {e' : Expr} (h : negated e fragment s = .ok e' t) :
    t = s ∧ e'.marks = e.marks ∧ e'.bodies = e.bodies := by
  obtain ⟨kind, f, type⟩ := e
  unfold negated at h
  obtain ⟨m, hm, h⟩ := run_eq h
  -- only a number in range is taken with its sign; any other operand is kept below the minus
  split at hm
  · rename_i hk
    split at hm
    · subst hm
      exact (throw_ok.1 h).elim
    · subst hm
      obtain ⟨rfl, rfl⟩ := pure_ok.1 h
      cases hk
      exact ⟨rfl, rfl, rfl⟩
  · rename_i hk
    subst hm
    obtain ⟨rfl, rfl⟩ := pure_ok.1 h
    cases hk
    exact ⟨rfl, rfl, rfl⟩
  · subst hm
    obtain ⟨rfl, rfl⟩ := pure_ok.1 h
    refine ⟨rfl, ?_, ?_⟩
    · simp [untyped, marks_mk (.unary _ _), children, planNodes, mark?]
    · simp [untyped, bodies_mk (.unary _ _), children, planNodes, body?]

/-! ## Scans by the rules -/

mutual

/-- What an expression spells is scanned, and is not cut where keys of an order are. -/
theorem Reads.scan : ∀ {s t : Reading} {e : Expr}, Reads s e t →
    ∃ xs, Leads xs ∧ Scan true s t xs e.marks e.bodies
  | _, _, _, .literal hx hk _ => ⟨_, .literal hk [], .token hx (plain_of_isLiteral hk)⟩
  | _, _, _, .defaultMarker hx hk => ⟨_, .keyword hk (by decide) [], .token hx (by rw [hk]; rfl)⟩
  | _, _, _, .marker (x := x) hx hk =>
    ⟨[x], ⟨x, [], rfl, by simp [Token.startsQuery, Token.isKeyword, hk]⟩, .marker hx hk⟩
  | _, _, _, .column hx hk => ⟨_, .identifier hk [], .token hx (Token.plain_of_isIdentifier hk)⟩
  | _, _, _, .qualified hx hk hd hdot hy hky => by
    have hx : Scan true _ _ _ _ _ := .token hx (Token.plain_of_isIdentifier hk)
    have hd : Scan true _ _ _ _ _ := .token hd (by rw [hdot]; rfl)
    have hy : Scan true _ _ _ _ _ := .token hy (Token.plain_of_isIdentifier hky)
    exact ⟨_, .identifier hk _, (hx.trans hd).trans hy⟩
  | _, _, _, .emptyCall hx hk ho hko hc hkc => by
    have hx : Scan true _ _ _ _ _ := .token hx (Token.plain_of_isIdentifier hk)
    have hb := Scan.bracket true ho hko (Scan.refl false _) (by simp) hc hkc
    exact ⟨_, .identifier hk _, hx.trans hb⟩
  | _, _, _, .call hx hk ho hko ha hc hkc => by
    obtain ⟨xs, hl, hs⟩ := ha.scan
    have hx : Scan true _ _ _ _ _ := .token hx (Token.plain_of_isIdentifier hk)
    have hb := Scan.bracket true ho hko hs hl.head hc hkc
    exact ⟨_, .identifier hk _, (hx.trans hb).cast
      (by simp [untyped, marks_mk, children, planNodes, mark?])
      (by simp [untyped, bodies_mk, children, planNodes, body?])⟩
  | _, _, _, .row hx hk ho hko hi hc hkc => by
    obtain ⟨xs, hl, hs⟩ := hi.scan
    have hx : Scan true _ _ _ _ _ := .token hx (by rw [hk]; rfl)
    have hb := Scan.bracket true ho hko hs hl.head hc hkc
    exact ⟨_, .keyword hk (by decide) _, (hx.trans hb).cast
      (by simp [untyped, marks_mk, children, planNodes, mark?])
      (by simp [untyped, bodies_mk, children, planNodes, body?])⟩
  | _, _, _, .bracket ho hko hi hc hkc => by
    obtain ⟨xs, hl, hs⟩ := hi.scan
    exact ⟨_, .symbol hko _, (Scan.bracket true ho hko hs hl.head hc hkc).cast
      (marks_ofItems _).symm (bodies_ofItems _).symm⟩
  | _, _, _, .query ho hko hq hb => by
    obtain ⟨x, hs⟩ := Scan.query true ho hko hq hb
    exact ⟨_, .symbol hko _, hs⟩
  | _, _, _, .not hx hk he => by
    obtain ⟨xs, -, hs⟩ := he.scan
    have hx : Scan true _ _ _ _ _ := .token hx (by rw [hk]; rfl)
    exact ⟨_, .keyword hk (by decide) _, (hx.trans hs).cast
      (by simp [untyped, marks_mk, children, planNodes, mark?])
      (by simp [untyped, bodies_mk, children, planNodes, body?])⟩
  | _, _, _, .minus hx hk he hn => by
    obtain ⟨xs, -, hs⟩ := he.scan
    have hx : Scan true _ _ _ _ _ := .token hx (by rw [hk]; rfl)
    obtain ⟨rfl, hm, hb⟩ := negated_scan hn
    exact ⟨_, .symbol hk _, (hx.trans hs).cast hm.symm hb.symm⟩
  | _, _, _, .plus hx hk he => by
    obtain ⟨xs, -, hs⟩ := he.scan
    have hx : Scan true _ _ _ _ _ := .token hx (by rw [hk]; rfl)
    exact ⟨_, .symbol hk _, (hx.trans hs).cast
      (by simp [untyped, marks_mk, children, planNodes, mark?])
      (by simp [untyped, bodies_mk, children, planNodes, body?])⟩
  | _, _, _, .isNull he hx hk hn hkn => by
    obtain ⟨xs, hl, hs⟩ := he.scan
    have hx : Scan true _ _ _ _ _ := .token hx (by rw [hk]; rfl)
    have hn : Scan true _ _ _ _ _ := .token hn (by rw [hkn]; rfl)
    exact ⟨_, (hl.append _).append _, ((hs.trans hx).trans hn).cast
      (by simp [untyped, marks_mk, children, planNodes, mark?])
      (by simp [untyped, bodies_mk, children, planNodes, body?])⟩
  | _, _, _, .isNotNull he hx hk hy hky hn hkn => by
    obtain ⟨xs, hl, hs⟩ := he.scan
    have hx : Scan true _ _ _ _ _ := .token hx (by rw [hk]; rfl)
    have hy : Scan true _ _ _ _ _ := .token hy (by rw [hky]; rfl)
    have hn : Scan true _ _ _ _ _ := .token hn (by rw [hkn]; rfl)
    exact ⟨_, ((hl.append _).append _).append _, (((hs.trans hx).trans hy).trans hn).cast
      (by simp [untyped, marks_mk, children, planNodes, mark?])
      (by simp [untyped, bodies_mk, children, planNodes, body?])⟩
  | _, _, _, .binary hl hx hop hr => by
    obtain ⟨xs, hlead, hs⟩ := hl.scan
    obtain ⟨ys, -, hs'⟩ := hr.scan
    have hx := Scan.token hx (plain_of_operatorOf hop)
    exact ⟨_, (hlead.append _).append _, ((hs.trans hx).trans hs').cast
      (by simp [untyped, marks_mk, children, planNodes, mark?])
      (by simp [untyped, bodies_mk, children, planNodes, body?])⟩

theorem ReadsList.scan : ∀ {s t : Reading} {es : List Expr}, ReadsList s es t →
    ∃ xs, Leads xs ∧ Scan false s t xs (marksOf es) (bodiesOf es)
  | _, _, _, .single he => by
    obtain ⟨xs, hl, hs⟩ := he.scan
    exact ⟨xs, hl, by simpa using hs.weaken⟩
  | _, _, _, .more hes hc hk he => by
    obtain ⟨xs, hl, hs⟩ := hes.scan
    obtain ⟨ys, -, hs'⟩ := he.scan
    have hc : Scan false _ _ _ _ _ := .token hc (by rw [hk]; rfl)
    exact ⟨_, (hl.append _).append _, ((hs.trans hc).trans hs'.weaken).cast (by simp) (by simp)⟩

end

end Expr

end DataChange
