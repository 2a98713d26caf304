import DataChange.Proofs.Expr.Tree
import DataChange.Proofs.Marker.Outline

/-!
# Reading question marks

A question mark of an expression is told by the fragment it was read from and by its number:
`Expr.marks` lists these pairs, `Expr.bodies` the subqueries that are still tokens.

`Scan` relates the states before and after some tokens were read: the tokens are closed, the marks
found are the question marks outside subqueries, numbered on from the state before, and the
bodies found are those of the subqueries. Scans compose (`Scan.trans`), so that what a parser
does follows from what its parts do.
-/

namespace DataChange

/-- A question mark: the fragment it was read from, and its number. -/
abbrev Mark := Fragment × Nat

namespace Expr

/-- The question mark that a node is. -/
def mark? (e : Expr) : Option Mark :=
  match e.kind with
  | .parameter marker => some (e.fragment, marker.index)
  | _ => none

/-- The tokens of the subquery that a node is. -/
def body? (e : Expr) : Option (List Token) :=
  match e.kind with
  | .pending _ body => some body
  | _ => none

/-- The question marks of an expression, in the order of its nodes. -/
def marks (e : Expr) : List Mark :=
  e.nodes.filterMap mark?

/-- The subqueries of an expression that are not compiled yet. -/
def bodies (e : Expr) : List (List Token) :=
  e.nodes.filterMap body?

def marksOf (es : List Expr) : List Mark :=
  es.flatMap marks

def bodiesOf (es : List Expr) : List (List Token) :=
  es.flatMap bodies

@[simp] theorem marksOf_nil : marksOf [] = [] := rfl

@[simp] theorem bodiesOf_nil : bodiesOf [] = [] := rfl

@[simp] theorem marksOf_cons (e : Expr) (es : List Expr) :
    marksOf (e :: es) = e.marks ++ marksOf es := rfl

@[simp] theorem bodiesOf_cons (e : Expr) (es : List Expr) :
    bodiesOf (e :: es) = e.bodies ++ bodiesOf es := rfl

@[simp] theorem marksOf_append (es fs : List Expr) :
    marksOf (es ++ fs) = marksOf es ++ marksOf fs := by
  simp [marksOf]

@[simp] theorem bodiesOf_append (es fs : List Expr) :
    bodiesOf (es ++ fs) = bodiesOf es ++ bodiesOf fs := by
  simp [bodiesOf]

theorem marks_eq (e : Expr) :
    e.marks = marksOf e.children ++ e.planNodes.filterMap mark? ++ e.mark?.toList := by
  rw [marks, nodes_eq, List.filterMap_append, List.filterMap_append, List.filterMap_flatMap]
  cases h : e.mark? <;> simp [marksOf, h] <;> rfl

theorem bodies_eq (e : Expr) :
    e.bodies = bodiesOf e.children ++ e.planNodes.filterMap body? ++ e.body?.toList := by
  rw [bodies, nodes_eq, List.filterMap_append, List.filterMap_append, List.filterMap_flatMap]
  cases h : e.body? <;> simp [bodiesOf, h] <;> rfl

theorem marks_mk (kind : ExprKind) (fragment : Fragment) (type : Option SqlType) :
    (mk kind fragment type).marks = marksOf (mk kind fragment type).children ++
      (mk kind fragment type).planNodes.filterMap mark? ++
      (mk kind fragment type).mark?.toList :=
  marks_eq _

theorem bodies_mk (kind : ExprKind) (fragment : Fragment) (type : Option SqlType) :
    (mk kind fragment type).bodies = bodiesOf (mk kind fragment type).children ++
      (mk kind fragment type).planNodes.filterMap body? ++
      (mk kind fragment type).body?.toList :=
  bodies_eq _

theorem marks_nodesOfList (es : List Expr) :
    (nodesOfList es).filterMap mark? = marksOf es := by
  rw [nodesOfList_eq, List.filterMap_flatMap]
  rfl

theorem marks_nodesOfOption (e : Option Expr) :
    (nodesOfOption e).filterMap mark? = marksOf e.toList := by
  cases e <;> simp [nodesOfOption, marks]

end Expr

/-! ## Numbers -/

/-- Question marks numbered on from `first`. -/
def number (first : Nat) (ts : List Token) : List Mark :=
  (ts.zipIdx first).map fun (t, i) => (t.fragment, i)

@[simp] theorem number_nil (first : Nat) : number first [] = [] := rfl

theorem number_append (first : Nat) (xs ys : List Token) :
    number first (xs ++ ys) = number first xs ++ number (first + xs.length) ys := by
  simp [number, List.zipIdx_append]

theorem mem_number {first : Nat} {ts : List Token} {mark : Mark} :
    mark ∈ number first ts ↔
      ∃ t, first ≤ mark.2 ∧ ts[mark.2 - first]? = some t ∧ t.fragment = mark.1 := by
  obtain ⟨fragment, i⟩ := mark
  simp only [number, List.mem_map, Prod.exists, List.mem_zipIdx_iff_le_and_getElem?_sub,
    Prod.mk.injEq]
  grind

/-! ## Scans -/

namespace TokenKind

/-- Whether a token of this kind is neither a bracket, a question mark nor a separator. -/
def isPlain (commas : Bool) : TokenKind → Bool
  | .symbol .openParen | .symbol .closeParen | .parameter => false
  | .keyword .ORDER | .keyword .LIMIT | .keyword .OFFSET | .keyword .ON | .keyword .WHEN
  | .keyword .THEN | .symbol .semicolon => false
  | .symbol .comma => !commas
  | _ => true

end TokenKind

theorem Token.plain {commas : Bool} {t : Token} (h : t.kind.isPlain commas = true) :
    t.isSymbol .openParen = false ∧ t.isSymbol .closeParen = false ∧ t.kind ≠ .parameter ∧
      t.isClause = false ∧ (commas = true → t.isSymbol .comma = false) := by
  unfold Token.isSymbol Token.isClause
  unfold TokenKind.isPlain at h
  split at h <;> simp_all

theorem Token.plain_of_isIdentifier {commas : Bool} {t : Token} (h : t.isIdentifier = true) :
    t.kind.isPlain commas = true := by
  unfold Token.isIdentifier at h
  unfold TokenKind.isPlain
  split at h <;> simp_all
  rename_i k hk
  cases k <;> simp_all [Keyword.isReserved]

/-- Reading from `s` to `t` takes the tokens `xs`, and finds the marks and the subqueries there. -/
structure Scan (commas : Bool) (s t : Reading) (xs : List Token) (marks : List Mark)
    (bodies : List (List Token)) : Prop where
  rest : s.cursor.rest = xs ++ t.cursor.rest
  closed : Closed commas xs
  marks : marks = number s.parameters (outline xs).markers
  bodies : bodies = (outline xs).bodies
  count : t.parameters = s.parameters + (outline xs).markers.length

namespace Scan

variable {commas : Bool} {s t u : Reading} {xs ys : List Token} {ms ns : List Mark}
  {bs cs : List (List Token)}

theorem suffix (h : Scan commas s t xs ms bs) : t.cursor.rest <:+ s.cursor.rest :=
  ⟨xs, h.rest.symm⟩

theorem refl (commas : Bool) (s : Reading) : Scan commas s s [] [] [] where
  rest := rfl
  closed := .nil
  marks := by simp [Outline.empty]
  bodies := by simp [Outline.empty]
  count := by simp [Outline.empty]

theorem trans (h : Scan commas s t xs ms bs) (k : Scan commas t u ys ns cs) :
    Scan commas s u (xs ++ ys) (ms ++ ns) (bs ++ cs) where
  rest := by rw [h.rest, k.rest, List.append_assoc]
  closed := h.closed.append k.closed
  marks := by
    rw [h.closed.outlined, h.marks, k.marks, h.count, Outline.append, number_append]
  bodies := by rw [h.closed.outlined, h.bodies, k.bodies, Outline.append]
  count := by
    rw [k.count, h.count, h.closed.outlined, Outline.append, List.length_append, Nat.add_assoc]

theorem weaken (h : Scan commas s t xs ms bs) : Scan false s t xs ms bs :=
  { h with closed := h.closed.weaken }

theorem cast {ms' : List Mark} {bs' : List (List Token)} (h : Scan commas s t xs ms bs)
    (hm : ms = ms') (hb : bs = bs') : Scan commas s t xs ms' bs' := by
  subst hm hb
  exact h

/-- Where nothing is found, nothing is numbered. -/
theorem empty (h : Scan commas s t xs [] []) : outline xs = .empty ∧ t.parameters = s.parameters := by
  have hm : (outline xs).markers = [] := by
    have := h.marks.symm
    simpa [number] using this
  refine ⟨?_, by simpa [hm] using h.count⟩
  rw [Outline.empty, ← hm, h.bodies]

/-- A plain token. -/
theorem token {x : Token} (h : s.Takes x t) (hk : x.kind.isPlain commas = true) :
    Scan commas s t [x] [] [] := by
  obtain ⟨ho, hc, hp, hl, hm⟩ := Token.plain hk
  have hout : outline [x] = .empty := by
    rw [outline_token hp (Closed.opensQuery_of_not_openParen ho []), outline_nil]
  exact ⟨h.rest, .token ho hc hl hm, by simp [hout, Outline.empty], by simp [hout, Outline.empty],
    by simp [hout, Outline.empty, h.parameters]⟩

/-- A question mark, which takes the next number. -/
theorem marker {x : Token} (h : s.Takes x t) (hk : x.kind = .parameter) :
    Scan commas s { t with parameters := s.parameters + 1 } [x] [(x.fragment, s.parameters)] [] := by
  have hout : outline [x] = ⟨[x], []⟩ := by
    rw [outline_marker hk, outline_nil, Outline.append_empty]
  refine ⟨h.rest, .token ?_ ?_ ?_ ?_, by simp [hout, number], by simp [hout], by simp [hout]⟩ <;>
    simp [Token.isSymbol, Token.isClause, hk]

/-- What stands between brackets, if it is no query. -/
theorem bracket (commas : Bool) {r v : Reading} {o x : Token} (h : s.Takes o r)
    (ho : o.kind = .symbol .openParen) (hxs : Scan false r t xs ms bs)
    (hq : ∀ y ys, xs = y :: ys → y.startsQuery = false) (hx : t.Takes x v)
    (hc : x.kind = .symbol .closeParen) : Scan commas s v (o :: xs ++ [x]) ms bs := by
  obtain ⟨hclosed, hout⟩ := Closed.bracket commas (t := o)
    (by simp [Token.isSymbol, ho]) (by simp [Token.isSymbol, hc] : x.isSymbol .closeParen = true)
    hxs.closed hq
  refine ⟨by rw [h.rest, hxs.rest, hx.rest]; simp, hclosed, ?_, ?_, ?_⟩
  · rw [hout, ← h.parameters]
    exact hxs.marks
  · rw [hout]
    exact hxs.bodies
  · rw [hout, hx.parameters, ← h.parameters]
    exact hxs.count

/-- A query between brackets, which stays a body of tokens. -/
theorem query (commas : Bool) {r : Reading} {o : Token} {body : List Token} (h : s.Takes o r)
    (ho : o.kind = .symbol .openParen) (hq : r.cursor.startsQuery = true)
    (hb : r.TakesBody body t) : ∃ x, Scan commas s t (o :: body ++ [x]) [] [body] := by
  have hopens : opensQuery (o :: r.cursor.rest) = true := by
    cases hc : r.cursor.rest with
    | nil => simp [Cursor.startsQuery, Cursor.isKeyword, Cursor.peek?, hc] at hq
    | cons y ys =>
      simpa [Cursor.startsQuery, Cursor.isKeyword, Cursor.peek?, hc, opensQuery,
        Token.startsQuery, Token.isSymbol, ho] using hq
  obtain ⟨x, hx, hclosed, hout⟩ := Closed.query commas (t := o)
    (by simp [Token.isSymbol, ho]) hb.split hopens
  refine ⟨x, by rw [h.rest, hx], hclosed, ?_, ?_, ?_⟩ <;> rw [hout]
  · rfl
  · simp [hb.parameters, h.parameters]

/-- Any number of brackets around what is no query. -/
theorem wrap {r v : Reading} {opens closes : List Token} (h : Scan false r v xs ms bs)
    (hq : ∀ y ys, xs = y :: ys → y.startsQuery = false) (hlen : opens.length = closes.length)
    (ho : ∀ x ∈ opens, x.isSymbol .openParen = true)
    (hc : ∀ x ∈ closes, x.isSymbol .closeParen = true)
    (hs : s.cursor.rest = opens ++ r.cursor.rest) (hp : r.parameters = s.parameters)
    (ht : v.cursor.rest = closes ++ t.cursor.rest) (hp' : t.parameters = v.parameters) :
    Scan false s t (opens ++ xs ++ closes) ms bs := by
  obtain ⟨hclosed, hout⟩ := h.closed.wrap hq hlen ho hc
  refine ⟨by rw [hs, h.rest, ht]; simp, hclosed, ?_, ?_, ?_⟩ <;> rw [hout]
  · rw [h.marks, hp]
  · exact h.bodies
  · rw [hp', h.count, hp]

end Scan

/-! ## Tokens that hold nothing -/

/-- From `c` to `d` there is neither a question mark nor a subquery. -/
def Cursor.Passes (commas : Bool) (c d : Cursor) : Prop :=
  ∃ xs, c.rest = xs ++ d.rest ∧ Closed commas xs ∧ outline xs = .empty

namespace Cursor.Passes

variable {commas : Bool} {c d e : Cursor} {t : Token}

theorem refl (commas : Bool) (c : Cursor) : Passes commas c c :=
  ⟨[], rfl, .nil, outline_nil⟩

theorem trans (h : Passes commas c d) (k : Passes commas d e) : Passes commas c e := by
  obtain ⟨xs, hx, hxc, hxo⟩ := h
  obtain ⟨ys, hy, hyc, hyo⟩ := k
  exact ⟨xs ++ ys, by rw [hx, hy, List.append_assoc], hxc.append hyc,
    by rw [hxc.outlined, hxo, hyo, Outline.empty_append]⟩

theorem token (h : c.rest = t :: d.rest) (hk : t.kind.isPlain commas = true) :
    Passes commas c d := by
  have hs : Scan commas ⟨c, 0⟩ ⟨d, 0⟩ [t] [] [] := .token ⟨h, rfl⟩ hk
  obtain ⟨ho, -, hp, -⟩ := Token.plain hk
  exact ⟨[t], h, hs.closed,
    by rw [outline_token hp (Closed.opensQuery_of_not_openParen ho []), outline_nil]⟩

theorem keyword {k : Keyword} (h : t.kind = .keyword k ∧ c.rest = t :: d.rest)
    (hk : (TokenKind.keyword k).isPlain commas = true) : Passes commas c d :=
  token h.2 (h.1 ▸ hk)

theorem symbol {k : Symbol} (h : t.kind = .symbol k ∧ c.rest = t :: d.rest)
    (hk : (TokenKind.symbol k).isPlain commas = true) : Passes commas c d :=
  token h.2 (h.1 ▸ hk)

theorem identifier (h : t.isIdentifier = true ∧ c.rest = t :: d.rest) : Passes commas c d :=
  token h.2 (Token.plain_of_isIdentifier h.1)

theorem scan {s : Reading} (h : Passes commas s.cursor d) :
    ∃ xs, Scan commas s { s with cursor := d } xs [] [] := by
  obtain ⟨xs, hx, hc, ho⟩ := h
  exact ⟨xs, hx, hc, by simp [ho, Outline.empty], by simp [ho, Outline.empty],
    by simp [ho, Outline.empty]⟩

end Cursor.Passes

end DataChange
