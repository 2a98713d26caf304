import DataChange.Proofs.Token.Consumed

/-!
# The order in which question marks are read

A subquery in brackets is kept as tokens while the expression around it is read, and is itself
read only when references are bound. `outline` splits tokens accordingly: the question marks
outside all subqueries, and the bodies of the outermost subqueries. In `readingOrder` the marks
outside come first, then those of the subqueries, one body after the other.

Some clauses of a statement are finished before the next one is read. `pieces` cuts tokens at the
separators outside all brackets, each piece starting with its separator.

The second half gives the laws by which both are computed for tokens that were read one after the
other: `Closed` tokens neither open a bracket they do not close nor hold a separator, so that what
follows them is cut as if it stood alone.
-/

namespace DataChange

namespace Token

/-- Whether a query starts with the token. -/
def startsQuery (t : Token) : Bool :=
  t.isKeyword .SELECT || t.isKeyword .WITH || t.isKeyword .TABLE || t.isKeyword .VALUES

/-- Whether the token starts a clause that is read after everything before it, or ends the
statement. -/
def isClause (t : Token) : Bool :=
  match t.kind with
  | .keyword .ORDER | .keyword .LIMIT | .keyword .OFFSET | .keyword .ON | .keyword .WHEN
  | .keyword .THEN | .symbol .semicolon => true
  | _ => false

end Token

/-- Whether some tokens start with a bracket that holds a query. -/
def opensQuery : List Token → Bool
  | t :: u :: _ => t.isSymbol .openParen && u.startsQuery
  | _ => false

/-- The question marks outside all subqueries, and the bodies of the outermost subqueries. -/
structure Outline where
  markers : List Token
  bodies : List (List Token)

namespace Outline

def empty : Outline := ⟨[], []⟩

def append (o p : Outline) : Outline :=
  ⟨o.markers ++ p.markers, o.bodies ++ p.bodies⟩

@[simp] theorem empty_append (o : Outline) : empty.append o = o := rfl

@[simp] theorem append_empty (o : Outline) : o.append empty = o := by
  simp [append, empty]

theorem append_assoc (o p q : Outline) : (o.append p).append q = o.append (p.append q) := by
  simp [append]

end Outline

/-- The outline of some tokens; a subquery without its closing bracket ends it. -/
def outline : List Token → Outline
  | [] => .empty
  | t :: ts =>
    if opensQuery (t :: ts) then
      match _h : splitClosing 0 ts with
      | some (body, rest) => Outline.append ⟨[], [body]⟩ (outline rest)
      | none => .empty
    else if t.kind = .parameter then Outline.append ⟨[t], []⟩ (outline ts)
    else outline ts
termination_by ts => ts.length
decreasing_by
  all_goals simp only [List.length_cons]
  · obtain ⟨close, -, rfl, -⟩ := splitClosing_eq _h
    simp
    omega
  all_goals omega

@[simp] theorem outline_nil : outline [] = .empty := by
  rw [outline]

theorem outline_marker {t : Token} (h : t.kind = .parameter) (ts : List Token) :
    outline (t :: ts) = Outline.append ⟨[t], []⟩ (outline ts) := by
  have hs : t.isSymbol .openParen = false := by simp [Token.isSymbol, h]
  have ho : opensQuery (t :: ts) = false := by
    cases ts <;> simp [opensQuery, hs]
  rw [outline, if_neg (by simp [ho]), if_pos h]

theorem outline_token {t : Token} {ts : List Token} (h : t.kind ≠ .parameter)
    (ho : opensQuery (t :: ts) = false) : outline (t :: ts) = outline ts := by
  rw [outline, if_neg (by simp [ho]), if_neg h]

theorem outline_body {t : Token} {ts body rest : List Token} (ho : opensQuery (t :: ts) = true)
    (hs : splitClosing 0 ts = some (body, rest)) :
    outline (t :: ts) = Outline.append ⟨[], [body]⟩ (outline rest) := by
  rw [outline, if_pos ho]
  split
  · rename_i b r hb
    rw [hs] at hb
    cases hb
    rfl
  · rename_i hb
    rw [hs] at hb
    cases hb

theorem length_of_mem_bodies {ts body : List Token} (h : body ∈ (outline ts).bodies) :
    body.length < ts.length := by
  fun_induction outline ts with
  | case1 => simp [Outline.empty] at h
  | case2 t ts ho body' rest hs ih =>
    obtain ⟨close, -, rfl, -⟩ := splitClosing_eq hs
    simp only [Outline.append, List.cons_append, List.nil_append, List.mem_cons] at h
    rcases h with rfl | h
    · simp only [List.length_cons, List.length_append]
      omega
    · have := ih h
      simp only [List.length_cons, List.length_append]
      omega
  | case3 => simp [Outline.empty] at h
  | case4 t ts _ _ ih =>
    have := ih (by simpa [Outline.append] using h)
    simp only [List.length_cons]
    omega
  | case5 t ts _ _ ih =>
    have := ih h
    simp only [List.length_cons]
    omega

/-- The question marks in the order in which they are read: those outside subqueries first, then
those of each subquery. -/
def readingOrder (ts : List Token) : List Token :=
  (outline ts).markers ++ (outline ts).bodies.attach.flatMap fun body => readingOrder body.1
termination_by ts.length
decreasing_by exact length_of_mem_bodies body.2

/-- The question marks of the subqueries alone. -/
def deferredOrder (ts : List Token) : List Token :=
  (outline ts).bodies.flatMap readingOrder

theorem readingOrder_eq (ts : List Token) :
    readingOrder ts = (outline ts).markers ++ deferredOrder ts := by
  rw [readingOrder, deferredOrder]
  congr 1
  simp [List.flatMap_def]

/-! ## Pieces -/

/-- Some tokens put before the first of some pieces. -/
def joinHead (xs : List Token) : List (List Token) → List (List Token)
  | [] => [xs]
  | p :: ps => (xs ++ p) :: ps

/-- The pieces between the separators outside all brackets, with `depth` brackets open. -/
def pieces (sep : Token → Bool) : Nat → List Token → List (List Token)
  | _, [] => [[]]
  | depth, t :: ts =>
    if t.isSymbol .openParen then joinHead [t] (pieces sep (depth + 1) ts)
    else if t.isSymbol .closeParen then joinHead [t] (pieces sep (depth - 1) ts)
    else if depth = 0 && sep t then [] :: joinHead [t] (pieces sep 0 ts)
    else joinHead [t] (pieces sep depth ts)

theorem joinHead_append (xs ys : List Token) (ps : List (List Token)) :
    joinHead (xs ++ ys) ps = joinHead xs (joinHead ys ps) := by
  cases ps <;> simp [joinHead]

theorem joinHead_cons (x : Token) (xs : List Token) (ps : List (List Token)) :
    joinHead (x :: xs) ps = joinHead [x] (joinHead xs ps) :=
  joinHead_append [x] xs ps

variable {sep : Token → Bool} {t : Token}

theorem pieces_openParen (h : t.isSymbol .openParen = true) (depth : Nat) (ts : List Token) :
    pieces sep depth (t :: ts) = joinHead [t] (pieces sep (depth + 1) ts) := by
  rw [pieces, if_pos h]

theorem pieces_closeParen (h : t.isSymbol .closeParen = true) (depth : Nat) (ts : List Token) :
    pieces sep (depth + 1) (t :: ts) = joinHead [t] (pieces sep depth ts) := by
  rw [pieces, if_neg (by simp [not_openParen h]), if_pos h, Nat.add_sub_cancel]

theorem pieces_plain (ho : t.isSymbol .openParen = false) (hc : t.isSymbol .closeParen = false)
    {depth : Nat} (h : depth = 0 → sep t = false) (ts : List Token) :
    pieces sep depth (t :: ts) = joinHead [t] (pieces sep depth ts) := by
  rw [pieces, if_neg (by simp [ho]), if_neg (by simp [hc]), if_neg]
  simpa using h

theorem pieces_separator (ho : t.isSymbol .openParen = false)
    (hc : t.isSymbol .closeParen = false) (h : sep t = true) (ts : List Token) :
    pieces sep 0 (t :: ts) = [] :: joinHead [t] (pieces sep 0 ts) := by
  rw [pieces, if_neg (by simp [ho]), if_neg (by simp [hc]), if_pos (by simp [h])]

/-- The body of a bracket and the bracket that closes it are not cut. -/
theorem pieces_splitClosing : ∀ {ts : List Token} {k : Nat} {body rest : List Token},
    splitClosing k ts = some (body, rest) → ∃ close, ts = body ++ close :: rest ∧
      ∀ depth, pieces sep (depth + 1 + k) ts = joinHead (body ++ [close]) (pieces sep depth rest)
  | [], _, _, _, h => by simp [splitClosing] at h
  | t :: ts, k, body, rest, h => by
    unfold splitClosing at h
    split at h
    · rename_i ho
      obtain ⟨⟨b, r⟩, hb, he⟩ := Option.map_eq_some_iff.1 h
      cases he
      obtain ⟨close, rfl, hp⟩ := pieces_splitClosing hb
      refine ⟨close, rfl, fun depth => ?_⟩
      rw [pieces_openParen ho, Nat.add_assoc _ k 1, hp, List.cons_append, ← joinHead_cons]
    · rename_i ho
      split at h
      · rename_i hc
        cases k with
        | zero =>
          cases h
          exact ⟨t, rfl, fun depth => pieces_closeParen hc depth ts⟩
        | succ k =>
          obtain ⟨⟨b, r⟩, hb, he⟩ := Option.map_eq_some_iff.1 h
          cases he
          obtain ⟨close, rfl, hp⟩ := pieces_splitClosing hb
          refine ⟨close, rfl, fun depth => ?_⟩
          rw [← Nat.add_assoc, pieces_closeParen hc, hp, List.cons_append, ← joinHead_cons]
      · rename_i hc
        obtain ⟨⟨b, r⟩, hb, he⟩ := Option.map_eq_some_iff.1 h
        cases he
        obtain ⟨close, rfl, hp⟩ := pieces_splitClosing hb
        refine ⟨close, rfl, fun depth => ?_⟩
        rw [pieces_plain (by simpa using ho) (by simpa using hc) (by omega), hp, List.cons_append,
          ← joinHead_cons]

/-! ## Closed tokens -/

/-- The separators at which a statement is cut: the starts of clauses and, if `commas` says so,
the commas between the keys of an order. -/
def Separates (commas : Bool) (sep : Token → Bool) : Prop :=
  ∀ t, sep t = true → t.isClause = true ∨ (commas = true ∧ t.isSymbol .comma = true)

/-- Tokens after which everything is cut and outlined as if it stood alone. -/
structure Closed (commas : Bool) (xs : List Token) : Prop where
  outlined : ∀ ys, outline (xs ++ ys) = (outline xs).append (outline ys)
  /-- The bracket that closes them comes later. -/
  passed : ∀ depth ys, splitClosing depth (xs ++ ys) =
    (splitClosing depth ys).map fun (body, rest) => (xs ++ body, rest)
  /-- Inside further brackets nothing separates. -/
  nested : ∀ sep depth ys,
    pieces sep (depth + 1) (xs ++ ys) = joinHead xs (pieces sep (depth + 1) ys)
  whole : ∀ sep, Separates commas sep → ∀ ys,
    pieces sep 0 (xs ++ ys) = joinHead xs (pieces sep 0 ys)

theorem joinHead_nil_pieces (depth : Nat) (ts : List Token) :
    joinHead [] (pieces sep depth ts) = pieces sep depth ts := by
  cases h : pieces sep depth ts with
  | nil =>
    exfalso
    revert h
    fun_cases pieces sep depth ts <;> simp [joinHead] <;> split <;> simp
  | cons p ps => rfl

namespace Closed

variable {commas : Bool} {xs ys : List Token}

theorem nil : Closed commas [] where
  outlined ys := by simp
  passed depth ys := by simp
  nested sep depth ys := by rw [List.nil_append, joinHead_nil_pieces]
  whole sep _ ys := by rw [List.nil_append, joinHead_nil_pieces]

theorem append (hx : Closed commas xs) (hy : Closed commas ys) : Closed commas (xs ++ ys) where
  outlined zs := by
    rw [List.append_assoc, hx.outlined, hy.outlined, hx.outlined, Outline.append_assoc]
  passed depth zs := by
    rw [List.append_assoc, hx.passed, hy.passed, Option.map_map]
    simp [Function.comp_def]
  nested sep depth zs := by
    rw [List.append_assoc, hx.nested, hy.nested, joinHead_append]
  whole sep hs zs := by
    rw [List.append_assoc, hx.whole sep hs, hy.whole sep hs, joinHead_append]

theorem flatten {ls : List (List Token)} (h : ∀ l ∈ ls, Closed commas l) :
    Closed commas ls.flatten := by
  induction ls with
  | nil => exact nil
  | cons l ls ih =>
    exact (h l (by simp)).append (ih fun l hl => h l (by simp [hl]))

/-- Tokens that are closed where commas separate are closed where they do not. -/
theorem weaken (h : Closed commas xs) : Closed false xs where
  outlined := h.outlined
  passed := h.passed
  nested := h.nested
  whole sep hs ys := h.whole sep (fun t ht => .inl (by simpa using hs t ht)) ys

theorem opensQuery_of_not_openParen (h : t.isSymbol .openParen = false) (ts : List Token) :
    opensQuery (t :: ts) = false := by
  cases ts <;> simp [opensQuery, h]

/-- A single token that is neither a bracket nor a separator. -/
theorem token (ho : t.isSymbol .openParen = false) (hc : t.isSymbol .closeParen = false)
    (hk : t.isClause = false) (hm : commas = true → t.isSymbol .comma = false) :
    Closed commas [t] where
  outlined ys := by
    have h := opensQuery_of_not_openParen ho
    by_cases hp : t.kind = .parameter
    · rw [List.cons_append, List.nil_append, outline_marker hp, outline_marker hp, outline_nil,
        Outline.append_empty]
    · rw [List.cons_append, List.nil_append, outline_token hp (h ys), outline_token hp (h []),
        outline_nil, Outline.empty_append]
  passed depth ys := by
    rw [List.cons_append, List.nil_append]
    conv => lhs; unfold splitClosing
    rw [if_neg (by simp [ho]), if_neg (by simp [hc])]
    rfl
  nested sep depth ys := pieces_plain ho hc (by omega) ys
  whole sep hs ys := by
    refine pieces_plain ho hc (fun _ => ?_) ys
    cases hsep : sep t with
    | false => rfl
    | true =>
      rcases hs t hsep with h | ⟨h, h'⟩
      · rw [hk] at h
        cases h
      · rw [hm h] at h'
        cases h'

/-- The bracket right after closed tokens closes them. -/
theorem splitClosing_eq_some {close : Token} (hx : Closed commas xs)
    (hc : close.isSymbol .closeParen = true) (ys : List Token) :
    splitClosing 0 (xs ++ close :: ys) = some (xs, ys) := by
  rw [hx.passed, splitClosing, if_neg (by simp [not_openParen hc]), if_pos hc]
  simp

/-- Tokens between brackets are closed, as far as their outline is known. -/
theorem of_split (commas : Bool) {close : Token} {o : Outline} (ho : t.isSymbol .openParen = true)
    (hsplit : ∀ zs, splitClosing 0 (xs ++ close :: zs) = some (xs, zs))
    (hout : ∀ zs, outline (t :: (xs ++ close :: zs)) = o.append (outline zs)) :
    Closed commas (t :: xs ++ [close]) ∧ outline (t :: xs ++ [close]) = o := by
  have hpieces : ∀ sep depth zs, pieces sep depth (t :: xs ++ [close] ++ zs) =
      joinHead (t :: xs ++ [close]) (pieces sep depth zs) := by
    intro sep depth zs
    obtain ⟨close', he, hp⟩ := @pieces_splitClosing sep _ _ _ _ (hsplit zs)
    obtain rfl : close = close' := by simpa using he
    rw [List.append_assoc, List.cons_append, List.singleton_append, pieces_openParen ho,
      ← Nat.add_zero (depth + 1), hp, ← joinHead_cons, List.cons_append]
  have hnil : outline (t :: xs ++ [close]) = o := by
    rw [List.cons_append, hout [], outline_nil, Outline.append_empty]
  refine ⟨⟨fun zs => ?_, fun depth zs => ?_, fun sep depth zs => hpieces sep _ zs,
    fun sep _ zs => hpieces sep _ zs⟩, hnil⟩
  · rw [hnil, ← hout zs]
    simp
  · obtain ⟨close', he, hw⟩ := splitClosing_within (hsplit zs)
    obtain rfl : close = close' := by simpa using he
    rw [List.append_assoc, List.cons_append, List.singleton_append]
    conv => lhs; unfold splitClosing
    rw [if_pos ho, ← Nat.add_zero (depth + 1), hw, Option.map_map]
    simp [Function.comp_def]

/-- Closed tokens between brackets, if they are no query. -/
theorem bracket (commas : Bool) {close : Token} (ho : t.isSymbol .openParen = true)
    (hc : close.isSymbol .closeParen = true) (hx : Closed false xs)
    (hq : ∀ u us, xs = u :: us → u.startsQuery = false) :
    Closed commas (t :: xs ++ [close]) ∧ outline (t :: xs ++ [close]) = outline xs := by
  have hopen : ∀ ys, opensQuery (t :: (xs ++ close :: ys)) = false := by
    intro ys
    cases xs with
    | nil =>
      have : close.startsQuery = false := by
        simp only [Token.isSymbol, decide_eq_true_eq] at hc
        simp [Token.startsQuery, Token.isKeyword, hc]
      simp [opensQuery, this]
    | cons u us => simp [opensQuery, hq u us rfl]
  have hp : t.kind ≠ .parameter := by
    simp only [Token.isSymbol, decide_eq_true_eq] at ho
    simp [ho]
  have hpc : close.kind ≠ .parameter := by
    simp only [Token.isSymbol, decide_eq_true_eq] at hc
    simp [hc]
  refine of_split commas ho (hx.splitClosing_eq_some hc) fun zs => ?_
  rw [outline_token hp (hopen zs), hx.outlined,
    outline_token hpc (opensQuery_of_not_openParen (not_openParen hc) zs)]

/-- A query between brackets. -/
theorem query (commas : Bool) {rest body : List Token} (ho : t.isSymbol .openParen = true)
    (hs : splitClosing 0 rest = some (body, ys)) (hq : opensQuery (t :: rest) = true) :
    ∃ close, t :: rest = (t :: body ++ [close]) ++ ys ∧ Closed commas (t :: body ++ [close]) ∧
      outline (t :: body ++ [close]) = ⟨[], [body]⟩ := by
  obtain ⟨close, hclose, rfl, hsplit⟩ := splitClosing_eq hs
  refine ⟨close, by simp, of_split commas ho hsplit fun zs => outline_body ?_ (hsplit zs)⟩
  cases body with
  | nil => exact hq
  | cons u us => exact hq

/-- Brackets around closed tokens that are no query change nothing. -/
theorem wrap (hx : Closed false xs) (hq : ∀ u us, xs = u :: us → u.startsQuery = false) :
    ∀ {opens closes : List Token}, opens.length = closes.length →
      (∀ t ∈ opens, t.isSymbol .openParen = true) →
      (∀ t ∈ closes, t.isSymbol .closeParen = true) →
      Closed false (opens ++ xs ++ closes) ∧ outline (opens ++ xs ++ closes) = outline xs
  | [], [], _, _, _ => by simpa using hx
  | o :: opens, closes, hlen, ho, hc => by
    obtain rfl | ⟨closes, c, rfl⟩ := List.eq_nil_or_concat closes
    · simp at hlen
    have hlen : opens.length = closes.length := by simpa using hlen
    obtain ⟨hin, hout⟩ := wrap hx hq hlen (fun t ht => ho t (by simp [ht]))
      (fun t ht => hc t (by simp [ht]))
    have hlead : ∀ u us, opens ++ xs ++ closes = u :: us → u.startsQuery = false := by
      intro u us hu
      have hsymbol : ∀ k, u.isSymbol k = true → u.startsQuery = false := by
        intro k hk
        simp only [Token.isSymbol, decide_eq_true_eq] at hk
        simp [Token.startsQuery, Token.isKeyword, hk]
      cases opens with
      | cons o' opens =>
        obtain ⟨rfl, -⟩ := List.cons.inj hu
        exact hsymbol _ (ho o' (by simp))
      | nil =>
        obtain rfl := List.length_eq_zero_iff.1 hlen.symm
        exact hq u us (by simpa using hu)
    obtain ⟨hclosed, hout'⟩ := bracket false (ho o (by simp)) (hc c (by simp)) hin hlead
    have happend : o :: opens ++ xs ++ closes.concat c =
        o :: (opens ++ xs ++ closes) ++ [c] := by simp
    rw [happend]
    exact ⟨hclosed, hout'.trans hout⟩

/-- A query between any number of brackets is read like the query. -/
theorem brackets {q : Token} {qs opens closes : List Token} (hq : q.startsQuery = true)
    (hx : Closed false (q :: qs)) (hlen : opens.length = closes.length)
    (ho : ∀ t ∈ opens, t.isSymbol .openParen = true)
    (hc : ∀ t ∈ closes, t.isSymbol .closeParen = true) :
    Closed false (opens ++ (q :: qs) ++ closes) ∧
      readingOrder (opens ++ (q :: qs) ++ closes) = readingOrder (q :: qs) := by
  obtain rfl | ⟨opens, o, rfl⟩ := List.eq_nil_or_concat opens
  · obtain rfl := List.length_eq_zero_iff.1 hlen.symm
    simpa using hx
  cases closes with
  | nil => simp at hlen
  | cons c closes =>
    have ho' := ho o (by simp)
    have hopen : opensQuery (o :: (q :: qs ++ [c])) = true := by simp [opensQuery, ho', hq]
    obtain ⟨c', he, hclosed, hout⟩ := query false ho'
      (hx.splitClosing_eq_some (hc c (by simp)) []) hopen
    obtain rfl : c = c' := by simpa using he
    -- the innermost pair of brackets holds the query, and the other pairs only enclose that one
    have hlead : o.startsQuery = false := by
      simp only [Token.isSymbol, decide_eq_true_eq] at ho'
      simp [Token.startsQuery, Token.isKeyword, ho']
    obtain ⟨hclosed, hwrap⟩ := hclosed.wrap
      (fun u us hu => by obtain ⟨rfl, -⟩ := List.cons.inj hu; exact hlead)
      (by simpa using hlen : opens.length = closes.length) (fun t ht => ho t (by simp [ht]))
      (fun t ht => hc t (by simp [ht]))
    have happend : opens.concat o ++ q :: qs ++ c :: closes =
        opens ++ (o :: (q :: qs) ++ [c]) ++ closes := by simp
    rw [happend]
    refine ⟨hclosed, ?_⟩
    rw [readingOrder_eq, deferredOrder, hwrap, hout]
    simp

end Closed

/-! ## Ends -/

/-- The end of a statement. -/
def IsTail (ts : List Token) : Prop :=
  ts = [] ∨ ∃ x, x.kind = .symbol .semicolon ∧ ts = [x]

theorem IsTail.outline_append {ts : List Token} (h : IsTail ts) (rest : List Token) :
    outline (ts ++ rest) = outline rest := by
  rcases h with rfl | ⟨x, hx, rfl⟩
  · rfl
  · exact outline_token (by simp [hx])
      (Closed.opensQuery_of_not_openParen (by simp [Token.isSymbol, hx]) rest)

theorem IsTail.readingOrder_append {xs ts : List Token} (h : IsTail ts) (hx : Closed false xs) :
    readingOrder (xs ++ ts) = readingOrder xs := by
  have hout : outline ts = .empty := by simpa using h.outline_append []
  rw [readingOrder_eq, readingOrder_eq, deferredOrder, deferredOrder, hx.outlined, hout,
    Outline.append_empty]

end DataChange
