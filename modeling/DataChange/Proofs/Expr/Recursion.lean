import DataChange.Proofs.Marker.Parsed
import DataChange.Proofs.Recursion

/-!
# Reading expressions comes to an end

An expression that is read takes at least one token, and the subqueries that it keeps are shorter
than the tokens it was read from (`Reads.consumes`). Before an operand is read for another
operator, and before the items of a list are, a token has been taken. So reading expressions is a
recursion on the tokens to come (`parseAt_comesTo`), and so is the loop over operators
(`operators_comesTo`).
-/

namespace DataChange

/-! ## Tokens that are taken -/

/-- From `s` to `t` tokens are taken, and some subqueries are shorter than these tokens. -/
structure Consumes (s t : Reading) (bodies : List (List Token)) : Prop where
  suffix : t.cursor.rest <:+ s.cursor.rest
  shorter : ∀ body ∈ bodies, body.length < s.toCome - t.toCome

/-- What is scanned is consumed. -/
theorem Scan.consumes {commas : Bool} {s t : Reading} {xs : List Token} {marks : List Mark}
    {bodies : List (List Token)} (h : Scan commas s t xs marks bodies) : Consumes s t bodies where
  suffix := h.suffix
  shorter body hbody := by
    have hlt := length_of_mem_bodies (h.bodies ▸ hbody)
    simp only [Reading.toCome, Cursor.toCome, h.rest, List.length_append]
    omega

theorem Consumes.toCome_le {s t : Reading} {bodies : List (List Token)} (h : Consumes s t bodies) :
    t.toCome ≤ s.toCome :=
  h.suffix.length_le

namespace Expr

section

variable {s t : Reading} {e : Expr}

theorem Reads.consumes (h : Reads s e t) : Consumes s t e.bodies := by
  obtain ⟨xs, -, hscan⟩ := h.scan
  exact hscan.consumes

/-- The tokens of an expression start with one. -/
theorem Reads.toCome_lt (h : Reads s e t) : t.toCome < s.toCome := by
  obtain ⟨xs, ⟨x, ys, rfl, -⟩, hscan⟩ := h.scan
  simp only [Reading.toCome, Cursor.toCome, hscan.rest, List.length_append, List.length_cons]
  omega

theorem ReadsList.toCome_lt {es : List Expr} (h : ReadsList s es t) : t.toCome < s.toCome := by
  obtain ⟨xs, ⟨x, ys, rfl, -⟩, hscan⟩ := h.scan
  simp only [Reading.toCome, Cursor.toCome, hscan.rest, List.length_append, List.length_cons]
  omega

theorem Follows.shrinks {p : Parser Expr} (hp : Follows p) : Shrinks Reading.toCome p :=
  fun s e t h => (hp s e t h).toCome_lt

theorem FollowsList.shrinks {p : Parser (List Expr)} (hp : FollowsList p) :
    Shrinks Reading.toCome p :=
  fun s es t h => (hp s es t h).toCome_lt

end

/-! ## Operands -/

section

variable {n : Nat} {p p' : Parser (List Expr)}

theorem next_shrinks : Shrinks Reading.toCome (liftM Reader.next : Parser Token) := by
  intro s x t h
  simp [Reading.toCome, Cursor.toCome, (Reading.next_takes h).rest]

theorem symbol_shrinks (k : Symbol) :
    Shrinks Reading.toCome (liftM (Reader.symbol k) : Parser Token) := by
  intro s x t h
  simp [Reading.toCome, Cursor.toCome, (Reading.symbol_takes h).1.rest]

theorem skipSymbol_stays (k : Symbol) :
    Stays Reading.toCome (liftM (Reader.skipSymbol k) : Parser Bool) := by
  intro s found t h
  rcases Reading.skipSymbol_takes h with ⟨-, x, hx, -⟩ | ⟨-, rfl⟩
  · simp [Reading.toCome, Cursor.toCome, hx.rest]
  · exact Nat.le_refl _

theorem skipKeyword_stays (k : Keyword) :
    Stays Reading.toCome (liftM (Reader.skipKeyword k) : Parser Bool) := by
  intro s found t h
  rcases Reading.skipKeyword_takes h with ⟨-, x, hx, -⟩ | ⟨-, rfl⟩
  · simp [Reading.toCome, Cursor.toCome, hx.rest]
  · exact Nat.le_refl _

theorem keyword_shrinks (k : Keyword) :
    Shrinks Reading.toCome (liftM (Reader.keyword k) : Parser Token) := by
  intro s x t h
  simp [Reading.toCome, Cursor.toCome, (Reading.keyword_takes h).1.rest]

theorem named_agrees (hp : Stays Reading.toCome p') (h : Agrees Reading.toCome n p p')
    (name : Token) : Agrees Reading.toCome n (named p name) (named p' name) := by
  unfold named
  refine .same (skipSymbol_stays _) fun found => .ite (.same stays_get fun u => ?_) (.refl _)
  exact .ite (.refl _) (h.bind hp fun _ => .refl _)

theorem rowItems_agrees (hp : Stays Reading.toCome p') (h : Agrees Reading.toCome n p p') :
    Agrees Reading.toCome n (rowItems p) (rowItems p') :=
  .same stays_get fun _ => h.bind hp fun _ => .refl _

theorem inBrackets_agrees (hp : FollowsList p') (h : Agrees Reading.toCome n p p')
    (fragment : Fragment) :
    Agrees Reading.toCome n (inBrackets p fragment) (inBrackets p' fragment) := by
  refine .same stays_get fun u => .ite (.refl _) ((rowItems_agrees hp.shrinks.stays h).bind ?_ ?_)
  · intro s e t hrow
    obtain ⟨items, hitems, rfl⟩ := rowItems_reads hp hrow
    exact Nat.le_of_lt hitems.toCome_lt
  · exact fun _ => .refl _

/-- The token that starts an operand is taken before any item is read. -/
theorem primary_agrees (hp : FollowsList p') (h : Agrees Reading.toCome n p p') :
    Agrees Reading.toCome (n + 1) (primary p) (primary p') := by
  refine .after next_shrinks fun x => ?_
  dsimp only
  split
  case h_9 =>
    exact .same (symbol_shrinks _).stays fun _ => h.bind hp.shrinks.stays fun _ => .refl _
  case h_10 => exact inBrackets_agrees hp h _
  case h_11 => exact .ite (named_agrees hp.shrinks.stays h x) (.refl _)
  all_goals exact .refl _

end

/-! ## Operators -/

section

variable {n : Nat} {parse parse' : Level → Parser Expr}

theorem operand_agrees (hp : ∀ level, Follows (parse' level))
    (h : ∀ level, Agrees Reading.toCome n (parse level) (parse' level)) :
    Agrees Reading.toCome (n + 1) (operand parse) (operand parse') := by
  refine .same ?_ fun x => ?_
  · intro s x t hx
    obtain ⟨d, hd, rfl⟩ := lift_reader_ok.1 hx
    obtain ⟨rfl, -⟩ := Reader.current_ok hd
    exact Nat.le_refl _
  · split
    · exact .after next_shrinks fun _ => (h _).bind (hp _).shrinks.stays fun _ => .refl _
    · exact .after next_shrinks fun _ => (h _).bind (hp _).shrinks.stays fun _ => .refl _
    · exact .after next_shrinks fun _ => (h _).bind (hp _).shrinks.stays fun _ => .refl _
    · exact primary_agrees (followsList_commaSeparated (hp _))
        (commaSeparated_agrees countsTokens_reading (hp _).shrinks.stays (h _))

theorem operation_agrees (hp : ∀ level, Follows (parse' level))
    (h : ∀ level, Agrees Reading.toCome n (parse level) (parse' level)) (left : Expr) :
    Agrees Reading.toCome (n + 1) (operation parse left) (operation parse' left) := by
  refine .after next_shrinks fun x => .ite (.refl _) ?_
  split
  · exact (h _).bind (hp _).shrinks.stays fun _ => .refl _
  · exact .refl _

theorem operation_shrinks (hp : ∀ level, Follows (parse level)) (left : Expr) :
    Shrinks Reading.toCome (operation parse left) := by
  refine next_shrinks.bind fun x => .ite ?_ ?_
  · exact (skipKeyword_stays _).bind fun _ => (keyword_shrinks _).stays.bind fun _ => stays_pure _
  · split
    · exact (hp _).shrinks.stays.bind fun _ => stays_pure _
    · exact stays_reject _

theorem extendWithin_agrees (hp : ∀ level, Follows (parse' level))
    (h : ∀ level, Agrees Reading.toCome n (parse level) (parse' level)) (level : Level) :
    ∀ (bound : Nat) (left : Expr), Agrees Reading.toCome (n + 1)
      (extendWithin parse level bound left) (extendWithin parse' level bound left)
  | 0, _ => .refl _
  | bound + 1, left => by
    refine .same stays_get fun u => ?_
    split
    · exact .refl _
    · exact .ite (.refl _) ((operation_agrees hp h left).bind (operation_shrinks hp left).stays
        (extendWithin_agrees hp h level bound))

/-! ## The recursions -/

/-- The step of reading an expression: an operand, and the operators behind it. -/
def parseStep (parse : Level → Parser Expr) (level : Level) : Parser Expr := do
  let left ← operand parse
  extendWithin parse level (← remaining) left

theorem parseStep_agrees (hp : ∀ level, Follows (parse' level))
    (h : ∀ level, Agrees Reading.toCome n (parse level) (parse' level)) (level : Level) :
    Agrees Reading.toCome (n + 1) (parseStep parse level) (parseStep parse' level) :=
  (operand_agrees hp h).bind (Follows.shrinks (operand_reads hp)).stays fun left =>
    .same (stays_remaining countsTokens_reading) fun bound =>
      extendWithin_agrees hp h level bound left

/-- Reading expressions within expressions comes to an end: as deep as they nest, there is a token
before each of them. -/
theorem parseAt_comesTo : ComesTo parseStep parseAt fun _ s => s.toCome + 1 := by
  have hdescending : Descending (fun _ s => Reading.toCome s) parseStep parseWithin :=
    ⟨fun _ => rfl, fun n b parse h => parseStep_agrees (parseWithin_reads b) h⟩
  refine hdescending.comesTo fun level s => ?_
  exact (bind_run (countsTokens_reading.remaining s)).trans rfl

/-- The step of the loop over operators. -/
def operatorStep (parse : Level → Parser Expr) (level : Level) (extend : Expr → Parser Expr)
    (left : Expr) : Parser Expr := do
  match (← get).cursor.rest with
  | [] => return left
  | t :: _ =>
    if level.rank ≥ (levelOf t).rank then return left else extend (← operation parse left)

/-- The loop over the operators behind an operand. -/
def operators (level : Level) (left : Expr) : Parser Expr := do
  extendWithin parseAt level (← remaining) left

theorem operatorStep_agrees (level : Level) {extend extend' : Expr → Parser Expr}
    (h : ∀ left, Agrees Reading.toCome n (extend left) (extend' left)) (left : Expr) :
    Agrees Reading.toCome (n + 1) (operatorStep parseAt level extend left)
      (operatorStep parseAt level extend' left) := by
  refine .same stays_get fun u => ?_
  split
  · exact .refl _
  · exact .ite (.refl _) (.after (operation_shrinks parseAt_reads left) h)

/-- The loop over operators comes to an end, since it takes each operator. -/
theorem operators_comesTo (level : Level) :
    ComesTo (operatorStep parseAt level) (operators level) fun _ s => s.toCome + 1 := by
  have hdescending : Descending (fun (_ : Expr) s => Reading.toCome s)
      (operatorStep parseAt level) (extendWithin parseAt level) :=
    ⟨fun _ => rfl, fun n b extend h => operatorStep_agrees level h⟩
  refine hdescending.comesTo_of_last (fun left s hs => ?_) fun left s => ?_
  · have hnil : s.cursor.rest = [] := List.length_eq_zero_iff.1 hs
    show _ = (get >>= _ : Parser Expr) s
    rw [bind_run (get_ok.2 ⟨rfl, rfl⟩), hnil]
    rfl
  · exact bind_run (countsTokens_reading.remaining s)

end

/-- The loop over a list of expressions comes to an end. -/
theorem parseList_ends : ListEnds Reading.toCome (addItem parse) :=
  listEnds countsTokens_reading (Follows.shrinks parse_reads).stays.addItem

end Expr

end DataChange
