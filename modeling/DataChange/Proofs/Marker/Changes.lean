import DataChange.Proofs.Marker.Clauses
import DataChange.Proofs.Marker.Views

/-!
# Question marks of UPDATE and DELETE

What stands before the slice is read first. The keys of the order and the bounds are each read and
resolved at once (`read?_inOrder`), and then the subqueries of the values and of the condition.
-/

namespace DataChange

variable {env : Environment} {s t : CompilerState}

/-! ## Separators -/

/-- A keyword that may be missing, and is there. -/
theorem takes_skipKeyword {k : Keyword}
    (h : (liftM (Reader.skipKeyword k) : Compiler Bool) s = .ok true t) :
    ∃ x, x.kind = .keyword k ∧ s.toReading.Takes x t.toReading ∧ Keeps s t := by
  have hk := reader_keeps h
  obtain ⟨c, hc, rfl⟩ := lift_reader_compiler_ok.1 h
  obtain ⟨x, hx, hr⟩ := Reader.skipKeyword_true hc
  exact ⟨x, hx, ⟨hr, rfl⟩, hk⟩

/-- A keyword that may be missing, and is. -/
theorem skipKeyword_stays {k : Keyword}
    (h : (liftM (Reader.skipKeyword k) : Compiler Bool) s = .ok false t) : t = s := by
  obtain ⟨c, hc, rfl⟩ := lift_reader_compiler_ok.1 h
  obtain ⟨rfl, -⟩ := Reader.skipKeyword_false hc
  rfl

theorem separates_comma : Separates true (·.isSymbol .comma) :=
  fun _ ht => .inr ⟨rfl, ht⟩

theorem separates_startsSlice : Separates false Token.startsSlice := by
  intro x hx
  refine .inl ?_
  simp only [Token.startsSlice, Token.isKeyword, Token.isSymbol, Bool.or_eq_true,
    decide_eq_true_eq] at hx
  rcases hx with ((hx | hx) | hx) | hx <;> simp [Token.isClause, hx]

/-- A separator before closed tokens; where only commas separate it does not. -/
theorem Segment.of_closed {sep : Token → Bool} (hseparates : Separates false sep) {x : Token}
    {ys : List Token} (hx : ∃ k, x.kind = .keyword k) (hsep : sep x = true) (hys : Closed true ys) :
    Segment sep (x :: ys) ∧ pieces (·.isSymbol .comma) 0 (x :: ys) = [x :: ys] ∧
      readingOrder (x :: ys) = readingOrder ys := by
  obtain ⟨k, hk⟩ := hx
  have hsymbol : ∀ symbol, x.isSymbol symbol = false := by simp [Token.isSymbol, hk]
  refine ⟨⟨x, ys, rfl, hsep, hsymbol _, hsymbol _, hys.paired, hys.weaken.whole sep hseparates⟩,
    ?_, ?_⟩
  · have hwhole : pieces (·.isSymbol .comma) 0 (ys ++ [].flatten) = [ys] :=
      pieces_segments (hys.whole _ separates_comma) (by simp)
    rw [List.flatten_nil, List.append_nil] at hwhole
    rw [pieces_plain (hsymbol _) (hsymbol _) (fun _ => hsymbol _), hwhole]
    rfl
  · exact readingOrder_cons (by simp [hk]) (hsymbol _) ys

/-! ## ORDER BY, LIMIT and OFFSET -/

namespace Slice

variable {outer : List RangeGroup} {scope : Scope}

/-- The clauses of a slice, read from `s` to `t` and resolved one after the other. -/
structure InOrder (s t : CompilerState) (segments : List (List Token)) (marks : List Mark) :
    Prop where
  rest : s.cursor.rest = segments.flatten ++ t.cursor.rest
  segmented : ∀ ts ∈ segments, Segment Token.startsSlice ts
  numbers : Numbers s.parameters t.parameters
    ((segments.flatMap (pieces (·.isSymbol .comma) 0)).flatMap readingOrder) [] marks
  keeps : Keeps s t

namespace InOrder

variable {u : CompilerState} {xs ys : List (List Token)} {ms ns : List Mark}

theorem refl (s : CompilerState) : InOrder s s [] [] :=
  ⟨rfl, by simp, .refl _ _, .refl s⟩

theorem trans (h : InOrder s t xs ms) (k : InOrder t u ys ns) :
    InOrder s u (xs ++ ys) (ms ++ ns) where
  rest := by rw [h.rest, k.rest, List.flatten_append, List.append_assoc]
  segmented ts hts := (List.mem_append.1 hts).elim (h.segmented ts) (k.segmented ts)
  numbers := by simpa using h.numbers.trans k.numbers
  keeps := h.keeps.trans k.keeps

/-- A keyword and an expression. -/
theorem clause {x : Token} {xs : List Token} (hx : s.toReading.Takes x t.toReading)
    (hk : ∃ k, x.kind = .keyword k) (hsep : x.startsSlice = true) (hkeeps : Keeps s u)
    (h : DataChange.InOrder true t u xs ms) : InOrder s u [x :: xs] ms := by
  obtain ⟨hsegment, hpieces, hread⟩ := Segment.of_closed separates_startsSlice hk hsep h.closed
  refine ⟨?_, by simpa using hsegment, ?_, hkeeps⟩
  · rw [List.flatten_singleton, List.cons_append, ← h.rest]
    exact hx.rest
  · have hp : t.parameters = s.parameters := hx.parameters
    simpa [hpieces, hread, hp] using h.numbers

end InOrder

theorem readBound_inOrder {e : Expr} (h : readBound env outer s = .ok e t) :
    Keeps s t ∧ ∃ xs, DataChange.InOrder true s t xs e.marks := by
  obtain ⟨bound, s₁, bound', hparse, hresolve, htype⟩ := readBound_ok h
  obtain ⟨hraw, xs, hs⟩ := Scan.parsed (Expr.parseAt_reads .comparison) hparse
  have hr := Expr.resolveWith_resolves (Query.compileTokens_resolves env) hresolve
  have hn := Expr.resolveWith_numbers (Query.compileTokens_numbers env) hraw hresolve
  have hm : e.marks = bound'.marks := by
    unfold typeBound at htype
    split at htype
    · split at htype
      · cases htype
        exact Expr.marks_asColumn bound' _ _
      · cases htype
    · split at htype
      · cases htype
        rfl
      · cases htype
  rw [← hm] at hn
  exact ⟨(parser_keeps hparse).trans hr.toKeeps, xs, .of_scan hs hr hn⟩

theorem readDescending_passes {descending : Bool} {c d : Cursor}
    (h : SortKey.readDescending c = .ok descending d) : Cursor.Passes true c d := by
  simp only [SortKey.readDescending, bind_ok] at h
  obtain ⟨found, u, hskip, h⟩ := h
  cases found with
  | true =>
    obtain ⟨-, rfl⟩ := pure_ok.1 h
    obtain ⟨x, hx⟩ := Reader.skipKeyword_true hskip
    exact .keyword hx rfl
  | false =>
    obtain ⟨rfl, -⟩ := Reader.skipKeyword_false hskip
    simp only [Bool.false_eq_true, ↓reduceIte, bind_ok, pure_ok] at h
    obtain ⟨asc, _, hasc, -, rfl⟩ := h
    cases asc with
    | some x => exact .keyword (Reader.ofKind?_some hasc) rfl
    | none =>
      obtain ⟨rfl, -⟩ := Reader.ofKind?_none hasc
      exact .refl true _

theorem key_inOrder {k : SortKey} (h : SortKey.read env scope s = .ok k t) :
    Keeps s t ∧ ∃ xs, DataChange.InOrder true s t xs k.key.marks := by
  obtain ⟨key, s₁, s₂, hparse, hresolve, hdescending⟩ := key_ok h
  obtain ⟨hraw, xs, hs⟩ := Scan.parsed Expr.parse_reads hparse
  have hr := Expr.resolveWith_resolves (Query.compileTokens_resolves env) hresolve
  have hn := Expr.resolveWith_numbers (Query.compileTokens_numbers env) hraw hresolve
  obtain ⟨ys, hy⟩ := Cursor.Passes.scan_ok hdescending fun _ _ hc => readDescending_passes hc
  exact ⟨((parser_keeps hparse).trans hr.toKeeps).trans (reader_keeps hdescending), _,
    (DataChange.InOrder.of_scan hs hr hn).append hy⟩

/-- The keys of an order, read from `s` to `t` and resolved one after the other: closed tokens, and
for each further key a comma and closed tokens. -/
structure KeysInOrder (s t : CompilerState) (first : List Token) (more : List (List Token))
    (marks : List Mark) : Prop where
  rest : s.cursor.rest = first ++ more.flatten ++ t.cursor.rest
  closed : Closed true first
  commas : ∀ ts ∈ more, ∃ x ys, ts = x :: ys ∧ x.kind = .symbol .comma ∧ Closed true ys
  numbers : Numbers s.parameters t.parameters ((first :: more).flatMap readingOrder) [] marks
  keeps : Keeps s t

namespace KeysInOrder

variable {u v : CompilerState} {first xs : List Token} {more : List (List Token)} {ms ns : List Mark}

theorem add (h : KeysInOrder s t first more ms)
    (hcomma : (liftM (Reader.skipSymbol .comma) : Compiler Bool) t = .ok true u)
    (hkeeps : Keeps u v) (hx : DataChange.InOrder true u v xs ns) :
    ∃ x, KeysInOrder s v first (more ++ [x :: xs]) (ms ++ ns) := by
  have hskip := reader_keeps hcomma
  obtain ⟨c, hc, rfl⟩ := lift_reader_compiler_ok.1 hcomma
  obtain ⟨x, hkind, hr⟩ := Reader.skipSymbol_true hc
  have hread : readingOrder (x :: xs) = readingOrder xs :=
    readingOrder_cons (by simp [hkind]) (by simp [Token.isSymbol, hkind]) xs
  have hxrest : c.rest = xs ++ v.cursor.rest := hx.rest
  refine ⟨x, ?_, h.closed, ?_, ?_, (h.keeps.trans hskip).trans hkeeps⟩
  · rw [h.rest, hr, hxrest]
    simp
  · intro ts hts
    rcases List.mem_append.1 hts with hts | hts
    · exact h.commas ts hts
    · rw [List.mem_singleton.1 hts]
      exact ⟨x, xs, rfl, hkind, hx.closed⟩
  · simpa [hread] using h.numbers.trans hx.numbers

theorem segments (h : KeysInOrder s t first more ms) :
    ∀ ts ∈ more, Segment (·.isSymbol .comma) ts := by
  intro ts hts
  obtain ⟨x, ys, rfl, hx, hys⟩ := h.commas ts hts
  exact ⟨x, ys, rfl, by simp [Token.isSymbol, hx], by simp [Token.isSymbol, hx],
    by simp [Token.isSymbol, hx], hys.paired, hys.whole _ separates_comma⟩

theorem closed_more (h : KeysInOrder s t first more ms) : Closed false more.flatten := by
  refine .flatten fun ts hts => ?_
  obtain ⟨x, ys, rfl, hx, hys⟩ := h.commas ts hts
  have hcomma : Closed false [x] := .token (by simp [Token.isSymbol, hx])
    (by simp [Token.isSymbol, hx]) (by simp [Token.isClause, hx]) (by simp)
  exact hcomma.append hys.weaken

end KeysInOrder

theorem keys_inOrder {keys : List SortKey}
    (h : commaSeparated (SortKey.read env scope) s = .ok keys t) :
    ∃ first more, KeysInOrder s t first more (Expr.marksOf (keys.map (·.key))) := by
  refine commaSteps_induct (fun keys t => ∃ first more,
    KeysInOrder s t first more (Expr.marksOf (keys.map (·.key)))) h ?_ ?_ ?_ ?_
  · intro keys u h
    simp only [bind_ok, pure_ok, List.nil_append] at h
    obtain ⟨k, _, hk, rfl, rfl⟩ := h
    obtain ⟨hkeeps, xs, hx⟩ := key_inOrder hk
    exact ⟨xs, [], by simpa using hx.rest, hx.closed, by simp, by simpa using hx.numbers, hkeeps⟩
  · intro keys u n v hi h
    obtain ⟨c, hc, rfl⟩ := lift_reader_compiler_ok.1 h
    obtain ⟨-, rfl⟩ := Reader.remaining_ok hc
    exact hi
  · rintro keys u v keys' w ⟨first, more, hi⟩ hskip h
    simp only [bind_ok, pure_ok] at h
    obtain ⟨k, w', hk, rfl, rfl⟩ := h
    obtain ⟨hkeeps, xs, hx⟩ := key_inOrder hk
    obtain ⟨x, hadd⟩ := hi.add hskip hkeeps hx
    exact ⟨first, _, by simpa using hadd⟩
  · rintro keys u v hi hskip
    obtain ⟨c, hc, rfl⟩ := lift_reader_compiler_ok.1 hskip
    obtain ⟨rfl, -⟩ := Reader.skipSymbol_false hc
    exact hi

/-- ORDER BY and its keys make one segment, which is cut at the commas between the keys. -/
theorem readKeys_inOrder {found : Bool} {keys : List SortKey} {u : CompilerState}
    (ho : (liftM (Reader.skipKeyword .ORDER) : Compiler Bool) s = .ok found u)
    (h : readKeys env scope found u = .ok keys t) :
    ∃ segments, InOrder s t segments (Expr.marksOf (keys.map (·.key))) := by
  cases found with
  | false =>
    obtain rfl := skipKeyword_stays ho
    obtain ⟨rfl, rfl⟩ := pure_ok.1 h
    exact ⟨[], .refl _⟩
  | true =>
    obtain ⟨order, horder, htakes, hkeeps⟩ := takes_skipKeyword ho
    simp only [readKeys, ↓reduceIte, bind_ok] at h
    obtain ⟨by', v, hby, h⟩ := h
    obtain ⟨hk, hscan⟩ : _ ∧ Scan true _ _ _ _ _ := Scan.keyword hby rfl
    obtain ⟨first, more, hkeys⟩ := keys_inOrder h
    have hsymbol : ∀ x : Token, (∃ k, x.kind = .keyword k) → ∀ symbol, x.isSymbol symbol = false := by
      rintro x ⟨k, hk⟩ symbol
      simp [Token.isSymbol, hk]
    -- the keywords ORDER BY belong to the piece of the first key
    have hpieces : pieces (·.isSymbol .comma) 0 (order :: ([by'] ++ first ++ more.flatten)) =
        (order :: ([by'] ++ first)) :: more := by
      rw [pieces_plain (hsymbol order ⟨_, horder⟩ _) (hsymbol order ⟨_, horder⟩ _)
        (fun _ => hsymbol order ⟨_, horder⟩ _),
        pieces_segments ((hscan.closed.append hkeys.closed).whole _ separates_comma) hkeys.segments]
      rfl
    have hread : readingOrder (order :: ([by'] ++ first)) = readingOrder first := by
      rw [readingOrder_cons (by simp [horder]) (hsymbol order ⟨_, horder⟩ _), List.singleton_append,
        readingOrder_cons (by simp [hk]) (hsymbol by' ⟨_, hk⟩ _)]
    have hclosed := (hscan.closed.append hkeys.closed).weaken.append hkeys.closed_more
    refine ⟨[order :: ([by'] ++ first ++ more.flatten)], ?_, ?_, ?_,
      (hkeeps.trans (reader_keeps hby)).trans hkeys.keeps⟩
    · have h₁ : s.cursor.rest = order :: u.cursor.rest := htakes.rest
      have h₂ : u.cursor.rest = [by'] ++ v.cursor.rest := hscan.rest
      rw [h₁, h₂, hkeys.rest]
      simp
    · intro ts hts
      rw [List.mem_singleton.1 hts]
      exact ⟨order, _, rfl, by simp [Token.startsSlice, Token.isKeyword, horder],
        hsymbol order ⟨_, horder⟩ _, hsymbol order ⟨_, horder⟩ _, hclosed.paired,
        hclosed.whole _ separates_startsSlice⟩
    · have hu : u.parameters = s.parameters := htakes.parameters
      have hv : v.parameters = u.parameters := hscan.empty.2
      rw [List.flatMap_cons, hpieces, List.flatMap_nil, List.append_nil, List.flatMap_cons, hread,
        ← List.flatMap_cons, ← hu, ← hv]
      exact hkeys.numbers

/-- A slice that may be missing. -/
theorem read?_inOrder {ranges : List Range} {slice : Option Slice}
    (h : read? env ranges s = .ok slice t) :
    ∃ segments, InOrder s t segments (Expr.marksOf (exprs? slice)) := by
  obtain ⟨found, s₁, orderBy, s₂, ho, hkeys, hbounds⟩ := read?_ok h
  obtain ⟨xs, hx⟩ := readKeys_inOrder ho hkeys
  cases hbounds with
  | none hempty hlimit =>
    obtain rfl := skipKeyword_stays hlimit
    subst hempty
    exact ⟨xs, hx⟩
  | @some s₃ s₄ s₅ _ limit found offset hlimit hl hoffset hread =>
    obtain ⟨x, hk, htakes, hkeeps⟩ := takes_skipKeyword hlimit
    obtain ⟨hkeeps', ys, hy⟩ := readBound_inOrder hl
    have hlimit := InOrder.clause htakes ⟨_, hk⟩ (by simp [Token.startsSlice, Token.isKeyword, hk])
      (hkeeps.trans hkeeps') hy
    cases found with
    | false =>
      obtain rfl := skipKeyword_stays hoffset
      obtain ⟨rfl, rfl⟩ := pure_ok.1 hread
      exact ⟨_, by simpa [exprs?, exprs] using hx.trans hlimit⟩
    | true =>
      simp only [readOffset, ↓reduceIte, map_ok] at hread
      obtain ⟨bound, hbound, rfl⟩ := hread
      obtain ⟨x, hk, htakes, hkeeps⟩ := takes_skipKeyword hoffset
      obtain ⟨hkeeps', zs, hz⟩ := readBound_inOrder hbound
      have hoffset := InOrder.clause htakes ⟨_, hk⟩
        (by simp [Token.startsSlice, Token.isKeyword, hk]) (hkeeps.trans hkeeps') hz
      exact ⟨_, by simpa [exprs?, exprs] using (hx.trans hlimit).trans hoffset⟩

end Slice

/-! ## Targets and values -/

theorem Range.readTarget_scan {operation : Operation} {r : Range}
    (h : readTarget env operation s = .ok r t) :
    r.join = none ∧ (∃ relation, r.source = .relation relation) ∧ Keeps s t ∧
      ∃ xs, Scan false s.toReading t.toReading xs [] [] := by
  obtain ⟨name, fragment, s₁, asName, s₂, relation, hname, has, -, rfl, -, rfl⟩ := readTarget_ok h
  obtain ⟨xs, hx⟩ := Cursor.Passes.scan_ok hname fun _ _ hc => Reader.qualifiedName_passes hc
  refine ⟨rfl, ⟨relation, rfl⟩, ?_⟩
  rcases has with ⟨-, -, rfl⟩ | has
  · have hk := reader_keeps hname
    exact ⟨⟨hk.outer, hk.calls, Nat.le_succ_of_le hk.ranges⟩, xs, hx.weaken⟩
  · have hk := (reader_keeps hname).trans (reader_keeps has)
    obtain ⟨ys, hy⟩ := Cursor.Passes.scan_ok has fun _ _ hc => Reader.asName?_passes hc
    exact ⟨⟨hk.outer, hk.calls, Nat.le_succ_of_le hk.ranges⟩, _, (hx.trans hy).weaken⟩

/-- Values resolved one after the other. -/
theorem resolveValues_numbers {scope : Scope} : ∀ {values values' : List Expr}
    {s t : CompilerState}, (∀ e ∈ values, e.Raw) →
    values.mapM (fun value => value.resolve env scope) s = .ok values' t →
    Resolves s t ∧ Numbers s.parameters t.parameters
      ((Expr.bodiesOf values).flatMap readingOrder) (Expr.marksOf values) (Expr.marksOf values')
  | [], _, _, _, _, h => by
    obtain ⟨rfl, rfl⟩ := pure_ok.1 h
    exact ⟨.refl _, .refl _ _⟩
  | value :: values, _, _, _, hraw, h => by
    simp only [List.mapM_cons, bind_ok, pure_ok] at h
    obtain ⟨value', u, hvalue, values', _, hvalues, rfl, rfl⟩ := h
    have hr := Expr.resolveWith_resolves (Query.compileTokens_resolves env) hvalue
    have hn := Expr.resolveWith_numbers (Query.compileTokens_numbers env) (hraw value (by simp))
      hvalue
    obtain ⟨hr', hn'⟩ := resolveValues_numbers (fun e he => hraw e (by simp [he])) hvalues
    exact ⟨hr.trans hr', by simpa using hn.trans hn'⟩

namespace ViewTarget

variable {target : ViewTarget}

theorem marks_moved {e e' : Expr} (h : target.moved e = some e') : e'.marks = e.marks := by
  unfold moved at h
  split at h
  · exact (Expr.marks_mapColumns h).1
  · cases h
    rfl

theorem marks_moved? {e e' : Option Expr} (h : e.mapM target.moved = some e') :
    Expr.marksOf e'.toList = Expr.marksOf e.toList := by
  cases e with
  | none =>
    cases h
    rfl
  | some e =>
    obtain ⟨e₁, he₁, rfl⟩ : ∃ e₁, target.moved e = some e₁ ∧ some e₁ = e' := by simpa using h
    simp [marks_moved he₁]

theorem MovedSlice.marks {slice slice' : Option Slice} (h : target.MovedSlice slice slice') :
    Expr.marksOf (Slice.exprs? slice') = Expr.marksOf (Slice.exprs? slice) := by
  cases h with
  | none => rfl
  | @some slice orderBy h =>
    have hkeys : Expr.marksOf (orderBy.map (·.key)) = Expr.marksOf (slice.orderBy.map (·.key)) := by
      refine Expr.marksOf_congr ?_
      rw [List.forall₂_map_left_iff, List.forall₂_map_right_iff]
      exact h.imp fun _ _ hk => marks_moved hk.1
    simp [Slice.exprs?, Slice.exprs, hkeys]

end ViewTarget

namespace Expr

variable {e e' : Expr}

theorem Assigned.marks (h : Assigned e e') : e'.marks = e.marks := by
  obtain ⟨-, rfl | ⟨t, w, rfl⟩⟩ := h
  · rfl
  · exact marks_asColumn e t w

theorem AssignedValue.marks (h : AssignedValue e e') : e'.marks = e.marks := by
  cases h with
  | cell _ h => exact h.marks
  | query _ => rfl
  | row h =>
    simp only [marks_mk, children, planNodes, mark?]
    rw [marksOf_congr (h.imp fun _ _ h => h.marks)]

/-- A cell that is made DEFAULT loses its marks. -/
theorem Inserted.marks (h : Inserted e e') : e'.marks ⊆ e.marks := by
  rcases h with h | rfl
  · exact h.marks ▸ List.Subset.refl _
  · exact List.nil_subset _

theorem marksOf_subset {es es' : List Expr}
    (h : List.Forall₂ (fun e e' => e'.marks ⊆ e.marks) es es') : marksOf es' ⊆ marksOf es := by
  induction h with
  | nil => exact List.Subset.refl _
  | cons h _ ih =>
    rw [marksOf_cons, marksOf_cons]
    exact List.append_subset.2 ⟨List.subset_append_of_subset_left _ h,
      List.subset_append_of_subset_right _ ih⟩

end Expr

theorem ColumnPolicy.insertRow_marks {columns : List Column} {map : ColumnMap}
    {overriding : Option OverridingKind} {row row' : Expr}
    (h : insertRow columns map overriding row s = .ok row' t) : row'.marks ⊆ row.marks := by
  obtain ⟨-, cells, cells', hk, rfl, hcells, -⟩ := insertRow_ok h
  have hsub : Expr.marksOf cells' ⊆ Expr.marksOf cells := by
    refine Expr.marksOf_subset (hcells.imp fun c c' hc => ?_)
    rcases hc with hc | rfl
    · exact hc.marks
    · exact List.Subset.refl _
  obtain ⟨kind, fragment, type⟩ := row
  subst hk
  simpa [Expr.marks_mk, Expr.children, Expr.planNodes, Expr.mark?] using hsub

/-- What a parser finds, run by the compiler. -/
theorem Scans.lift {α : Type} {p : Parser α} {a : α} {es : List Expr}
    (h : (liftM p : Compiler α) s = .ok a t)
    (hp : ∀ r, p s.toReading = .ok a r → Scans s.toReading r es) :
    Scans s.toReading t.toReading es := by
  obtain ⟨r, hr, rfl⟩ := lift_parser_ok.1 h
  exact hp r hr

/-! ## Statements -/

/-- How an UPDATE or DELETE is cut. -/
theorem sliceOrder_eq {head rest : List Token} {segments : List (List Token)}
    (hhead : Closed false head) (hsegments : ∀ ts ∈ segments, Segment Token.startsSlice ts)
    (hrest : IsTail rest) :
    sliceOrder (head ++ segments.flatten ++ rest) = (outline head).markers ++
      (segments.flatMap (pieces (·.isSymbol .comma) 0)).flatMap readingOrder ++
      deferredOrder head := by
  have hwhole := hhead.whole _ separates_startsSlice
  rcases hrest with rfl | ⟨x, hx, rfl⟩
  · rw [List.append_nil, sliceOrder, pieces_segments hwhole hsegments]
  -- a semicolon at the end is a piece of its own, which holds no question mark
  · have hsymbol : ∀ symbol, x.isSymbol symbol = decide (symbol = .semicolon) := by
      intro symbol
      simp [Token.isSymbol, hx, eq_comm]
    have hall : ∀ ts ∈ segments ++ [[x]], Segment Token.startsSlice ts := by
      intro ts hts
      rcases List.mem_append.1 hts with hts | hts
      · exact hsegments ts hts
      · rw [List.mem_singleton.1 hts]
        exact ⟨x, [], rfl, by simp [Token.startsSlice, hsymbol], hsymbol _, hsymbol _, .nil,
          Closed.nil.whole _ separates_startsSlice⟩
    have hend : pieces (·.isSymbol .comma) 0 [x] = [[x]] := by
      rw [pieces_plain (hsymbol _) (hsymbol _) (fun _ => hsymbol _)]
      rfl
    have hread : readingOrder [x] = [] := by
      rw [readingOrder_cons (by simp [hx]) (hsymbol _)]
      exact readingOrder_eq_nil (by simp)
    have happend : head ++ segments.flatten ++ [x] = head ++ (segments ++ [[x]]).flatten := by simp
    rw [happend, sliceOrder, pieces_segments hwhole hall]
    simp [hend, hread]

/-- The clauses before the slice, the slice, then the subqueries of the clauses, and last the filters
of the views. -/
theorem readsMarks_slice {s₁ s₂ s₃ : CompilerState} {head : List Token}
    {segments : List (List Token)} {ms ns ks : List Mark} {bs : List (List Token)}
    {views : List View} {filters : List (List Mark)}
    (hhead : Scan false s.toReading s₁.toReading head ms bs)
    (hslice : Slice.InOrder s₁ s₂ segments ks) (hresolves : Resolves s₂ t)
    (hnumbers : Numbers s₂.parameters s₃.parameters (bs.flatMap readingOrder) ms ns)
    (hfilters : NumbersFilters s₃.parameters t.parameters views filters)
    (htail : IsTail t.cursor.rest) :
    ReadsMarks s t (sliceOrder s.cursor.rest) views (ns ++ ks) filters := by
  have hrest : s.cursor.rest = head ++ segments.flatten ++ t.cursor.rest := by
    rw [hhead.rest, hresolves.cursor, List.append_assoc, ← hslice.rest]
  have hwhole : Paired s.cursor.rest := by
    rw [hrest]
    exact (hhead.closed.paired.append
      (.flatten fun ts hts => (hslice.segmented ts hts).paired)).append htail.paired
  refine ⟨hwhole.sliceOrder_perm, sliceOrder s.cursor.rest, [], s₃.parameters, t.parameters, ns ++ ks,
    List.append_nil _, ?_, hfilters, .refl _ _⟩
  have hfirst : Numbers s.parameters s₁.parameters (outline head).markers [] ms :=
    ⟨hhead.count, by simpa using hhead.marks ▸ List.Subset.refl _⟩
  have hlast := hnumbers.trans (.refl s₃.parameters ks)
  have hall : Numbers s.parameters s₃.parameters _ ([] ++ [] ++ []) (ns ++ ks) :=
    (hfirst.trans hslice.numbers).chain (by simpa using hlast)
  rw [hrest, sliceOrder_eq hhead.closed hslice.segmented htail, deferredOrder, ← hhead.bodies]
  simpa using hall

namespace Update

variable {u : UpdateStatement}

theorem Run.readWritten (run : Run env s u t) :
    Statement.readWritten env s = .ok (.update, run.written) run.s₂ := by
  obtain ⟨hk, hupdate⟩ : _ ∧ Scan false _ _ _ _ _ := Scan.keyword run.update_ok rfl
  have hrest : s.cursor.rest = run.update :: run.s₁.cursor.rest := hupdate.rest
  simp only [Statement.readWritten, bind_ok, get_ok]
  refine ⟨s, s, ⟨rfl, rfl⟩, ?_⟩
  simp only [hrest, hk, bind_ok, pure_ok]
  exact ⟨_, _, run.update_ok, _, _, run.written_ok, rfl, rfl⟩

/-- An UPDATE has the marks of its values, of its condition and of its slice from the text. -/
theorem Run.readsMarks (run : Run env s u t) {layers : List Layer}
    {state : ViewTarget.Descent}
    (h : ViewTarget.Descends env .update (ViewTarget.start run.written) run.s₈ layers state t)
    (htail : IsTail t.cursor.rest) :
    ∃ views, Statement.Peels env s views ∧ ReadsMarks s t (sliceOrder s.cursor.rest) views
      (Expr.marksOf u.assignments.values ++ Expr.marksOf run.condition₂.toList ++
        Expr.marksOf (Slice.exprs? u.slice))
      (layers.map fun layer => Expr.marksOf layer.filter.toList) := by
  obtain ⟨-, hupdate⟩ : _ ∧ Scan false _ _ _ _ _ := Scan.keyword run.update_ok rfl
  obtain ⟨-, ⟨relation, hrelation⟩, -, xs, hwritten⟩ := Range.readTarget_scan run.written_ok
  obtain ⟨-, hset⟩ : _ ∧ Scan false _ _ _ _ _ := Scan.keyword run.set_ok rfl
  obtain ⟨hraw, ys, hclause⟩ := Scans.lift run.clause_ok fun _ hr => SetClause.read_scans hr
  obtain ⟨hrawc, zs, hcondition⟩ := Query.readCondition_scan run.condition_ok
  obtain ⟨segments, hslice⟩ := Slice.read?_inOrder run.slice_ok
  obtain ⟨hresolves, hvalues⟩ := resolveValues_numbers hraw run.resolve_values
  have hresolves' := Query.resolveCondition?_resolves (Query.compileTokens_resolves env)
    run.resolve_condition
  have hcond := Query.resolveCondition?_numbers (Query.compileTokens_numbers env) hrawc
    run.resolve_condition
  obtain ⟨views, hpeels, hfilters⟩ := h.numbers hrelation
  have hhead := (((hupdate.trans hwritten).trans hset).trans hclause).trans hcondition
  refine ⟨views, .change run.readWritten hrelation hpeels, ?_⟩
  obtain ⟨hassigned, -⟩ := ViewTarget.assign_ok run.assigned
  -- the columns of the values are moved to the base table, which keeps their question marks
  have hvalues₂ : Expr.marksOf u.assignments.values = Expr.marksOf run.values₁ :=
    (Expr.marksOf_congr (hassigned.imp fun _ _ h => h.marks)).trans
      (Expr.marksOf_congr (run.moved_values.imp fun _ _ h => ViewTarget.marks_moved h))
  rw [hvalues₂, run.moved_slice.marks, ViewTarget.marks_moved? run.moved_condition]
  exact readsMarks_slice hhead hslice ((hresolves.trans hresolves').trans h.resolves)
    (by simpa using hvalues.trans hcond) hfilters htail

end Update

namespace Delete

variable {d : DeleteStatement}

theorem Run.readWritten (run : Run env s d t) :
    Statement.readWritten env s = .ok (.delete, run.written) run.s₃ := by
  obtain ⟨hk, hdelete⟩ : _ ∧ Scan false _ _ _ _ _ := Scan.keyword run.delete_ok rfl
  have hrest : s.cursor.rest = run.delete :: run.s₁.cursor.rest := hdelete.rest
  simp only [Statement.readWritten, bind_ok, get_ok]
  refine ⟨s, s, ⟨rfl, rfl⟩, ?_⟩
  simp only [hrest, hk, bind_ok, pure_ok]
  exact ⟨_, _, run.delete_ok, _, _, run.from_ok, _, _, run.written_ok, rfl, rfl⟩

/-- A DELETE has the marks of its condition and of its slice from the text. -/
theorem Run.readsMarks (run : Run env s d t) {layers : List Layer}
    {state : ViewTarget.Descent}
    (h : ViewTarget.Descends env .delete (ViewTarget.start run.written) run.s₆ layers state t)
    (htail : IsTail t.cursor.rest) :
    ∃ views, Statement.Peels env s views ∧ ReadsMarks s t (sliceOrder s.cursor.rest) views
      (Expr.marksOf run.condition₂.toList ++ Expr.marksOf (Slice.exprs? d.slice))
      (layers.map fun layer => Expr.marksOf layer.filter.toList) := by
  obtain ⟨-, hdelete⟩ : _ ∧ Scan false _ _ _ _ _ := Scan.keyword run.delete_ok rfl
  obtain ⟨-, hfrom⟩ : _ ∧ Scan false _ _ _ _ _ := Scan.keyword run.from_ok rfl
  obtain ⟨-, ⟨relation, hrelation⟩, -, xs, hwritten⟩ := Range.readTarget_scan run.written_ok
  obtain ⟨hraw, ys, hcondition⟩ := Query.readCondition_scan run.condition_ok
  obtain ⟨segments, hslice⟩ := Slice.read?_inOrder run.slice_ok
  have hresolves := Query.resolveCondition?_resolves (Query.compileTokens_resolves env)
    run.resolve_condition
  have hnumbers := Query.resolveCondition?_numbers (Query.compileTokens_numbers env) hraw
    run.resolve_condition
  obtain ⟨views, hpeels, hfilters⟩ := h.numbers hrelation
  have hhead := ((hdelete.trans hfrom).trans hwritten).trans hcondition
  refine ⟨views, .change run.readWritten hrelation hpeels, ?_⟩
  rw [run.moved_slice.marks, ViewTarget.marks_moved? run.moved_condition]
  exact readsMarks_slice hhead hslice (hresolves.trans h.resolves) (by simpa using hnumbers) hfilters
    htail

end Delete

end DataChange
