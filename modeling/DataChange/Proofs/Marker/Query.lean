import DataChange.Proofs.Frame
import DataChange.Proofs.Marker.Resolved

/-!
# Question marks of queries

A query reads all of its clauses before it resolves what they hold. Its question marks are
therefore numbered in the order of reading: those outside its subqueries first, then those of each
subquery (`compileWithin_numbers`). The induction is on the nesting bound; the queries one level
down are what the subqueries are compiled with.
-/

namespace DataChange

/-! ## Names -/

namespace Reader

variable {c d : Cursor}

theorem qualifiedName_passes {name : QualifiedName × Fragment}
    (h : qualifiedName c = .ok name d) : Cursor.Passes true c d := by
  simp only [qualifiedName, bind_ok, get_ok] at h
  obtain ⟨first, c', hfirst, _, _, ⟨rfl, rfl⟩, h⟩ := h
  have hc : Cursor.Passes true c c' := .identifier (identifier_ok hfirst)
  rcases hrest : c'.rest with _ | ⟨dot, _ | ⟨second, tail⟩⟩
  · simp only [hrest] at h
    obtain ⟨-, rfl⟩ := pure_ok.1 h
    exact hc
  · simp only [hrest] at h
    obtain ⟨-, rfl⟩ := pure_ok.1 h
    exact hc
  · simp only [hrest] at h
    split at h
    · rename_i hd
      simp only [bind_ok, modify_ok, pure_ok] at h
      obtain ⟨_, _, rfl, -, rfl⟩ := h
      simp only [Bool.and_eq_true, Token.isSymbol, decide_eq_true_eq] at hd
      have hdot : Cursor.Passes true c' (c'.advance 1) :=
        .symbol ⟨hd.1, by simp [Cursor.advance, hrest]⟩ rfl
      exact (hc.trans hdot).trans (.identifier ⟨hd.2, by simp [Cursor.advance, hrest]⟩)
    · obtain ⟨-, rfl⟩ := pure_ok.1 h
      exact hc

theorem asName?_passes {asName : Option String} (h : asName? c = .ok asName d) :
    Cursor.Passes true c d := by
  simp only [asName?, bind_ok] at h
  obtain ⟨found, c', hskip, h⟩ := h
  cases found with
  | true =>
    obtain ⟨as, has⟩ := skipKeyword_true hskip
    simp only [↓reduceIte, bind_ok, pure_ok] at h
    obtain ⟨t, _, ht, -, rfl⟩ := h
    have hc : Cursor.Passes true c c' := .keyword has rfl
    exact hc.trans (.identifier (identifier_ok ht))
  | false =>
    obtain ⟨rfl, -⟩ := skipKeyword_false hskip
    simp only [Bool.false_eq_true, ↓reduceIte, bind_ok, get_ok] at h
    obtain ⟨_, _, ⟨rfl, rfl⟩, h⟩ := h
    -- without AS a name is taken if one follows
    cases hrest : c'.rest with
    | nil =>
      simp only [hrest] at h
      obtain ⟨-, rfl⟩ := pure_ok.1 h
      exact .refl true _
    | cons t ts =>
      simp only [hrest] at h
      split at h
      · rename_i hk
        simp only [bind_ok, pure_ok] at h
        obtain ⟨u, _, hu, -, rfl⟩ := h
        have hu := next_ok hu
        obtain ⟨rfl, -⟩ := List.cons.inj (hrest.symm.trans hu)
        refine .token hu ?_
        rcases Bool.or_eq_true _ _ ▸ hk with hk | hk <;>
        · rw [of_decide_eq_true hk]
          rfl
      · obtain ⟨-, rfl⟩ := pure_ok.1 h
        exact .refl true _

end Reader

/-! ## Clauses -/

variable {s t : CompilerState}

/-- Tokens that hold nothing, read by the compiler. -/
theorem Cursor.Passes.scan_ok {commas : Bool} {α : Type} {x : Reader α} {a : α}
    (h : (liftM x : Compiler α) s = .ok a t)
    (hx : ∀ c d, x c = .ok a d → Cursor.Passes commas c d) :
    ∃ xs, Scan commas s.toReading t.toReading xs [] [] := by
  obtain ⟨c, hc, rfl⟩ := lift_reader_compiler_ok.1 h
  exact Cursor.Passes.scan (s := s.toReading) (hx _ _ hc)

/-- A keyword, read by the compiler. -/
theorem Scan.keyword {commas : Bool} {k : Keyword} {x : Token}
    (h : (liftM (Reader.keyword k) : Compiler Token) s = .ok x t)
    (hk : (TokenKind.keyword k).isPlain commas = true) :
    x.kind = .keyword k ∧ Scan commas s.toReading t.toReading [x] [] [] := by
  obtain ⟨c, hc, rfl⟩ := lift_reader_compiler_ok.1 h
  obtain ⟨hx, hr⟩ := Reader.keyword_ok hc
  exact ⟨hx, .token ⟨hr, rfl⟩ (hx ▸ hk)⟩

/-- A keyword that may be missing, read by the compiler. -/
theorem Scan.skipKeyword {commas found : Bool} {k : Keyword}
    (h : (liftM (Reader.skipKeyword k) : Compiler Bool) s = .ok found t)
    (hk : (TokenKind.keyword k).isPlain commas = true) :
    ∃ xs, Scan commas s.toReading t.toReading xs [] [] := by
  refine Cursor.Passes.scan_ok h fun c d hc => ?_
  cases found with
  | true =>
    obtain ⟨x, hx⟩ := Reader.skipKeyword_true hc
    exact .keyword hx hk
  | false =>
    obtain ⟨rfl, -⟩ := Reader.skipKeyword_false hc
    exact .refl commas _

/-- Items between commas, whose marks and subqueries are those of the items. -/
theorem scan_commaSeparated {α : Type} {item : Compiler α} {marks : α → List Mark}
    {bodies : α → List (List Token)}
    (hitem : ∀ s a t, item s = .ok a t →
      ∃ xs, Scan false s.toReading t.toReading xs (marks a) (bodies a))
    {as : List α} (h : commaSeparated item s = .ok as t) :
    ∃ xs, Scan false s.toReading t.toReading xs (as.flatMap marks) (as.flatMap bodies) := by
  refine commaSteps_induct (fun as u =>
    ∃ xs, Scan false s.toReading u.toReading xs (as.flatMap marks) (as.flatMap bodies)) h ?_ ?_ ?_ ?_
  · intro as u h
    simp only [bind_ok, pure_ok, List.nil_append] at h
    obtain ⟨a, _, ha, rfl, rfl⟩ := h
    simpa using hitem _ _ _ ha
  · intro as u n v hi h
    obtain ⟨c, hc, rfl⟩ := lift_reader_compiler_ok.1 h
    obtain ⟨-, rfl⟩ := Reader.remaining_ok hc
    exact hi
  · rintro as u v bs w ⟨xs, hs⟩ hskip h
    simp only [bind_ok, pure_ok] at h
    obtain ⟨a, _, ha, rfl, rfl⟩ := h
    obtain ⟨zs, hz⟩ := hitem _ _ _ ha
    obtain ⟨ys, hy⟩ : ∃ ys, Scan false u.toReading v.toReading ys [] [] :=
      Cursor.Passes.scan_ok hskip fun c d hc => by
        obtain ⟨x, hx⟩ := Reader.skipSymbol_true hc
        exact .symbol hx rfl
    exact ⟨_, ((hs.trans hy).trans hz).cast (by simp) (by simp)⟩
  · intro as u v hi hskip
    obtain ⟨c, hc, rfl⟩ := lift_reader_compiler_ok.1 hskip
    obtain ⟨rfl, -⟩ := Reader.skipSymbol_false hc
    exact hi

/-- A parser of expressions, run by the compiler. -/
theorem Scan.parsed {p : Parser Expr} (hp : Expr.Follows p) {e : Expr}
    (h : (liftM p : Compiler Expr) s = .ok e t) :
    e.Raw ∧ ∃ xs, Scan true s.toReading t.toReading xs e.marks e.bodies := by
  obtain ⟨r, hr, rfl⟩ := lift_parser_ok.1 h
  have he := hp _ _ _ hr
  obtain ⟨xs, -, hs⟩ := he.scan
  exact ⟨he.raw, xs, hs⟩

/-! ## Read and resolved -/

/-- From `s` to `t` some tokens are read, and their question marks are numbered in the order of
reading. -/
structure InOrder (commas : Bool) (s t : CompilerState) (xs : List Token) (marks : List Mark) :
    Prop where
  rest : s.cursor.rest = xs ++ t.cursor.rest
  closed : Closed commas xs
  numbers : Numbers s.parameters t.parameters (readingOrder xs) [] marks

namespace InOrder

variable {commas : Bool} {u : CompilerState} {xs ys : List Token} {ms ns : List Mark}

/-- What is read, and then resolved without reading on. -/
theorem of_scan {bs : List (List Token)} (h : Scan commas s.toReading u.toReading xs ms bs)
    (hr : Resolves u t) (hn : Numbers u.parameters t.parameters (bs.flatMap readingOrder) ms ns) :
    InOrder commas s t xs ns :=
  ⟨by rw [h.rest, hr.cursor], h.closed, h.numbers hn⟩

theorem weaken (h : InOrder commas s t xs ms) : InOrder false s t xs ms :=
  { h with closed := h.closed.weaken }

/-- Tokens after it that hold nothing. -/
theorem append (h : InOrder commas s t xs ms) (k : Scan commas t.toReading u.toReading ys [] []) :
    InOrder commas s u (xs ++ ys) ms := by
  obtain ⟨hout, hcount⟩ := k.empty
  have hread : readingOrder (xs ++ ys) = readingOrder xs := by
    rw [readingOrder_eq, readingOrder_eq, deferredOrder, deferredOrder, h.closed.outlined, hout,
      Outline.append_empty]
  refine ⟨by rw [h.rest, k.rest, List.append_assoc], h.closed.append k.closed, ?_⟩
  have hcount : u.parameters = t.parameters := hcount
  rw [hread, hcount]
  exact h.numbers

/-- Tokens before it that hold nothing. -/
theorem prepend (h : Scan commas s.toReading t.toReading xs [] []) (k : InOrder commas t u ys ms) :
    InOrder commas s u (xs ++ ys) ms := by
  obtain ⟨hout, hcount⟩ := h.empty
  have hread : readingOrder (xs ++ ys) = readingOrder ys := by
    rw [readingOrder_eq, readingOrder_eq, deferredOrder, deferredOrder, h.closed.outlined, hout,
      Outline.empty_append]
  refine ⟨by rw [h.rest, k.rest, List.append_assoc], h.closed.append k.closed, ?_⟩
  have hcount : t.parameters = s.parameters := hcount
  rw [hread, ← hcount]
  exact k.numbers

end InOrder

namespace Range

theorem readRelation_scan {env : Environment} {r : Range}
    (h : readRelation env s = .ok r t) :
    r.join = none ∧ ∃ xs, Scan false s.toReading t.toReading xs [] [] := by
  simp only [readRelation, bind_ok] at h
  obtain ⟨⟨name, fragment⟩, u, hname, asName, v, has, h⟩ := h
  obtain ⟨relation, -, rfl, rfl⟩ := named_ok h
  obtain ⟨xs, hx⟩ := Cursor.Passes.scan_ok hname fun _ _ hc => Reader.qualifiedName_passes hc
  obtain ⟨ys, hy⟩ := Cursor.Passes.scan_ok has fun _ _ hc => Reader.asName?_passes hc
  exact ⟨rfl, _, (hx.trans hy).weaken⟩

/-- References to the columns of a range hold no question mark. -/
theorem marks_allColumns (r : Range) (qualifier : Option String) (fragment : Fragment) :
    Expr.marksOf (r.allColumns qualifier fragment) = [] := by
  simp only [Expr.marksOf, List.flatMap_eq_nil_iff]
  intro e he
  obtain ⟨i, hi, rfl⟩ := List.mem_mapIdx.1 he
  rfl

end Range

namespace Query

variable {compile : QueryCompiler} {scope : Scope} {expected : Expectation}

/-! ## SELECT -/

namespace Item

def marks : Item → List Mark
  | all _ => []
  | expression e _ => e.marks

def bodies : Item → List (List Token)
  | all _ => []
  | expression e _ => e.bodies

/-- An item in which nothing is bound yet. -/
def Raw : Item → Prop
  | all _ => True
  | expression e _ => e.Raw

end Item

theorem readItem_scan {item : Item} (h : readItem s = .ok item t) :
    item.Raw ∧ ∃ xs, Scan false s.toReading t.toReading xs item.marks item.bodies := by
  simp only [readItem, bind_ok] at h
  obtain ⟨star, u, hstar, h⟩ := h
  obtain ⟨c, hc, rfl⟩ := lift_reader_compiler_ok.1 hstar
  cases star with
  | some star =>
    obtain ⟨rfl, rfl⟩ := pure_ok.1 h
    have hp : Cursor.Passes false s.cursor c := .symbol (Reader.ofKind?_some hc) rfl
    exact ⟨trivial, hp.scan⟩
  | none =>
    obtain ⟨rfl, -⟩ := Reader.ofKind?_none hc
    simp only [bind_ok, pure_ok] at h
    obtain ⟨e, v, he, asName, _, has, rfl, rfl⟩ := h
    obtain ⟨hraw, xs, hx⟩ := Scan.parsed Expr.parse_reads he
    obtain ⟨ys, hy⟩ := Cursor.Passes.scan_ok has fun _ _ hc => Reader.asName?_passes hc
    exact ⟨hraw, _, (hx.trans hy).weaken.cast (by simp [Item.marks]) (by simp [Item.bodies])⟩

theorem typeSelected_marks {e e' : Expr} {type : Option SqlType} {u : SqlType}
    (h : typeSelected e type = .ok (e', u)) : e'.marks = e.marks := by
  unfold typeSelected at h
  split at h
  · cases h
    rfl
  · split at h
    · split at h
      · cases h
        exact Expr.marks_asColumn e _ false
      · cases h
    · cases h

theorem selectItem_numbers (hcompile : Expr.NumbersQueries compile) {selection selection' : Selection}
    {item : Item} (hraw : item.Raw)
    (h : selectItem compile scope expected selection item s = .ok selection' t) :
    Numbers s.parameters t.parameters (item.bodies.flatMap readingOrder)
      (Expr.marksOf selection.projection ++ item.marks) (Expr.marksOf selection'.projection) := by
  cases item with
  | all fragment =>
    simp only [selectItem] at h
    split at h
    · exact (reject_ok.1 h).elim
    · obtain ⟨rfl, rfl⟩ := pure_ok.1 h
      have hstar : Expr.marksOf (scope.ranges.flatMap fun r => r.allColumns (some r.name) fragment)
          = [] := by
        simp only [Expr.marksOf, List.flatMap_assoc, List.flatMap_eq_nil_iff]
        intro r _ e he
        exact List.flatMap_eq_nil_iff.1 (r.marks_allColumns (some r.name) fragment) e he
      simpa [hstar, Item.marks, Item.bodies] using Numbers.refl s.parameters
        (Expr.marksOf selection.projection)
  | expression e asName =>
    simp only [selectItem, bind_ok, lift_except_ok, pure_ok, Prod.exists] at h
    obtain ⟨e', u, he, e'', type, _, ⟨htype, rfl⟩, rfl, rfl⟩ := h
    have hn := Expr.resolveWith_numbers hcompile hraw he
    rw [← typeSelected_marks htype] at hn
    have := (Numbers.refl s.parameters (Expr.marksOf selection.projection)).trans hn
    simpa [Item.marks, Item.bodies] using this

theorem selectItems_numbers (hcompile : Expr.NumbersQueries compile) :
    ∀ {items : List Item} {selection selection' : Selection} {s : CompilerState},
      (∀ item ∈ items, item.Raw) →
      items.foldlM (selectItem compile scope expected) selection s = .ok selection' t →
      Numbers s.parameters t.parameters ((items.flatMap Item.bodies).flatMap readingOrder)
        (Expr.marksOf selection.projection ++ items.flatMap Item.marks)
        (Expr.marksOf selection'.projection)
  | [], _, _, _, _, h => by
    obtain ⟨rfl, rfl⟩ := pure_ok.1 h
    simpa using Numbers.refl _ _
  | item :: items, selection, selection', s, hraw, h => by
    simp only [List.foldlM_cons, bind_ok] at h
    obtain ⟨mid, u, hitem, h⟩ := h
    have h₁ := selectItem_numbers hcompile (hraw item (by simp)) hitem
    have h₂ := selectItems_numbers hcompile (fun i hi => hraw i (by simp [hi])) h
    simpa using h₁.chain h₂

theorem readCondition_scan {condition : Option Expr} (h : readCondition s = .ok condition t) :
    (∀ e ∈ condition, e.Raw) ∧ ∃ xs, Scan false s.toReading t.toReading xs
      (Expr.marksOf condition.toList) (Expr.bodiesOf condition.toList) := by
  simp only [readCondition, bind_ok] at h
  obtain ⟨found, u, hskip, h⟩ := h
  obtain ⟨xs, hx⟩ : ∃ xs, Scan false s.toReading u.toReading xs [] [] := Scan.skipKeyword hskip rfl
  cases found with
  | true =>
    simp only [↓reduceIte, bind_ok, pure_ok] at h
    obtain ⟨e, _, he, rfl, rfl⟩ := h
    obtain ⟨hraw, ys, hy⟩ := Scan.parsed Expr.parse_reads he
    exact ⟨by simpa using hraw, _, (hx.trans hy.weaken).cast (by simp) (by simp)⟩
  | false =>
    obtain ⟨rfl, rfl⟩ := pure_ok.1 h
    exact ⟨by simp, xs, hx⟩

theorem resolveCondition?_numbers (hcompile : Expr.NumbersQueries compile)
    {condition condition' : Option Expr} (hraw : ∀ e ∈ condition, e.Raw)
    (h : resolveCondition? compile scope condition s = .ok condition' t) :
    Numbers s.parameters t.parameters
      ((Expr.bodiesOf condition.toList).flatMap readingOrder) (Expr.marksOf condition.toList)
      (Expr.marksOf condition'.toList) := by
  rcases resolveCondition?_ok h with ⟨rfl, rfl, rfl⟩ | ⟨e, e', rfl, rfl, he⟩
  · exact .refl _ _
  · simpa using Expr.resolveConditionWith_numbers hcompile (hraw e rfl) he

/-- The marks of a plan. -/
def marks (plan : Plan) : List Mark :=
  plan.nodes.filterMap Expr.mark?

theorem nodesOfList_of_join {ranges : List Range} (h : ∀ r ∈ ranges, r.join = none) :
    Range.nodesOfList ranges = [] := by
  induction ranges with
  | nil => rfl
  | cons r ranges ih =>
    have hr := h r (by simp)
    obtain ⟨_, _, _, _, _, join, _⟩ := r
    obtain rfl : join = none := hr
    simpa [Range.nodesOfList, Range.nodes, Expr.nodesOfOption] using ih fun r hr => h r (by simp [hr])

variable {env : Environment} {outer : List RangeGroup} {plan : Plan}

theorem fromRanges_scan {found : Bool} {ranges : List Range}
    (h : fromRanges env found s = .ok ranges t) :
    (∀ r ∈ ranges, r.join = none) ∧ ∃ xs, Scan false s.toReading t.toReading xs [] [] := by
  unfold fromRanges at h
  split at h
  · refine ⟨forall_commaSeparated (fun _ _ _ hr => (Range.readRelation_scan hr).1) h, ?_⟩
    obtain ⟨xs, hx⟩ := scan_commaSeparated
      (fun _ r _ hr => (Range.readRelation_scan hr).2) h
    exact ⟨xs, hx.cast (by simp) (by simp)⟩
  · obtain ⟨rfl, rfl⟩ := pure_ok.1 h
    exact ⟨by simp, [], .refl false _⟩

theorem compileSelect_inOrder (hcompile : Expr.NumbersQueries compile)
    (hresolves : ResolvesQueries compile)
    (h : compileSelect env compile outer expected s = .ok plan t) :
    ∃ q qs, q.startsQuery = true ∧ InOrder false s t (q :: qs) (marks plan) := by
  obtain ⟨_, s₁, items, s₂, _, s₃, ranges, s₄, condition, s₅, selection, s₆, condition', hselect,
    hitems, hfound, hranges, -, hc, hs, hr, rfl⟩ := compileSelect_ok h
  have hraw := forall_commaSeparated (fun _ _ _ hi => (readItem_scan hi).1) hitems
  obtain ⟨hk, h₁⟩ : _ ∧ Scan false _ _ _ _ _ := Scan.keyword hselect rfl
  obtain ⟨x₂, h₂⟩ := scan_commaSeparated (fun _ _ _ hi => (readItem_scan hi).2) hitems
  obtain ⟨x₃, h₃⟩ : ∃ xs, Scan false s₂.toReading s₃.toReading xs [] [] :=
    Scan.skipKeyword hfound rfl
  obtain ⟨hjoin, x₄, h₄⟩ := fromRanges_scan hranges
  obtain ⟨hrawc, x₅, h₅⟩ := readCondition_scan hc
  have hread := (((h₁.trans h₂).trans h₃).trans h₄).trans h₅
  have hresolve := (foldlM_resolves (fun _ _ _ _ _ hi => selectItem_resolves hresolves hi) hs).trans
    (resolveCondition?_resolves hresolves hr)
  have hnumbers := (selectItems_numbers hcompile hraw hs).trans
    (resolveCondition?_numbers hcompile hrawc hr)
  refine ⟨_, _, by simp [Token.startsQuery, Token.isKeyword, hk],
    .of_scan hread hresolve ?_⟩
  simpa [marks, Plan.nodes, nodesOfList_of_join hjoin, Expr.marks_nodesOfList,
    Expr.marks_nodesOfOption] using hnumbers

theorem compileTable_inOrder (h : compileTable env s = .ok plan t) :
    ∃ q qs, q.startsQuery = true ∧ InOrder false s t (q :: qs) (marks plan) := by
  obtain ⟨_, s₁, _, fragment, s₂, range, htable, hname, hrange, rfl⟩ := compileTable_ok h
  obtain ⟨hk, h₁⟩ : _ ∧ Scan false _ _ _ _ _ := Scan.keyword htable rfl
  obtain ⟨x₂, h₂⟩ := Cursor.Passes.scan_ok hname fun _ _ hc => Reader.qualifiedName_passes hc
  obtain ⟨relation, -, hr, rfl⟩ := Range.named_ok hrange
  have hjoin : ∀ r ∈ [range], r.join = none := by
    simp [hr, Range.ofRelation, Range.fresh]
  have hmarks : marks (.select range.columns (range.allColumns none fragment) [range] none) = [] := by
    simp [marks, Plan.nodes, nodesOfList_of_join hjoin, Expr.nodesOfOption,
      Expr.marks_nodesOfList, Range.marks_allColumns]
  refine ⟨_, _, by simp [Token.startsQuery, Token.isKeyword, hk],
    .of_scan (h₁.trans h₂.weaken) (Range.named_resolves hrange) ?_⟩
  rw [hmarks]
  exact .refl s₂.parameters []

/-! ## VALUES -/

theorem marks_asRow (e : Expr) : (asRow e).marks = e.marks ∧ (asRow e).bodies = e.bodies := by
  unfold asRow
  split
  · exact ⟨rfl, rfl⟩
  · simp [Expr.untyped, Expr.marks_mk, Expr.bodies_mk, Expr.children, Expr.planNodes, Expr.mark?,
      Expr.body?]

theorem raw_asRow {e : Expr} (h : e.Raw) : (asRow e).Raw := by
  unfold asRow
  split
  · exact h
  · exact h.wrap rfl rfl

theorem marks_settleRow (types : List SqlType) (row : Expr) :
    (settleRow types row).marks ⊆ row.marks := by
  have hcell : ∀ cell type, (settleCell cell type).marks = cell.marks := by
    intro cell type
    unfold settleCell
    split
    · exact Expr.marks_asColumn cell type false
    · rfl
  -- by position: settling a cell with the type of its column keeps its marks
  have hcells : ∀ (cells : List Expr) (types : List SqlType),
      Expr.marksOf (cells.zipWith settleCell types) ⊆ Expr.marksOf cells := by
    intro cells
    induction cells with
    | nil => simp
    | cons cell cells ih =>
      intro types
      cases types with
      | nil => simp
      | cons type types =>
        intro m hm
        have := @ih types m
        simp only [List.zipWith_cons_cons, Expr.marksOf_cons, hcell, List.mem_append] at hm ⊢
        exact hm.imp id this
  obtain ⟨kind, fragment, type⟩ := row
  unfold settleRow
  split
  · rename_i cells hk
    cases hk
    simpa [Expr.marks_mk, Expr.children, Expr.planNodes, Expr.mark?] using hcells cells types
  · simp

theorem addRows_numbers (hcompile : Expr.NumbersQueries compile) {degree : Nat} :
    ∀ {rows : List Expr} {joined joined' : List (Option SqlType)} {sofar rows' : List Expr}
      {s : CompilerState}, (∀ row ∈ rows, row.Raw) →
      rows.foldlM (addRow compile outer degree) (joined, sofar) s = .ok (joined', rows') t →
      Numbers s.parameters t.parameters ((Expr.bodiesOf rows).flatMap readingOrder)
        (Expr.marksOf sofar ++ Expr.marksOf rows) (Expr.marksOf rows')
  | [], _, _, _, _, _, _, h => by
    obtain ⟨h, rfl⟩ := pure_ok.1 h
    cases h
    simpa using Numbers.refl _ _
  | row :: rows, joined, joined', sofar, rows', s, hraw, h => by
    simp only [List.foldlM_cons, bind_ok, Prod.exists] at h
    obtain ⟨mid, midRows, u, hadd, h⟩ := h
    obtain ⟨-, row', hrow, -, rfl⟩ := addRow_ok hadd
    have h₁ := Expr.resolveWith_numbers hcompile (raw_asRow (hraw row (by simp))) hrow
    rw [(marks_asRow row).1, (marks_asRow row).2] at h₁
    have h₂ := addRows_numbers hcompile (fun r hr => hraw r (by simp [hr])) h
    have h₁ := (Numbers.refl s.parameters (Expr.marksOf sofar)).trans h₁
    have h₂ : Numbers u.parameters t.parameters ((Expr.bodiesOf rows).flatMap readingOrder)
        ((Expr.marksOf sofar ++ row'.marks) ++ Expr.marksOf rows) (Expr.marksOf rows') := by
      simpa using h₂
    simpa using h₁.chain h₂

theorem compileValues_inOrder (hcompile : Expr.NumbersQueries compile)
    (hresolves : ResolvesQueries compile)
    (h : compileValues compile outer expected s = .ok plan t) :
    ∃ q qs, q.startsQuery = true ∧ InOrder false s t (q :: qs) (marks plan) := by
  obtain ⟨values, s₁, rows, s₂, joined, rows', types, degree, hvalues, hrows, -, hadd, -, rfl⟩ :=
    compileValues_ok h
  obtain ⟨hk, h₁⟩ : _ ∧ Scan false _ _ _ _ _ := Scan.keyword hvalues rfl
  obtain ⟨r, hr, rfl⟩ := lift_parser_ok.1 hrows
  have hreads := Expr.parseList_reads _ _ _ hr
  obtain ⟨x₂, -, h₂⟩ := hreads.scan
  have hnumbers : Numbers r.parameters t.parameters ((Expr.bodiesOf rows).flatMap readingOrder)
      ([] ++ Expr.marksOf rows) (Expr.marksOf rows') :=
    addRows_numbers hcompile hreads.raw hadd
  have hresolve := foldlM_resolves (by
    rintro ⟨_, _⟩ row s ⟨_, _⟩ t h
    obtain ⟨-, row', hrow, -, -⟩ := addRow_ok h
    exact Expr.resolveWith_resolves hresolves hrow) hadd
  refine ⟨_, _, by simp [Token.startsQuery, Token.isKeyword, hk],
    .of_scan (h₁.trans h₂) hresolve (hnumbers.subset ?_)⟩
  have hmarks : marks (.values (types.mapIdx fun index type => ⟨columnName index, type⟩)
      (.untyped (.values (rows'.map (settleRow types))) values.fragment)) =
      Expr.marksOf (rows'.map (settleRow types)) := by
    show Expr.marks _ = _
    simp [Expr.untyped, Expr.marks_mk, Expr.children, Expr.planNodes, Expr.mark?]
  rw [hmarks]
  intro m hm
  simp only [Expr.marksOf, List.mem_flatMap, List.mem_map] at hm ⊢
  obtain ⟨_, ⟨row, hrow, rfl⟩, hm⟩ := hm
  exact ⟨row, hrow, marks_settleRow types row hm⟩

/-! ## All queries -/

/-- A body starts with the keyword of a query. -/
theorem compilesBody_inOrder (hcompile : Expr.NumbersQueries compile)
    (hresolves : ResolvesQueries compile)
    (h : CompilesBody env compile outer expected s plan t) :
    ∃ q qs, q.startsQuery = true ∧ InOrder false s t (q :: qs) (marks plan) := by
  cases h with
  | select h => exact compileSelect_inOrder hcompile hresolves h
  | table h => exact compileTable_inOrder h
  | values h => exact compileValues_inOrder hcompile hresolves h

/-- A query that is compiled on its own: closed tokens and the end. -/
theorem embedded_inOrder {compile : List RangeGroup → Expectation → Compiler Plan}
    (hcompile : ∀ outer expected s plan t, compile outer expected s = .ok plan t →
      ∃ xs, InOrder false s t xs (marks plan)) {body : List Token}
    (h : embedded compile body outer s = .ok plan t) :
    ∃ xs rest, body = xs ++ rest ∧ IsTail rest ∧ Closed false xs ∧
      Numbers s.parameters t.parameters (readingOrder xs) [] (marks plan) := by
  obtain ⟨queries, s₁, c, hp, hfinish, rfl⟩ := embedded_ok h
  obtain ⟨xs, hrest, hclosed, hn⟩ := hcompile _ _ _ _ _ hp
  exact ⟨xs, s₁.cursor.rest, hrest, Reader.finish_ok hfinish, hclosed, hn⟩

theorem embedded_numbers {compile : List RangeGroup → Expectation → Compiler Plan}
    (hcompile : ∀ outer expected s plan t, compile outer expected s = .ok plan t →
      ∃ xs, InOrder false s t xs (marks plan)) : Expr.NumbersQueries (embedded compile) := by
  intro body outer s plan t h
  obtain ⟨xs, rest, rfl, htail, hclosed, hn⟩ := embedded_inOrder hcompile h
  rw [htail.readingOrder_append hclosed]
  exact hn

/-- A query numbers its question marks in the order of reading. -/
theorem compileWithin_numbers : ∀ (bound : Nat) (outer : List RangeGroup) (expected : Expectation)
    (s : CompilerState) (plan : Plan) (t : CompilerState),
    compileWithin env bound outer expected s = .ok plan t → ∃ xs, InOrder false s t xs (marks plan)
  | 0, _, _, _, _, _, h => by
    obtain ⟨_, _, _, _, hb, -⟩ := compileWithin_ok h
    cases hb
  | bound + 1, outer, expected, s, plan, t, h => by
    obtain ⟨_, parens, s₁, s₂, hb, hopen, hbody, hclose⟩ := compileWithin_ok h
    cases hb
    have hnumbers := embedded_numbers (compileWithin_numbers bound)
    have hresolves := embedded_resolves (@compileWithin_keeps env bound)
    obtain ⟨q, qs, hq, hrest, hclosed, hn⟩ := compilesBody_inOrder hnumbers hresolves hbody
    obtain ⟨c, hc, rfl⟩ := lift_reader_compiler_ok.1 hopen
    obtain ⟨d, hd, rfl⟩ := lift_reader_compiler_ok.1 hclose
    obtain ⟨opens, rfl, hopens, ho⟩ := Reader.openParens_ok hc
    obtain ⟨closes, hlen, hcloses, hcl⟩ := Reader.closeParens_ok hd
    obtain ⟨hclosed, hread⟩ := Closed.brackets hq hclosed hlen.symm hopens hcloses
    refine ⟨_, ?_, hclosed, hread ▸ hn⟩
    have hrest : c.rest = q :: qs ++ s₂.cursor.rest := hrest
    rw [ho, hrest, hcl]
    simp

theorem compile_numbers {expected : Expectation} (h : Query.compile env outer expected s = .ok plan t) :
    ∃ xs, InOrder false s t xs (marks plan) := by
  simp only [Query.compile, bind_ok] at h
  obtain ⟨n, u, hn, h⟩ := h
  obtain ⟨c, hc, rfl⟩ := lift_reader_compiler_ok.1 hn
  obtain ⟨-, rfl⟩ := Reader.remaining_ok hc
  exact compileWithin_numbers _ _ _ _ _ _ h

theorem compileTokens_inOrder {body : List Token}
    (h : compileTokens env body outer s = .ok plan t) :
    ∃ xs rest, body = xs ++ rest ∧ IsTail rest ∧ Closed false xs ∧
      Numbers s.parameters t.parameters (readingOrder xs) [] (marks plan) :=
  embedded_inOrder (fun _ _ _ _ _ h => compile_numbers h) h

theorem compileTokens_numbers (env : Environment) : Expr.NumbersQueries (compileTokens env) :=
  embedded_numbers fun _ _ _ _ _ h => compile_numbers h

end Query

end DataChange
