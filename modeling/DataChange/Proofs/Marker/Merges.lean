import DataChange.Proofs.Marker.Changes

/-!
# Question marks of MERGE

The source and the join condition are each read and resolved at once. The branches are all read
first (`readBranches_scans`): each makes a segment of its own, told by the word after its THEN. Then
the subqueries of the branch that updates, of the one that deletes and of the one that inserts are
resolved, whatever their order in the text.
-/

namespace DataChange

namespace Merge

variable {env : Environment}

/-! ## Branches as they are written -/

/-- What stands in the branch that updates. -/
def Branches.updating (b : Branches) : List Expr :=
  b.update.toList.flatMap fun u => u.guard.toList ++ u.clause.values

/-- What stands in the branch that deletes. -/
def Branches.deleting (b : Branches) : List Expr :=
  b.delete.toList.flatMap (·.toList)

/-- What stands in the branch that inserts. -/
def Branches.inserting (b : Branches) : List Expr :=
  b.insert.toList.flatMap fun i => i.guard.toList ++ [i.row]

/-- A branch that is put where there was none. -/
inductive Adds (b : Branches) : Keyword → List Expr → Branches → Prop
  | update {guard : Option Expr} {clause : SetClause} (h : b.update = none) :
      Adds b .UPDATE (guard.toList ++ clause.values) { b with update := some ⟨guard, clause⟩ }
  | delete {guard : Option Expr} (h : b.delete = none) :
      Adds b .DELETE guard.toList
        { b with delete := some guard, deleteLeads := b.update.isNone }
  | insert {guard : Option Expr} {columnMap : ColumnMap} {row : Expr} (h : b.insert = none)
      (hdegree : row.degree = columnMap.length) :
      Adds b .INSERT (guard.toList ++ [row]) { b with insert := some ⟨guard, columnMap, row⟩ }

theorem Adds.mem {b b' : Branches} {action : Keyword} {es : List Expr} (h : Adds b action es b') :
    ∀ e ∈ b'.updating ++ b'.deleting ++ b'.inserting,
      e ∈ b.updating ++ b.deleting ++ b.inserting ∨ e ∈ es := by
  cases h <;> simp only [Branches.updating, Branches.deleting, Branches.inserting,
    Option.toList_some, List.flatMap_cons, List.flatMap_nil, List.append_nil, List.mem_append] <;>
    grind

section

variable {s t : Reading} {target : Range}

theorem readGuard_scans {guard : Option Expr} (h : readGuard s = .ok guard t) :
    Scans s t guard.toList := by
  simp only [readGuard, bind_ok] at h
  obtain ⟨found, u, hskip, h⟩ := h
  rcases Reading.skipKeyword_takes hskip with ⟨rfl, x, hx, hk⟩ | ⟨rfl, rfl⟩
  · simp only [↓reduceIte, bind_ok, pure_ok] at h
    obtain ⟨e, _, he, rfl, rfl⟩ := h
    exact (Scans.token hx (by rw [hk]; rfl)).trans (.parsed he)
  · obtain ⟨rfl, rfl⟩ := pure_ok.1 h
    exact .nil (.refl false _)

theorem readInsertRow_scans {degree : Nat} {row : Expr} (h : readInsertRow degree s = .ok row t) :
    Scans s t [row] ∧ row.degree = degree := by
  simp only [readInsertRow, bind_ok, Prod.exists] at h
  obtain ⟨rows, fragment, u, hrows, h⟩ := h
  obtain ⟨hs, hdegree⟩ := Rows.read_scans hrows
  obtain ⟨m, hm, h⟩ := run_eq h
  split at hm
  · subst hm
    obtain ⟨rfl, rfl⟩ := pure_ok.1 h
    exact ⟨hs, hdegree _ (by simp)⟩
  · subst hm
    exact (reject_ok.1 h).elim

theorem checkNew_ok {isThere : Bool} {branch : MergeBranch} {clause : Token} {u : Unit}
    (h : checkNew isThere branch clause s = .ok u t) : isThere = false ∧ t = s := by
  cases isThere with
  | true => exact (reject_ok.1 h).elim
  | false => exact ⟨rfl, (pure_ok.1 h).2.symm⟩

/-- A branch after its WHEN: its guard up to THEN, and then what it does. -/
structure ReadsBranch (s t : Reading) (b : Branches) (b' : Branches) where
  {s₁ s₂ : Reading}
  {xs ys : List Token}
  {es fs : List Expr}
  {x y : Token}
  {action : Keyword}
  before : Scan false s s₁ xs (Expr.marksOf es) (Expr.bodiesOf es)
  then_takes : s₁.Takes x s₂
  then_kind : x.kind = .keyword .THEN
  after : Scan false s₂ t (y :: ys) (Expr.marksOf fs) (Expr.bodiesOf fs)
  action_kind : y.kind = .keyword action
  raw : ∀ e ∈ es ++ fs, e.Raw
  adds : Adds b action (es ++ fs) b'

theorem readInsert_scans {clause : Token} {b b' : Branches}
    (h : readInsert env target clause b s = .ok b' t) : Nonempty (ReadsBranch s t b b') := by
  simp only [readInsert, bind_ok] at h
  obtain ⟨x₁, s₁, h₁, guard, s₂, hguard, x₂, s₃, h₂, x₃, s₄, h₃, _, s₅, hnew, h⟩ := h
  obtain ⟨ht₁, hk₁⟩ := Reading.keyword_takes h₁
  obtain ⟨ht₂, hk₂⟩ := Reading.keyword_takes h₂
  obtain ⟨ht₃, hk₃⟩ := Reading.keyword_takes h₃
  obtain ⟨hthere, rfl⟩ := checkNew_ok hnew
  obtain ⟨hraw, xs, hx⟩ := (Scans.token ht₁ (by rw [hk₁]; rfl)).trans (readGuard_scans hguard)
  have hrest : ∃ columnMap s₆, Scans s₅ s₆ [] ∧
      (do let _ ← Reader.keyword .VALUES
          let row ← readInsertRow columnMap.length
          return { b with insert := some ⟨guard, columnMap, row⟩ } : Parser Branches) s₆ =
        .ok b' t := by
    simp only [get_ok] at h
    obtain ⟨_, _, ⟨rfl, rfl⟩, h⟩ := h
    split at h
    · simp only [bind_ok] at h
      obtain ⟨columnMap, s₆, hmap, h⟩ := h
      obtain ⟨c, hc, rfl⟩ := lift_reader_ok.1 hmap
      exact ⟨columnMap, _, .of_passes (ColumnMap.read_passes hc), by simpa only [bind_ok] using h⟩
    · exact ⟨_, _, .nil (.refl false _), by simpa only [bind_ok, pure_bind] using h⟩
  obtain ⟨columnMap, s₆, hmap, h⟩ := hrest
  simp only [bind_ok, pure_ok] at h
  obtain ⟨x₄, s₇, h₄, row, u, hrow, rfl, rfl⟩ := h
  obtain ⟨ht₄, hk₄⟩ := Reading.keyword_takes h₄
  obtain ⟨⟨hrawr, ys, hy⟩, hdegree⟩ := readInsertRow_scans hrow
  obtain ⟨-, zs, hz⟩ := hmap.trans (.token ht₄ (by rw [hk₄]; rfl))
  have hinsert : Scan false s₃ s₅ [x₃] [] [] := .token ht₃ (by rw [hk₃]; rfl)
  have hnone : b.insert = none := by simpa using hthere
  have hafter : Scan false s₃ u (x₃ :: (zs ++ ys)) (Expr.marksOf [row]) (Expr.bodiesOf [row]) := by
    simpa using hinsert.trans (hz.trans hy)
  refine ⟨⟨by simpa using hx, ht₂, hk₂, hafter, hk₃, fun e he => ?_, .insert hnone hdegree⟩⟩
  exact (List.mem_append.1 he).elim (fun he => hraw e (by simpa using he)) (hrawr e)

theorem readMatched_scans {clause : Token} {b b' : Branches}
    (h : readMatched env target clause b s = .ok b' t) : Nonempty (ReadsBranch s t b b') := by
  simp only [readMatched, bind_ok] at h
  obtain ⟨x₁, s₁, h₁, guard, s₂, hguard, x₂, s₃, h₂, found, s₄, hskip, h⟩ := h
  obtain ⟨ht₁, hk₁⟩ := Reading.keyword_takes h₁
  obtain ⟨ht₂, hk₂⟩ := Reading.keyword_takes h₂
  obtain ⟨hraw, xs, hx⟩ := (Scans.token ht₁ (by rw [hk₁]; rfl)).trans (readGuard_scans hguard)
  rcases Reading.skipKeyword_takes hskip with ⟨rfl, x₃, ht₃, hk₃⟩ | ⟨rfl, rfl⟩
  · simp only [↓reduceIte, bind_ok, pure_ok] at h
    obtain ⟨_, s₅, hnew, x₄, s₆, h₄, setClause, u, hset, rfl, rfl⟩ := h
    obtain ⟨hthere, rfl⟩ := checkNew_ok hnew
    obtain ⟨ht₄, hk₄⟩ := Reading.keyword_takes h₄
    obtain ⟨hrawv, ys, hy⟩ := (Scans.token ht₄ (by rw [hk₄]; rfl)).trans (SetClause.read_scans hset)
    have hupdate : Scan false s₃ s₅ [x₃] [] [] := .token ht₃ (by rw [hk₃]; rfl)
    have hnone : b.update = none := by simpa using hthere
    have hafter : Scan false s₃ u (x₃ :: ys) (Expr.marksOf setClause.values)
        (Expr.bodiesOf setClause.values) := by
      simpa using hupdate.trans hy
    refine ⟨⟨by simpa using hx, ht₂, hk₂, hafter, hk₃, fun e he => ?_, .update hnone⟩⟩
    exact (List.mem_append.1 he).elim (fun he => hraw e (by simpa using he))
      fun he => hrawv e (by simpa using he)
  · simp only [Bool.false_eq_true, ↓reduceIte, bind_ok] at h
    obtain ⟨found, s₅, hskip, h⟩ := h
    rcases Reading.skipKeyword_takes hskip with ⟨rfl, x₃, ht₃, hk₃⟩ | ⟨rfl, rfl⟩
    · simp only [↓reduceIte, bind_ok, pure_ok] at h
      obtain ⟨_, s₆, hnew, rfl, rfl⟩ := h
      obtain ⟨hthere, rfl⟩ := checkNew_ok hnew
      have hnone : b.delete = none := by simpa using hthere
      have hafter : Scan false s₄ _ [x₃] (Expr.marksOf []) (Expr.bodiesOf []) :=
        .token ht₃ (by rw [hk₃]; rfl)
      have hadds : Adds b .DELETE guard.toList _ := .delete hnone
      rw [← List.append_nil guard.toList] at hadds
      refine ⟨⟨by simpa using hx, ht₂, hk₂, hafter, hk₃, fun e he => ?_, hadds⟩⟩
      exact hraw e (by simpa using he)
    · simp only [Bool.false_eq_true, ↓reduceIte, bind_ok, get_ok, reject_ok, and_false,
        exists_false] at h

/-! ## Segments of branches -/

theorem separates_startsBranch : Separates false Token.startsBranch := by
  intro x hx
  refine .inl ?_
  simp only [Token.startsBranch, Token.isKeyword, Token.isSymbol, Bool.or_eq_true,
    decide_eq_true_eq] at hx
  rcases hx with (hx | hx) | hx <;> simp [Token.isClause, hx]

theorem separates_then : Separates false (·.isKeyword .THEN) := by
  intro x hx
  have hx : x.kind = .keyword .THEN := by simpa [Token.isKeyword] using hx
  exact .inl (by simp [Token.isClause, hx])

/-- A branch with its WHEN, and what it holds. -/
structure BranchScan (s t : Reading) (ts : List Token) (action : Keyword) (es : List Expr) :
    Prop where
  rest : s.cursor.rest = ts ++ t.cursor.rest
  segment : Segment Token.startsBranch ts
  action : branchAction? ts = some (.keyword action)
  raw : ∀ e ∈ es, e.Raw
  marks : Expr.marksOf es = number s.parameters (outline ts).markers
  bodies : Expr.bodiesOf es = (outline ts).bodies
  count : t.parameters = s.parameters + (outline ts).markers.length

/-- The tokens of a branch: WHEN and closed tokens, THEN and closed tokens. -/
theorem branchScan {r u v : Reading} {w x y : Token} {xs ys : List Token} {es fs : List Expr}
    {action : Keyword} (hw : s.Takes w r) (hwk : w.kind = .keyword .WHEN)
    (hxs : Scan false r u xs (Expr.marksOf es) (Expr.bodiesOf es)) (hx : u.Takes x v)
    (hxk : x.kind = .keyword .THEN)
    (hys : Scan false v t (y :: ys) (Expr.marksOf fs) (Expr.bodiesOf fs))
    (hyk : y.kind = .keyword action) (hraw : ∀ e ∈ es ++ fs, e.Raw) :
    BranchScan s t (w :: (xs ++ x :: y :: ys)) action (es ++ fs) := by
  have hsymbol : ∀ {z : Token} {k : Keyword}, z.kind = .keyword k →
      ∀ symbol, z.isSymbol symbol = false := by
    intro z k hz symbol
    simp [Token.isSymbol, hz]
  -- WHEN and THEN are keywords, so the question marks of the branch are those of its two parts
  have hout : outline (w :: (xs ++ x :: y :: ys)) = (outline xs).append (outline (y :: ys)) := by
    rw [outline_cons (by simp [hwk]) (hsymbol hwk _), hxs.closed.outlined,
      outline_cons (by simp [hxk]) (hsymbol hxk _)]
  have huncut : Uncut Token.startsBranch (xs ++ x :: y :: ys) := by
    intro rest
    rw [List.append_assoc, hxs.closed.whole _ separates_startsBranch, List.cons_append,
      pieces_plain (hsymbol hxk _) (hsymbol hxk _)
        (fun _ => by simp [Token.startsBranch, Token.isKeyword, Token.isSymbol, hxk]),
      hys.closed.whole _ separates_startsBranch, ← joinHead_cons, ← joinHead_append]
  -- within the branch only the action begins a piece of its own
  have hthen : Segment (·.isKeyword .THEN) (x :: y :: ys) :=
    ⟨x, y :: ys, rfl, by simp [Token.isKeyword, hxk], hsymbol hxk _, hsymbol hxk _,
      hys.closed.paired, hys.closed.whole _ separates_then⟩
  have hpieces : pieces (·.isKeyword .THEN) 0 (w :: (xs ++ x :: y :: ys)) =
      [w :: xs, x :: y :: ys] := by
    have hcut : pieces (·.isKeyword .THEN) 0 (xs ++ [x :: y :: ys].flatten) =
        xs :: [x :: y :: ys] :=
      pieces_segments (hxs.closed.whole _ separates_then) (by simpa using hthen)
    rw [List.flatten_singleton] at hcut
    rw [pieces_plain (hsymbol hwk _) (hsymbol hwk _) (fun _ => by simp [Token.isKeyword, hwk]), hcut]
    rfl
  refine ⟨?_, ?_, ?_, hraw, ?_, ?_, ?_⟩
  · rw [hw.rest, hxs.rest, hx.rest, hys.rest]
    simp
  · have hpaired : Paired (xs ++ x :: y :: ys) := hxs.closed.paired.append
      (hys.closed.paired.cons fun ho => by simp [hsymbol hxk] at ho)
    exact ⟨w, _, rfl, by simp [Token.startsBranch, Token.isKeyword, hwk], hsymbol hwk _,
      hsymbol hwk _, hpaired, huncut⟩
  · rw [branchAction?, hpieces]
    exact congrArg some hyk
  · rw [hout, Expr.marksOf_append, hxs.marks, hys.marks, hx.parameters, hxs.count, hw.parameters,
      Outline.append, number_append]
  · rw [hout, Expr.bodiesOf_append, hxs.bodies, hys.bodies, Outline.append]
  · rw [hout, hys.count, hx.parameters, hxs.count, hw.parameters, Outline.append,
      List.length_append, Nat.add_assoc]

/-- The subqueries in the branches that do something. -/
def branchBodies (segments : List (List Token)) (action : Keyword) : List (List Token) :=
  (segments.filter fun ts => branchAction? ts = some (.keyword action)).flatMap
    fun ts => (outline ts).bodies

theorem branchOrder_eq (segments : List (List Token)) (action : Keyword) :
    branchOrder segments action = (branchBodies segments action).flatMap readingOrder := by
  rw [branchOrder, branchBodies, List.flatMap_assoc]
  rfl

/-- The branches read from `s` to `t`. -/
structure BranchesScan (s t : Reading) (segments : List (List Token)) (b : Branches) : Prop where
  rest : s.cursor.rest = segments.flatten ++ t.cursor.rest
  segmented : ∀ ts ∈ segments, Segment Token.startsBranch ts
  acts : ∀ ts ∈ segments, ActsOnce ts
  raw : ∀ e ∈ b.updating ++ b.deleting ++ b.inserting, e.Raw
  numbers : Numbers s.parameters t.parameters (segments.flatMap fun ts => (outline ts).markers) []
    (Expr.marksOf (b.updating ++ b.deleting ++ b.inserting))
  updating : Expr.bodiesOf b.updating = branchBodies segments .UPDATE
  deleting : Expr.bodiesOf b.deleting = branchBodies segments .DELETE
  inserting : Expr.bodiesOf b.inserting = branchBodies segments .INSERT
  degree : ∀ i ∈ b.insert, i.row.degree = i.columnMap.length

theorem branchBodies_append (segments : List (List Token)) {ts : List Token} {k : Keyword}
    (h : branchAction? ts = some (.keyword k)) (action : Keyword) :
    branchBodies (segments ++ [ts]) action =
      branchBodies segments action ++ if k = action then (outline ts).bodies else [] := by
  unfold branchBodies
  rw [List.filter_append, List.flatMap_append]
  by_cases hk : k = action
  · simp [h, hk]
  · simp [h, hk]

theorem BranchScan.numbers {ts : List Token} {action : Keyword} {es : List Expr}
    (h : BranchScan s t ts action es) :
    Numbers s.parameters t.parameters (outline ts).markers [] (Expr.marksOf es) :=
  ⟨h.count, by rw [h.marks]; exact List.Subset.refl _⟩

/-- A further branch takes the place that is still empty. -/
theorem BranchesScan.add {u : Reading} {segments : List (List Token)} {b b' : Branches}
    {ts : List Token} {action : Keyword} {es : List Expr} (h : BranchesScan s t segments b)
    (k : BranchScan t u ts action es) (ha : Adds b action es b') :
    BranchesScan s u (segments ++ [ts]) b' := by
  have hall := h.numbers.trans k.numbers
  have hsub := ha.mem
  obtain ⟨hu, hd, hi⟩ : Expr.bodiesOf b'.updating = branchBodies (segments ++ [ts]) .UPDATE ∧
      Expr.bodiesOf b'.deleting = branchBodies (segments ++ [ts]) .DELETE ∧
      Expr.bodiesOf b'.inserting = branchBodies (segments ++ [ts]) .INSERT := by
    simp only [branchBodies_append segments k.action, ← h.updating, ← h.deleting, ← h.inserting,
      ← k.bodies]
    cases ha with
    | update hnone =>
      exact ⟨by simp [Branches.updating, hnone], by simp [Branches.deleting],
        by simp [Branches.inserting]⟩
    | delete hnone =>
      exact ⟨by simp [Branches.updating], by simp [Branches.deleting, hnone],
        by simp [Branches.inserting]⟩
    | insert hnone =>
      exact ⟨by simp [Branches.updating], by simp [Branches.deleting],
        by simp [Branches.inserting, hnone]⟩
  have hdegree : ∀ i ∈ b'.insert, i.row.degree = i.columnMap.length := by
    cases ha with
    | update | delete => exact h.degree
    | insert _ hdegree => simpa using hdegree
  have haction : action = .UPDATE ∨ action = .DELETE ∨ action = .INSERT := by
    cases ha <;> simp
  refine ⟨?_, ?_, ?_, fun e he => (hsub e he).elim (h.raw e) (k.raw e), ?_, hu, hd, hi, hdegree⟩
  · rw [h.rest, k.rest]
    simp
  · intro us hus
    rcases List.mem_append.1 hus with hus | hus
    · exact h.segmented us hus
    · exact List.mem_singleton.1 hus ▸ k.segment
  · intro us hus
    rcases List.mem_append.1 hus with hus | hus
    · exact h.acts us hus
    · exact List.mem_singleton.1 hus ▸ .inr ⟨action, haction, k.action⟩
  · rw [List.flatMap_append, List.flatMap_cons, List.flatMap_nil, List.append_nil]
    refine hall.subset fun m hm => ?_
    obtain ⟨e, he, hm⟩ := List.mem_flatMap.1 hm
    rcases hsub e he with he | he
    · exact List.mem_append_left _ (List.mem_flatMap.2 ⟨e, he, hm⟩)
    · exact List.mem_append_right _ (List.mem_flatMap.2 ⟨e, he, hm⟩)

/-- All branches, by induction on their number. -/
theorem readBranchesWithin_scans : ∀ {bound : Nat} {s t u : Reading} {b b' : Branches}
    {segments : List (List Token)}, BranchesScan s t segments b →
    readBranchesWithin env target bound b t = .ok b' u → ∃ segments', BranchesScan s u segments' b'
  | 0, _, _, _, _, _, _, hs, h => by
    obtain ⟨rfl, rfl⟩ := pure_ok.1 h
    exact ⟨_, hs⟩
  | bound + 1, s, t, u, b, b', segments, hs, h => by
    simp only [readBranchesWithin, bind_ok] at h
    obtain ⟨clause, t₁, hwhen, h⟩ := h
    obtain ⟨c, hc, rfl⟩ := lift_reader_ok.1 hwhen
    cases clause with
    | none =>
      obtain ⟨rfl, -⟩ := Reader.ofKind?_none hc
      obtain ⟨rfl, rfl⟩ := pure_ok.1 h
      exact ⟨_, hs⟩
    | some w =>
      obtain ⟨hwk, hwr⟩ := Reader.ofKind?_some hc
      have hw : t.Takes w { t with cursor := c } := ⟨hwr, rfl⟩
      simp only [bind_ok] at h
      obtain ⟨found, t₂, hskip, h⟩ := h
      have hadd : ∀ {zs : List Token} {v : Reading} {b₁ : Branches},
          Scan false { t with cursor := c } t₂ zs [] [] → ReadsBranch t₂ v b b₁ →
          readBranchesWithin env target bound b₁ v = .ok b' u →
          ∃ segments', BranchesScan s u segments' b' := by
        intro zs v b₁ hz run h
        have hbefore := hz.trans run.before
        have hb := branchScan hw hwk hbefore run.then_takes run.then_kind run.after run.action_kind
          run.raw
        exact readBranchesWithin_scans (hs.add hb run.adds) h
      rcases Reading.skipKeyword_takes hskip with ⟨rfl, x, hx, hk⟩ | ⟨rfl, rfl⟩
      · simp only [↓reduceIte, bind_ok] at h
        obtain ⟨b₁, v, hb₁, h⟩ := h
        obtain ⟨run⟩ := readInsert_scans hb₁
        exact hadd (.token hx (by rw [hk]; rfl)) run h
      · simp only [Bool.false_eq_true, ↓reduceIte, bind_ok] at h
        obtain ⟨b₁, v, hb₁, h⟩ := h
        obtain ⟨run⟩ := readMatched_scans hb₁
        exact hadd (.refl false _) run h

theorem readBranches_scans {b : Branches} (h : readBranches env target s = .ok b t) :
    ∃ segments, BranchesScan s t segments b := by
  simp only [readBranches, bind_ok] at h
  obtain ⟨n, u, hn, b', v, hb, h⟩ := h
  obtain rfl := Reading.remaining_stays hn
  obtain ⟨segments, hs⟩ := readBranchesWithin_scans
    (⟨rfl, by simp, by simp, by simp [Branches.updating, Branches.deleting, Branches.inserting],
      .refl _ _, rfl, rfl, rfl, by simp⟩ : BranchesScan u u [] {}) hb
  split at h
  · simp only [bind_ok, get_ok, reject_ok, and_false, exists_false] at h
  · obtain ⟨rfl, rfl⟩ := pure_ok.1 h
    exact ⟨segments, hs⟩

end

/-! ## The source -/

section

variable {s t : CompilerState}

/-- A query between brackets is read like the query. -/
theorem derived_inOrder {o : Token} {body : List Token} {u v : CompilerState} {plan : Plan}
    (ho : (liftM (Reader.symbol .openParen) : Compiler Token) s = .ok o u)
    (hb : (liftM Reader.parenthesised : Compiler (List Token)) u = .ok body v)
    (hp : Query.compileTokens env body v.outer v = .ok plan t) :
    ∃ xs, InOrder false s t xs (Query.marks plan) := by
  obtain ⟨c, hc, rfl⟩ := lift_reader_compiler_ok.1 ho
  obtain ⟨d, hd, rfl⟩ := lift_reader_compiler_ok.1 hb
  obtain ⟨hk, hr⟩ := Reader.symbol_ok hc
  obtain ⟨close, hclose, hrest, hsplit⟩ := splitClosing_eq (Reader.parenthesised_ok hd)
  obtain ⟨xs, tail, rfl, htail, hclosed, hn⟩ := Query.compileTokens_inOrder hp
  have hopen : o.isSymbol .openParen = true := by simp [Token.isSymbol, hk]
  have hstart : s.cursor.rest = o :: (xs ++ tail) ++ [close] ++ t.cursor.rest := by
    rw [hr, hrest, (Query.compileTokens_resolves env _ _ _ _ _ hp).cursor]
    simp
  -- the bracket opens a subquery if a SELECT stands behind it, and else is one of its brackets
  by_cases hq : opensQuery (o :: c.rest) = true
  · have hq' : ∀ zs, opensQuery (o :: (xs ++ tail ++ close :: zs)) = true := by
      intro zs
      rw [hrest] at hq
      cases h : xs ++ tail <;> simpa [h, opensQuery] using hq
    obtain ⟨hbracket, hout⟩ := Closed.of_split false hopen hsplit
      fun zs => outline_body (hq' zs) (hsplit zs)
    refine ⟨_, hstart, hbracket, ?_⟩
    rw [readingOrder_eq, deferredOrder, hout]
    simpa [htail.readingOrder_append hclosed] using hn
  · have hq' : ∀ zs, opensQuery (o :: (xs ++ tail ++ close :: zs)) = false := by
      intro zs
      rw [hrest] at hq
      cases h : xs ++ tail <;> simpa [h, opensQuery] using hq
    have hkind : close.kind = .symbol .closeParen := by simpa [Token.isSymbol] using hclose
    have hinner : ∀ zs, outline (o :: (xs ++ tail ++ close :: zs)) =
        (outline xs).append (outline zs) := by
      intro zs
      rw [outline_token (by simp [hk]) (hq' zs), List.append_assoc, hclosed.outlined,
        htail.outline_append, outline_cons (by simp [hkind]) (not_openParen hclose)]
    obtain ⟨hbracket, hout⟩ := Closed.of_split false hopen hsplit hinner
    refine ⟨_, hstart, hbracket, ?_⟩
    rw [readingOrder_eq, deferredOrder, hout, ← deferredOrder, ← readingOrder_eq]
    exact hn

theorem readSource_inOrder {r : Range} (h : ReadsSource env s r t) :
    Keeps s t ∧ r.join = none ∧ ∃ xs, InOrder false s t xs (r.plans.flatMap Query.marks) := by
  cases h with
  | relation h =>
    obtain ⟨hj, xs, hx⟩ := Range.readRelation_scan h
    have hplans : r.plans = [] := by
      simp only [Range.readRelation, bind_ok] at h
      obtain ⟨_, _, _, _, _, _, h⟩ := h
      obtain ⟨relation, -, rfl, -⟩ := Range.named_ok h
      rfl
    rw [hplans]
    exact ⟨Range.readRelation_keeps h, hj, xs, .of_scan hx (.refl t) (.refl _ _)⟩
  | @derived o body plan asName s₁ s₂ s₃ s₄ ho hb hp has hr ht =>
    subst hr ht
    obtain ⟨xs, hx⟩ := derived_inOrder ho hb hp
    obtain ⟨ys, hy⟩ : ∃ ys, Scan true _ _ ys [] [] :=
      Cursor.Passes.scan_ok has fun _ _ hc => Reader.asName?_passes hc
    have hk := (((reader_keeps ho).trans (reader_keeps hb)).trans
      (Query.compileTokens_resolves env _ _ _ _ _ hp).toKeeps).trans (reader_keeps has)
    have hall := hx.append hy.weaken
    exact ⟨⟨hk.outer, hk.calls, Nat.le_succ_of_le hk.ranges⟩, rfl, _, hall.rest, hall.closed,
      by simpa [Range.plans, Range.fresh] using hall.numbers⟩

/-! ## Resolved branches -/

variable {scope : Scope} {target : ViewTarget}

/-- Expressions resolved without reading on; some of their marks may be lost. -/
def ResolvesTo (s t : CompilerState) (es : List Expr) (es' : List Expr) : Prop :=
  Resolves s t ∧ Numbers s.parameters t.parameters ((Expr.bodiesOf es).flatMap readingOrder)
    (Expr.marksOf es) (Expr.marksOf es')

theorem ResolvesTo.trans {u : CompilerState} {es es' fs fs' : List Expr} (h : ResolvesTo s t es es')
    (k : ResolvesTo t u fs fs') : ResolvesTo s u (es ++ fs) (es' ++ fs') :=
  ⟨h.1.trans k.1, by simpa using h.2.trans k.2⟩

theorem ResolvesTo.subset {es es' fs : List Expr} (h : ResolvesTo s t es es')
    (hf : Expr.marksOf fs ⊆ Expr.marksOf es') : ResolvesTo s t es fs :=
  ⟨h.1, h.2.subset hf⟩

theorem resolveGuard_resolvesTo {guard : Option Expr} {e : Expr} (hraw : ∀ g ∈ guard.toList, g.Raw)
    (h : resolveGuard env scope guard s = .ok e t) : ResolvesTo s t guard.toList [e] := by
  cases guard with
  | none =>
    obtain ⟨rfl, rfl⟩ := pure_ok.1 h
    exact ⟨.refl _, .refl _ _⟩
  | some g =>
    have hraw : g.Raw := hraw g (by simp)
    exact ⟨Expr.resolveConditionWith_resolves (Query.compileTokens_resolves env) h, by
      simpa using Expr.resolveConditionWith_numbers (Query.compileTokens_numbers env) hraw h⟩

theorem resolveUpdate_resolvesTo {branch : UpdateBranch} {u : MergeUpdate}
    (hraw : ∀ e ∈ branch.guard.toList ++ branch.clause.values, e.Raw)
    (h : resolveUpdate env target scope branch s = .ok u t) :
    ResolvesTo s t (branch.guard.toList ++ branch.clause.values) u.exprs := by
  obtain ⟨guard, s₁, values₁, values₂, hguard, hvalues, hmoved, hassign, hmovedg⟩ :=
    resolveUpdate_ok h
  have hg := resolveGuard_resolvesTo (fun g hg => hraw g (by simp_all)) hguard
  have hv : ResolvesTo s₁ t branch.clause.values values₁ :=
    resolveValues_numbers (fun e he => hraw e (by simp [he])) hvalues
  refine (hg.trans hv).subset ?_
  obtain ⟨hassigned, -⟩ := ViewTarget.assign_ok hassign
  have hmarks : Expr.marksOf u.assignments.values = Expr.marksOf values₁ :=
    (Expr.marksOf_congr (hassigned.imp fun _ _ h => h.marks)).trans
      (Expr.marksOf_congr (hmoved.imp fun _ _ h => ViewTarget.marks_moved h))
  simp [MergeUpdate.exprs, hmarks, ViewTarget.marks_moved hmovedg]

theorem resolveDelete_resolvesTo {guard : Option Expr} {e : Expr}
    (hraw : ∀ g ∈ guard.toList, g.Raw) (h : resolveDelete env target scope guard s = .ok e t) :
    ResolvesTo s t guard.toList [e] := by
  obtain ⟨guard', hguard, hmoved⟩ := resolveDelete_ok h
  exact (resolveGuard_resolvesTo hraw hguard).subset (by simp [ViewTarget.marks_moved hmoved])

theorem resolveInsert_resolvesTo {branch : InsertBranch} {i : MergeInsert}
    (hraw : ∀ e ∈ branch.guard.toList ++ [branch.row], e.Raw)
    (h : resolveInsert env target scope branch s = .ok i t) :
    ResolvesTo s t (branch.guard.toList ++ [branch.row]) i.exprs := by
  obtain ⟨s₁, row, hguard, hrow, -, hinsert⟩ := resolveInsert_ok h
  have hg := resolveGuard_resolvesTo (fun g hg => hraw g (by simp_all)) hguard
  have hraw : branch.row.Raw := hraw _ (by simp)
  have hr : ResolvesTo s₁ t [branch.row] [row] :=
    ⟨Expr.resolveWith_resolves (Query.compileTokens_resolves env) hrow, by
      simpa using Expr.resolveWith_numbers (Query.compileTokens_numbers env) hraw hrow⟩
  refine (hg.trans hr).subset ?_
  have hmarks := ColumnPolicy.insertRow_marks hinsert
  simp only [MergeInsert.exprs, Expr.marksOf_append, Expr.marksOf_cons, Expr.marksOf_nil,
    List.append_nil]
  grind

/-- A branch that may be missing. -/
theorem ifPresent_resolvesTo {α β : Type} {step : α → Compiler β} {before : α → List Expr}
    {after : β → List Expr}
    (hstep : ∀ a s b t, (∀ e ∈ before a, e.Raw) → step a s = .ok b t →
      ResolvesTo s t (before a) (after b)) {a : Option α} {b : Option β}
    (hraw : ∀ e ∈ a.toList.flatMap before, e.Raw) (h : ifPresent step a s = .ok b t) :
    ResolvesTo s t (a.toList.flatMap before) (b.toList.flatMap after) := by
  cases a with
  | none =>
    obtain ⟨rfl, rfl⟩ := pure_ok.1 h
    exact ⟨.refl _, .refl _ _⟩
  | some a =>
    simp only [ifPresent, bind_ok, pure_ok] at h
    obtain ⟨b', _, hb, rfl, rfl⟩ := h
    simpa using hstep a _ b' _ (by simpa using hraw) hb

/-! ## Statements -/

section

variable {head on rest : List Token} {x : Token} {segments : List (List Token)}
  (hhead : Closed false head) (hx : x.kind = .keyword .ON) (hon : Closed false on)
  (hsegments : ∀ ts ∈ segments, Segment Token.startsBranch ts) (hrest : IsTail rest)
include hhead hx hon hsegments hrest

/-- How a MERGE is cut. A semicolon makes a last piece, which holds nothing. -/
theorem pieces_merge : ∃ ends : List (List Token),
    pieces Token.startsBranch 0 (head ++ x :: on ++ segments.flatten ++ rest) =
      head :: (x :: on) :: (segments ++ ends) ∧
    ∀ ts ∈ ends, outline ts = .empty ∧ branchAction? ts = none := by
  have hwhole := hhead.whole _ separates_startsBranch
  have hxs : ∀ symbol, x.isSymbol symbol = false := by simp [Token.isSymbol, hx]
  have hfirst : Segment Token.startsBranch (x :: on) :=
    ⟨x, on, rfl, by simp [Token.startsBranch, Token.isKeyword, hx], hxs _, hxs _, hon.paired,
      hon.whole _ separates_startsBranch⟩
  -- the rest is empty, or a semicolon, which is the last piece and has no action
  rcases hrest with rfl | ⟨y, hy, rfl⟩
  · have happend : head ++ x :: on ++ segments.flatten ++ [] =
        head ++ ((x :: on) :: segments).flatten := by simp
    refine ⟨[], ?_, by simp⟩
    rw [happend, pieces_segments hwhole (by simpa using ⟨hfirst, hsegments⟩), List.append_nil]
  · have hys : ∀ symbol, y.isSymbol symbol = decide (symbol = .semicolon) := by
      intro symbol
      simp [Token.isSymbol, hy, eq_comm]
    have hlast : Segment Token.startsBranch [y] :=
      ⟨y, [], rfl, by simp [Token.startsBranch, hys], hys _, hys _, .nil,
        Closed.nil.whole _ separates_startsBranch⟩
    have happend : head ++ x :: on ++ segments.flatten ++ [y] =
        head ++ ((x :: on) :: (segments ++ [[y]])).flatten := by simp
    have hall : ∀ ts ∈ (x :: on) :: (segments ++ [[y]]), Segment Token.startsBranch ts := by
      simp only [List.mem_cons, List.mem_append, List.not_mem_nil, or_false]
      rintro ts (rfl | hts | rfl)
      · exact hfirst
      · exact hsegments ts hts
      · exact hlast
    refine ⟨[[y]], by rw [happend, pieces_segments hwhole hall], ?_⟩
    refine List.forall_mem_singleton.2 ⟨?_, ?_⟩
    · rw [outline_cons (by simp [hy]) (hys _), outline_nil]
    · rw [branchAction?, pieces_plain (hys _) (hys _) (fun _ => by simp [Token.isKeyword, hy])]
      rfl

theorem mergeOrder_eq :
    mergeOrder (head ++ x :: on ++ segments.flatten ++ rest) = readingOrder head ++
      readingOrder on ++ (segments.flatMap fun ts => (outline ts).markers) ++
      (branchBodies segments .UPDATE).flatMap readingOrder ++
      (branchBodies segments .DELETE).flatMap readingOrder ++
      (branchBodies segments .INSERT).flatMap readingOrder := by
  obtain ⟨ends, hpieces, hends⟩ := pieces_merge hhead hx hon hsegments hrest
  have hread : readingOrder (x :: on) = readingOrder on :=
    readingOrder_cons (by simp [hx]) (by simp [Token.isSymbol, hx]) on
  have hmarkers : (ends.flatMap fun ts => (outline ts).markers) = [] :=
    List.flatMap_eq_nil_iff.2 fun ts hts => by rw [(hends ts hts).1, Outline.empty]
  have horder : ∀ k, branchOrder (segments ++ ends) k = branchOrder segments k := by
    intro k
    have hnone : (ends.filter fun ts => branchAction? ts = some (.keyword k)) = [] :=
      List.filter_eq_nil_iff.2 fun ts hts => by simp [(hends ts hts).2]
    rw [branchOrder, List.filter_append, hnone, List.append_nil, ← branchOrder]
  rw [mergeOrder, hpieces]
  simp only [← branchOrder_eq, hread, horder, List.flatMap_append, hmarkers, List.append_nil]

/-- Every question mark of a MERGE is read once. -/
theorem mergeOrder_perm (hacts : ∀ ts ∈ segments, ActsOnce ts) :
    (mergeOrder (head ++ x :: on ++ segments.flatten ++ rest)).Perm
      ((head ++ x :: on ++ segments.flatten ++ rest).filter (·.kind = .parameter)) := by
  obtain ⟨ends, hpieces, hends⟩ := pieces_merge hhead hx hon hsegments hrest
  have hxon : Paired (x :: on) := hon.paired.cons fun ho => by simp [Token.isSymbol, hx] at ho
  have hwhole : Paired (head ++ x :: on ++ segments.flatten ++ rest) :=
    ((hhead.paired.append hxon).append (.flatten fun ts hts => (hsegments ts hts).paired)).append
      hrest.paired
  refine hwhole.mergeOrder_perm fun ts hts => ?_
  rw [hpieces] at hts
  rcases List.mem_append.1 hts with hts | hts
  · exact hacts ts hts
  · exact .inl (by rw [(hends ts hts).1, Outline.empty])

end

namespace Run

variable {m : MergeStatement} (run : Run env s m t)
include run

theorem on_raw : run.on₀.Raw := by
  obtain ⟨r, hr, -⟩ := lift_parser_ok.1 run.parse_ok
  exact (Expr.parse_reads _ _ _ hr).raw

theorem condition_eq : some m.condition = Expr.and? run.target.filter (some run.on₂) := by
  rw [run.condition]
  cases run.target.filter <;> rfl

theorem branches_raw :
    ∀ e ∈ run.branches.updating ++ run.branches.deleting ++ run.branches.inserting, e.Raw := by
  obtain ⟨r, hr, -⟩ := lift_parser_ok.1 run.branches_ok
  obtain ⟨segments, hbranches⟩ := readBranches_scans hr
  exact hbranches.raw

theorem updating_raw : ∀ e ∈ run.branches.updating, e.Raw :=
  fun e he => run.branches_raw e (by simp [he])

theorem deleting_raw : ∀ e ∈ run.branches.deleting, e.Raw :=
  fun e he => run.branches_raw e (by simp [he])

theorem inserting_raw : ∀ e ∈ run.branches.inserting, e.Raw :=
  fun e he => run.branches_raw e (by simp [he])

/-- The queries of a MERGE are those of its source. -/
theorem plans_eq (hplans : run.target.range.plans = []) :
    (Statement.merge m).plans = run.source.plans := by
  simp [Statement.plans, run.ranges, Range.plans_distribute, ViewTarget.plans_rangeFor, hplans]

theorem readWritten : Statement.readWritten env s = .ok (.merge, run.written) run.s₃ := by
  obtain ⟨hk, hmerge⟩ : _ ∧ Scan false _ _ _ _ _ := Scan.keyword run.merge_ok rfl
  have hrest : s.cursor.rest = run.merge :: run.s₁.cursor.rest := hmerge.rest
  simp only [Statement.readWritten, bind_ok, get_ok]
  refine ⟨s, s, ⟨rfl, rfl⟩, ?_⟩
  simp only [hrest, hk, bind_ok, pure_ok]
  exact ⟨_, _, run.merge_ok, _, _, run.into_ok, _, _, run.written_ok, rfl, rfl⟩

/-- Before its branches a MERGE reads up to the keyword ON, and then its condition. -/
theorem head_inOrder : ∃ xs zs, Closed false xs ∧ run.on.kind = .keyword .ON ∧ Closed false zs ∧
    s.cursor.rest = xs ++ run.on :: zs ++ run.s₈.cursor.rest ∧
    Numbers s.parameters run.s₈.parameters (readingOrder xs ++ readingOrder zs) []
      (run.source.plans.flatMap Query.marks ++ run.on₁.marks) := by
  obtain ⟨-, hmerge⟩ : _ ∧ Scan false _ _ _ _ _ := Scan.keyword run.merge_ok rfl
  obtain ⟨-, hinto⟩ : _ ∧ Scan false _ _ _ _ _ := Scan.keyword run.into_ok rfl
  obtain ⟨-, -, -, xs, hwritten⟩ := Range.readTarget_scan run.written_ok
  obtain ⟨-, husing⟩ : _ ∧ Scan false _ _ _ _ _ := Scan.keyword run.using_ok rfl
  obtain ⟨-, -, ys, hsource⟩ := readSource_inOrder run.source_ok
  obtain ⟨hraw, zs, hscan⟩ := Scan.parsed Expr.parse_reads run.parse_ok
  have hresolves := Expr.resolveConditionWith_resolves (Query.compileTokens_resolves env)
    run.resolve_on
  have hnumbers := Expr.resolveConditionWith_numbers (Query.compileTokens_numbers env) hraw
    run.resolve_on
  have hfirst := InOrder.prepend (((hmerge.trans hinto).trans hwritten).trans husing) hsource
  have hsecond := InOrder.of_scan hscan hresolves hnumbers
  obtain ⟨c, hc, hs₆⟩ := lift_reader_compiler_ok.1 run.on_ok
  obtain ⟨hkind, hrest⟩ := Reader.keyword_ok hc
  have hcursor : run.s₆.cursor = c := by rw [← hs₆]
  have hparameters : run.s₆.parameters = run.s₅.parameters := by rw [← hs₆]
  have hmid := hsecond.numbers
  rw [hparameters] at hmid
  refine ⟨_, zs, hfirst.closed, hkind, hsecond.closed.weaken, ?_, hfirst.numbers.trans hmid⟩
  rw [hfirst.rest, hrest, ← hcursor, hsecond.rest]
  simp

theorem update_resolves : ResolvesTo run.s₁₀ run.s₁₁ run.branches.updating
    (m.update.toList.flatMap MergeUpdate.exprs) :=
  ifPresent_resolvesTo (fun _ _ _ _ hraw h => resolveUpdate_resolvesTo hraw h) run.updating_raw
    run.update_ok

theorem delete_resolves : ResolvesTo run.s₁₁ run.s₁₂ run.branches.deleting m.delete.toList := by
  have h := ifPresent_resolvesTo (fun _ _ _ _ hraw h => resolveDelete_resolvesTo hraw h)
    run.deleting_raw run.delete_ok
  rwa [List.flatMap_singleton'] at h

theorem insert_resolves : ResolvesTo run.s₁₂ t run.branches.inserting
    (m.insert.toList.flatMap MergeInsert.exprs) :=
  ifPresent_resolvesTo (fun _ _ _ _ hraw h => resolveInsert_resolvesTo hraw h) run.inserting_raw
    run.insert_ok

/-- The branches are resolved one after the other: first the updating one, then the deleting one and
the inserting one. -/
theorem branches_resolve : ResolvesTo run.s₁₀ t
    (run.branches.updating ++ run.branches.deleting ++ run.branches.inserting) m.branchExprs :=
  (run.update_resolves.trans run.delete_resolves).trans run.insert_resolves

/-- A MERGE has the marks of its source, of its condition and of its branches from the text. -/
theorem readsMarks {layers : List Layer} {state : ViewTarget.Descent}
    (h : ViewTarget.Descends env .merge (ViewTarget.start run.written) run.s₉ layers state run.s₁₀)
    (htail : IsTail t.cursor.rest) :
    ∃ views, Statement.Peels env s views ∧ ReadsMarks s t (mergeOrder s.cursor.rest) views
      (run.source.plans.flatMap Query.marks ++ run.on₂.marks ++ Expr.marksOf m.branchExprs)
      (layers.map fun layer => Expr.marksOf layer.filter.toList) := by
  obtain ⟨-, ⟨relation, hrelation⟩, -, -, -⟩ := Range.readTarget_scan run.written_ok
  obtain ⟨xs, zs, hxs, hon, hzs, hhead, hfirst⟩ := run.head_inOrder
  obtain ⟨r, hr, hs₉⟩ := lift_parser_ok.1 run.branches_ok
  obtain ⟨segments, hbranches⟩ := readBranches_scans hr
  obtain rfl : run.s₉.toReading = r := by rw [← hs₉]
  obtain ⟨views, hpeels, hfilters⟩ := h.numbers hrelation
  obtain ⟨hresolves, hresolved⟩ := run.branches_resolve
  have hrest : s.cursor.rest = xs ++ run.on :: zs ++ segments.flatten ++ t.cursor.rest := by
    have hthird : run.s₈.cursor.rest = segments.flatten ++ run.s₉.cursor.rest := hbranches.rest
    rw [hhead, hthird, (h.resolves.trans hresolves).cursor, ← List.append_assoc]
  -- The filters are read after the branches and before the subqueries of the branches.
  refine ⟨views, .change run.readWritten hrelation hpeels, ?_,
    readingOrder xs ++ readingOrder zs ++ segments.flatMap fun ts => (outline ts).markers,
    (branchBodies segments .UPDATE).flatMap readingOrder ++
      (branchBodies segments .DELETE).flatMap readingOrder ++
      (branchBodies segments .INSERT).flatMap readingOrder,
    run.s₉.parameters, run.s₁₀.parameters, _, ?_, hfirst.trans hbranches.numbers, hfilters, ?_⟩
  · rw [hrest]
    exact mergeOrder_perm hxs hon hzs hbranches.segmented htail hbranches.acts
  · rw [hrest, mergeOrder_eq hxs hon hzs hbranches.segmented htail]
    simp
  · rw [← hbranches.updating, ← hbranches.deleting, ← hbranches.inserting,
      ViewTarget.marks_moved run.moved_on]
    have hkept := (Numbers.refl run.s₁₀.parameters
      (run.source.plans.flatMap Query.marks ++ run.on₁.marks)).trans hresolved
    simpa using hkept

end Run

end

end Merge

end DataChange
