import DataChange.Proofs.Marker.Paired

/-!
# The order in which a statement reads its question marks

`markerOrder` lists the question marks of a statement in the order in which they are numbered. It
is given by the tokens alone. A CALL reads everything before it resolves a subquery, and so does an
INSERT up to ON DUPLICATE KEY. An UPDATE or DELETE resolves the keys of its order one by one, then
its bounds, and only then the subqueries before them. A MERGE resolves its source and its join
condition at once; its branches are all read first and then resolved, the updating one before the
deleting one before the inserting one.
-/

namespace DataChange

namespace Token

/-- Whether the token starts a clause of a slice, or ends the statement. -/
def startsSlice (t : Token) : Bool :=
  t.isKeyword .ORDER || t.isKeyword .LIMIT || t.isKeyword .OFFSET || t.isSymbol .semicolon

/-- Whether the token starts the upsert of an INSERT, or ends the statement. -/
def startsUpsert (t : Token) : Bool :=
  t.isKeyword .ON || t.isSymbol .semicolon

/-- Whether the token starts a clause of a MERGE, or ends the statement. -/
def startsBranch (t : Token) : Bool :=
  t.isKeyword .ON || t.isKeyword .WHEN || t.isSymbol .semicolon

end Token

/-- The order of an UPDATE or DELETE: what stands before the slice is read first, and its
subqueries last. -/
def sliceOrder (ts : List Token) : List Token :=
  match pieces Token.startsSlice 0 ts with
  | [] => []
  | head :: tails =>
    (outline head).markers ++ (tails.flatMap (pieces (·.isSymbol .comma) 0)).flatMap readingOrder ++
      deferredOrder head

/-- The order of an INSERT: the upsert after everything else. -/
def insertOrder (ts : List Token) : List Token :=
  (pieces Token.startsUpsert 0 ts).flatMap readingOrder

/-- The keyword that says what a branch of a MERGE does, after its THEN. -/
def branchAction? (ts : List Token) : Option TokenKind :=
  match pieces (·.isKeyword .THEN) 0 ts with
  | _ :: (_ :: action :: _) :: _ => some action.kind
  | _ => none

/-- The question marks in subqueries of the branches that do something. -/
def branchOrder (branches : List (List Token)) (action : Keyword) : List Token :=
  (branches.filter fun ts => branchAction? ts = some (.keyword action)).flatMap deferredOrder

/-- The order of a MERGE. -/
def mergeOrder (ts : List Token) : List Token :=
  match pieces Token.startsBranch 0 ts with
  | source :: on :: branches =>
    readingOrder source ++ readingOrder on ++ (branches.flatMap fun ts => (outline ts).markers) ++
      branchOrder branches .UPDATE ++ branchOrder branches .DELETE ++ branchOrder branches .INSERT
  | whole => whole.flatMap readingOrder

/-- The question marks of a statement in the order in which they are numbered. -/
def markerOrder (ts : List Token) : List Token :=
  match ts with
  | [] => []
  | t :: _ =>
    match t.kind with
    | .keyword .INSERT | .keyword .REPLACE => insertOrder ts
    | .keyword .UPDATE | .keyword .DELETE => sliceOrder ts
    | .keyword .MERGE => mergeOrder ts
    | _ => readingOrder ts

/-! ## Segments -/

/-- Tokens that are not cut at some separators. -/
def Uncut (sep : Token → Bool) (ts : List Token) : Prop :=
  ∀ rest, pieces sep 0 (ts ++ rest) = joinHead ts (pieces sep 0 rest)

/-- A separator, and tokens after it that are not cut. -/
structure Segment (sep : Token → Bool) (ts : List Token) : Prop where
  eq : ∃ t ys, ts = t :: ys ∧ sep t = true ∧ t.isSymbol .openParen = false ∧
    t.isSymbol .closeParen = false ∧ Paired ys ∧ Uncut sep ys

theorem Segment.paired {sep : Token → Bool} {ts : List Token} (h : Segment sep ts) : Paired ts := by
  obtain ⟨t, ys, rfl, -, ho, -, hys, -⟩ := h.eq
  exact hys.cons fun h => by simp [ho] at h

/-- Tokens and segments after them are cut at the separators of the segments. -/
theorem pieces_segments {sep : Token → Bool} :
    ∀ {segments : List (List Token)} {head : List Token}, Uncut sep head →
      (∀ ts ∈ segments, Segment sep ts) → pieces sep 0 (head ++ segments.flatten) = head :: segments
  | [], head, hhead, _ => by
    rw [List.flatten_nil, hhead, pieces, joinHead, List.append_nil]
  | ts :: segments, head, hhead, hsegments => by
    obtain ⟨t, ys, rfl, ht, ho, hc, -, hys⟩ := (hsegments ts (by simp)).eq
    have ih : pieces sep 0 (ys ++ segments.flatten) = ys :: segments :=
      pieces_segments hys fun us hus => hsegments us (by simp [hus])
    rw [hhead, List.flatten_cons, List.cons_append, pieces_separator ho hc ht, ih, joinHead,
      joinHead, List.append_nil]
    rfl

/-- A token before closed tokens that is neither a question mark nor an opening bracket. -/
theorem outline_cons {t : Token} (hp : t.kind ≠ .parameter) (ho : t.isSymbol .openParen = false)
    (ts : List Token) : outline (t :: ts) = outline ts :=
  outline_token hp (Closed.opensQuery_of_not_openParen ho ts)

theorem readingOrder_cons {t : Token} (hp : t.kind ≠ .parameter)
    (ho : t.isSymbol .openParen = false) (ts : List Token) :
    readingOrder (t :: ts) = readingOrder ts := by
  rw [readingOrder_eq, readingOrder_eq, deferredOrder, deferredOrder, outline_cons hp ho]

/-! ## No question mark twice -/

section

variable (t : Token)

theorem count_flatMap_le (f : List Token → List Token) (ls : List (List Token))
    (h : ∀ l ∈ ls, (f l).count t ≤ l.count t) : (ls.flatMap f).count t ≤ ls.flatten.count t := by
  induction ls with
  | nil => simp
  | cons l ls ih =>
    have hl := h l (by simp)
    have hls := ih fun l hl => h l (by simp [hl])
    simp only [List.flatMap_cons, List.flatten_cons, List.count_append]
    omega

theorem flatten_joinHead (xs : List Token) (ps : List (List Token)) :
    (joinHead xs ps).flatten = xs ++ ps.flatten := by
  cases ps <;> simp [joinHead]

/-- Cutting loses nothing. -/
theorem flatten_pieces (sep : Token → Bool) (depth : Nat) (ts : List Token) :
    (pieces sep depth ts).flatten = ts := by
  fun_induction pieces sep depth ts with
  | case1 => rfl
  | case2 depth u ts _ ih => rw [flatten_joinHead, ih, List.singleton_append]
  | case3 depth u ts _ _ ih => rw [flatten_joinHead, ih, List.singleton_append]
  | case4 depth u ts _ _ _ ih =>
    rw [List.flatten_cons, flatten_joinHead, ih, List.singleton_append, List.nil_append]
  | case5 depth u ts _ _ _ ih => rw [flatten_joinHead, ih, List.singleton_append]

theorem count_outline_le (ts : List Token) :
    (outline ts).markers.count t + (outline ts).bodies.flatten.count t ≤ ts.count t := by
  fun_induction outline ts with
  | case1 => simp [Outline.empty]
  | case2 u ts ho body rest hs ih =>
    obtain ⟨close, -, rfl, -⟩ := splitClosing_eq hs
    simp only [Outline.append, List.nil_append, List.flatten_cons, List.singleton_append,
      List.count_append, List.count_cons] at ih ⊢
    omega
  | case3 => simp [Outline.empty]
  | case4 u ts _ _ ih =>
    simp only [Outline.append, List.nil_append, List.singleton_append, List.count_cons] at ih ⊢
    omega
  | case5 u ts _ _ ih =>
    rw [List.count_cons]
    omega

theorem count_readingOrder_le (ts : List Token) : (readingOrder ts).count t ≤ ts.count t := by
  induction h : ts.length using Nat.strongRecOn generalizing ts with
  | ind n ih =>
    have hbodies := count_flatMap_le t readingOrder (outline ts).bodies
      fun body hbody => ih _ (h ▸ length_of_mem_bodies hbody) body rfl
    have hout := count_outline_le t ts
    rw [readingOrder_eq, deferredOrder, List.count_append]
    omega

theorem count_deferredOrder_le (ts : List Token) :
    (outline ts).markers.count t + (deferredOrder ts).count t ≤ ts.count t := by
  have hbodies := count_flatMap_le t readingOrder (outline ts).bodies
    fun body _ => count_readingOrder_le t body
  have hout := count_outline_le t ts
  rw [deferredOrder]
  omega

theorem branchOrder_cons (branch : List Token) (branches : List (List Token)) (action : Keyword) :
    branchOrder (branch :: branches) action =
      (if branchAction? branch = some (.keyword action) then deferredOrder branch else []) ++
        branchOrder branches action := by
  unfold branchOrder
  by_cases h : branchAction? branch = some (.keyword action) <;> simp [h]

/-- A branch of a MERGE has one action. -/
theorem count_branchOrder_le (branches : List (List Token)) :
    (branches.flatMap fun ts => (outline ts).markers).count t +
      (branchOrder branches .UPDATE).count t + (branchOrder branches .DELETE).count t +
      (branchOrder branches .INSERT).count t ≤ branches.flatten.count t := by
  induction branches with
  | nil => simp [branchOrder]
  | cons branch branches ih =>
    have hbranch := count_deferredOrder_le t branch
    simp only [branchOrder_cons, List.flatMap_cons, List.flatten_cons, List.count_append]
    split <;> split <;> split <;> simp_all <;> omega

theorem count_pieces_le (sep : Token → Bool) (depth : Nat) (ts : List Token) :
    ((pieces sep depth ts).flatMap readingOrder).count t ≤ ts.count t := by
  have := count_flatMap_le t readingOrder (pieces sep depth ts)
    fun l _ => count_readingOrder_le t l
  rwa [flatten_pieces] at this

theorem count_sliceOrder_le (ts : List Token) : (sliceOrder ts).count t ≤ ts.count t := by
  have hpieces := flatten_pieces Token.startsSlice 0 ts
  unfold sliceOrder
  split
  · simp
  · rename_i head tails heq
    have htails := count_flatMap_le t
      (fun l => (pieces (·.isSymbol .comma) 0 l).flatMap readingOrder) tails
      fun l _ => count_pieces_le t _ 0 l
    have hhead := count_deferredOrder_le t head
    have hsum : ts.count t = head.count t + tails.flatten.count t := by
      rw [← hpieces, heq, List.flatten_cons, List.count_append]
    rw [List.flatMap_assoc]
    simp only [List.count_append]
    omega

theorem count_mergeOrder_le (ts : List Token) : (mergeOrder ts).count t ≤ ts.count t := by
  unfold mergeOrder
  split
  · rename_i source on branches heq
    have hsum : ts.count t = source.count t + (on.count t + branches.flatten.count t) := by
      rw [← flatten_pieces Token.startsBranch 0 ts, heq]
      simp
    have hbranches := count_branchOrder_le t branches
    have hsource := count_readingOrder_le t source
    have hon := count_readingOrder_le t on
    simp only [List.count_append]
    omega
  · exact count_pieces_le t _ 0 ts

/-- No question mark stands in the order of a statement more often than in the statement. -/
theorem count_markerOrder_le (ts : List Token) : (markerOrder ts).count t ≤ ts.count t := by
  unfold markerOrder
  split
  · simp
  · rename_i u us
    split
    · exact count_pieces_le t _ 0 _
    · exact count_pieces_le t _ 0 _
    · exact count_sliceOrder_le t _
    · exact count_sliceOrder_le t _
    · exact count_mergeOrder_le t _
    · exact count_readingOrder_le t _

end

/-! ## Every question mark once -/

/-- A branch of a MERGE is known by what it does, unless it holds no subquery. -/
def ActsOnce (ts : List Token) : Prop :=
  (outline ts).bodies = [] ∨
    ∃ action, (action = .UPDATE ∨ action = .DELETE ∨ action = .INSERT) ∧
      branchAction? ts = some (.keyword action)

namespace Paired

variable {ts : List Token}

theorem pieces_perm (sep : Token → Bool) (depth : Nat) (h : Paired ts) :
    ((pieces sep depth ts).flatMap readingOrder).Perm (ts.filter (·.kind = .parameter)) := by
  have hpieces : ((pieces sep depth ts).flatMap readingOrder).Perm
      ((pieces sep depth ts).flatMap fun p => p.filter (·.kind = .parameter)) :=
    List.Perm.flatMap_left _ fun p hp => (of_mem_pieces sep depth h p hp).readingOrder_perm
  rwa [List.flatMap_def, List.flatMap_def, ← List.filter_flatten, flatten_pieces,
    ← List.flatMap_def] at hpieces

theorem sliceOrder_perm (h : Paired ts) :
    (sliceOrder ts).Perm (ts.filter (·.kind = .parameter)) := by
  have hcut := flatten_pieces Token.startsSlice 0 ts
  have hpaired := of_mem_pieces Token.startsSlice 0 h
  unfold sliceOrder
  split
  · next hnil =>
    rw [hnil] at hcut
    simp [← hcut]
  · next head tails heq =>
    rw [heq] at hcut hpaired
    have hhead := (hpaired head (by simp)).readingOrder_perm
    have htails : ((tails.flatMap (pieces (·.isSymbol .comma) 0)).flatMap readingOrder).Perm
        (tails.flatten.filter (·.kind = .parameter)) := by
      rw [List.flatMap_assoc, List.filter_flatten, ← List.flatMap_def]
      exact List.Perm.flatMap_left _ fun tail htail =>
        (hpaired tail (by simp [htail])).pieces_perm _ 0
    rw [← hcut, List.flatten_cons, List.filter_append]
    refine .trans ?_ (hhead.append htails)
    rw [readingOrder_eq, List.append_assoc, List.append_assoc]
    exact List.perm_append_comm.append_left _

/-- What the branches of a MERGE hold is read with the branches, or with what they do. -/
theorem branchOrder_perm : ∀ {branches : List (List Token)}, (∀ ts ∈ branches, Paired ts) →
    (∀ ts ∈ branches, ActsOnce ts) →
    ((branches.flatMap fun ts => (outline ts).markers) ++ branchOrder branches .UPDATE ++
      branchOrder branches .DELETE ++ branchOrder branches .INSERT).Perm
        (branches.flatten.filter (·.kind = .parameter))
  | [], _, _ => by simp [branchOrder]
  | branch :: branches, hpaired, hacts => by
    have ih := branchOrder_perm (List.forall_mem_cons.1 hpaired).2 (List.forall_mem_cons.1 hacts).2
    have hbranch := (hpaired branch (by simp)).readingOrder_perm
    rw [readingOrder_eq] at hbranch
    rw [List.perm_iff_count] at ih hbranch ⊢
    intro t
    have ih := ih t
    have hbranch := hbranch t
    simp only [branchOrder_cons, List.flatMap_cons, List.flatten_cons, List.filter_append,
      List.count_append] at ih hbranch ⊢
    rcases hacts branch (by simp) with hnone | ⟨action, rfl | rfl | rfl, haction⟩
    · have hdeferred : deferredOrder branch = [] := by rw [deferredOrder, hnone, List.flatMap_nil]
      simp only [hdeferred, ite_self, List.count_nil] at hbranch ⊢
      omega
    all_goals
      simp only [haction, ↓reduceIte, Option.some.injEq, TokenKind.keyword.injEq, reduceCtorEq,
        List.count_nil]
      omega

theorem mergeOrder_perm (h : Paired ts)
    (hacts : ∀ branch ∈ (pieces Token.startsBranch 0 ts).drop 2, ActsOnce branch) :
    (mergeOrder ts).Perm (ts.filter (·.kind = .parameter)) := by
  have hcut := flatten_pieces Token.startsBranch 0 ts
  have hpaired := of_mem_pieces Token.startsBranch 0 h
  unfold mergeOrder
  split
  · next source on branches heq =>
    simp only [heq, List.drop_succ_cons, List.drop_zero] at hcut hpaired hacts
    have hsource := (hpaired source (by simp)).readingOrder_perm
    have hon := (hpaired on (by simp)).readingOrder_perm
    have hbranches := branchOrder_perm (fun ts (hts : ts ∈ branches) => hpaired ts (by simp [hts]))
      hacts
    rw [← hcut, List.flatten_cons, List.flatten_cons, List.filter_append, List.filter_append,
      ← List.append_assoc]
    simpa only [List.append_assoc] using (hsource.append hon).append hbranches
  · exact h.pieces_perm _ 0

end Paired

/-! ## Nothing but question marks -/

section

variable {t : Token} {ts : List Token}

theorem kind_of_mem_markers (h : t ∈ (outline ts).markers) : t.kind = .parameter := by
  fun_induction outline ts with
  | case1 => simp [Outline.empty] at h
  | case2 u ts ho body rest hs ih => exact ih (by simpa [Outline.append] using h)
  | case3 => simp [Outline.empty] at h
  | case4 u ts _ hk ih =>
    simp only [Outline.append, List.singleton_append, List.mem_cons] at h
    rcases h with rfl | h
    · exact hk
    · exact ih h
  | case5 u ts _ _ ih => exact ih h

theorem kind_of_mem_readingOrder (h : t ∈ readingOrder ts) : t.kind = .parameter := by
  induction hn : ts.length using Nat.strongRecOn generalizing ts with
  | ind n ih =>
    rw [readingOrder_eq, deferredOrder, List.mem_append, List.mem_flatMap] at h
    rcases h with h | ⟨body, hbody, h⟩
    · exact kind_of_mem_markers h
    · exact ih _ (hn ▸ length_of_mem_bodies hbody) h rfl

theorem kind_of_mem_deferredOrder (h : t ∈ deferredOrder ts) : t.kind = .parameter :=
  kind_of_mem_readingOrder (readingOrder_eq ts ▸ List.mem_append_right _ h)

theorem kind_of_mem_pieces {ps : List (List Token)} (h : t ∈ ps.flatMap readingOrder) :
    t.kind = .parameter := by
  obtain ⟨p, -, h⟩ := List.mem_flatMap.1 h
  exact kind_of_mem_readingOrder h

theorem kind_of_mem_sliceOrder (h : t ∈ sliceOrder ts) : t.kind = .parameter := by
  unfold sliceOrder at h
  split at h
  · cases h
  · simp only [List.mem_append] at h
    rcases h with (h | h) | h
    · exact kind_of_mem_markers h
    · exact kind_of_mem_pieces h
    · exact kind_of_mem_deferredOrder h

theorem kind_of_mem_mergeOrder (h : t ∈ mergeOrder ts) : t.kind = .parameter := by
  have hbranch : ∀ {bs : List (List Token)} {k : Keyword}, t ∈ branchOrder bs k →
      t.kind = .parameter := by
    intro bs k h
    obtain ⟨b, -, h⟩ := List.mem_flatMap.1 h
    exact kind_of_mem_deferredOrder h
  unfold mergeOrder at h
  split at h
  · simp only [List.mem_append, List.mem_flatMap] at h
    rcases h with ((((h | h) | ⟨b, -, h⟩) | h) | h) | h
    · exact kind_of_mem_readingOrder h
    · exact kind_of_mem_readingOrder h
    · exact kind_of_mem_markers h
    all_goals exact hbranch h
  · exact kind_of_mem_pieces h

theorem kind_of_mem_markerOrder (h : t ∈ markerOrder ts) : t.kind = .parameter := by
  unfold markerOrder at h
  split at h
  · cases h
  · split at h
    · exact kind_of_mem_pieces h
    · exact kind_of_mem_pieces h
    · exact kind_of_mem_sliceOrder h
    · exact kind_of_mem_sliceOrder h
    · exact kind_of_mem_mergeOrder h
    · exact kind_of_mem_readingOrder h

theorem mem_of_mem_markerOrder (h : t ∈ markerOrder ts) : t ∈ ts := by
  have := count_markerOrder_le t ts
  exact List.count_pos_iff.1 (Nat.lt_of_lt_of_le (List.count_pos_iff.2 h) this)

/-- Tokens without a question mark have none to read. -/
theorem readingOrder_eq_nil (h : ∀ t ∈ ts, t.kind ≠ .parameter) : readingOrder ts = [] := by
  refine List.eq_nil_iff_forall_not_mem.2 fun t ht => h t ?_ (kind_of_mem_readingOrder ht)
  have := count_readingOrder_le t ts
  exact List.count_pos_iff.1 (Nat.lt_of_lt_of_le (List.count_pos_iff.2 ht) this)

end

end DataChange
