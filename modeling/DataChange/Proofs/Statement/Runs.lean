import DataChange.Proofs.Query.Runs
import DataChange.Proofs.Statement.Assigned
import DataChange.Statement.Delete
import DataChange.Statement.Merge

/-!
# Statements that compile

A statement that compiles has gone through the steps given here. Once the range behind the written
one is found, nothing is read or counted any more: what remains only moves expressions and checks
the columns they are assigned to.
-/

namespace DataChange

variable {env : Environment} {s t : CompilerState}

/-! ## Targets -/

theorem Range.readTarget_ok {operation : Operation} {r : Range}
    (h : readTarget env operation s = .ok r t) :
    ∃ name fragment s₁ asName s₂ relation,
      (liftM Reader.qualifiedName : Compiler _) s = .ok (name, fragment) s₁ ∧
      ((operation = .insert ∨ operation = .truncate) ∧ asName = none ∧ s₂ = s₁ ∨
        (liftM Reader.asName? : Compiler _) s₁ = .ok asName s₂) ∧
      env.relation name fragment = .ok relation ∧
      r = ofRelation s₂.nextRange relation asName fragment ∧
      r.checkAccepts operation = .ok () ∧ t = { s₂ with nextRange := s₂.nextRange + 1 } := by
  simp only [readTarget, bind_ok, Prod.exists] at h
  obtain ⟨name, fragment, s₁, hname, h⟩ := h
  -- with and without AS the relation is found and checked alike
  have hrange : ∀ {asName : Option String} {s₂ : CompilerState},
      (do let range ← named env name asName fragment
          range.checkAccepts operation
          return range : Compiler Range) s₂ = .ok r t →
      ∃ relation, env.relation name fragment = .ok relation ∧
        r = ofRelation s₂.nextRange relation asName fragment ∧
        r.checkAccepts operation = .ok () ∧ t = { s₂ with nextRange := s₂.nextRange + 1 } := by
    intro asName s₂ h
    simp only [bind_ok, lift_except_ok, pure_ok] at h
    obtain ⟨r', _, hr, _, _, ⟨hcheck, rfl⟩, rfl, rfl⟩ := h
    obtain ⟨relation, hrel, hr, ht⟩ := named_ok hr
    exact ⟨relation, hrel, hr, hcheck, ht⟩
  cases operation
  case insert | truncate =>
    obtain ⟨relation, hr⟩ := hrange h
    exact ⟨name, fragment, s₁, none, s₁, relation, hname, .inl ⟨by simp, rfl, rfl⟩, hr⟩
  all_goals
    simp only [bind_ok] at h
    obtain ⟨asName, s₂, has, h⟩ := h
    obtain ⟨relation, hr⟩ := hrange (by simpa only [bind_ok] using h)
    exact ⟨name, fragment, s₁, asName, s₂, relation, hname, .inr has, hr⟩

/-- A step for each element of a list. -/
theorem mapM_forall₂ {ε α β σ : Type} {f : α → EStateM ε σ β} {as : List α} {bs : List β} {s t : σ}
    (h : as.mapM f s = .ok bs t) : List.Forall₂ (fun a b => ∃ s t, f a s = .ok b t) as bs := by
  induction as generalizing bs s with
  | nil =>
    obtain ⟨rfl, -⟩ := pure_ok.1 h
    exact .nil
  | cons a as ih =>
    simp only [List.mapM_cons, bind_ok, pure_ok] at h
    obtain ⟨b, u, hb, bs', _, hbs, rfl, rfl⟩ := h
    exact .cons ⟨s, u, hb⟩ (ih hbs)

theorem getElem?_mapM {α β : Type} {f : α → Option β} {as : List α} {bs : List β}
    (h : as.mapM f = some bs) {i : Nat} {a : α} (ha : as[i]? = some a) :
    ∃ b, f a = some b ∧ bs[i]? = some b := by
  induction as generalizing bs i with
  | nil => simp at ha
  | cons a₀ as ih =>
    simp only [List.mapM_cons, Option.bind_eq_bind, Option.bind_eq_some_iff, Option.pure_def,
      Option.some.injEq] at h
    obtain ⟨b, hb, bs', hbs, rfl⟩ := h
    cases i with
    | zero =>
      simp only [List.getElem?_cons_zero, Option.some.injEq] at ha
      exact ⟨b, ha ▸ hb, rfl⟩
    | succ i => exact ih hbs (by simpa using ha)

/-- A list of steps that leave the state as it is. -/
theorem mapM_stays {α β σ : Type} {R : α → β → Prop} {f : α → EStateM Failure σ β}
    (hf : ∀ a s b t, f a s = .ok b t → R a b ∧ t = s) {as : List α} {bs : List β} {s t : σ}
    (h : as.mapM f s = .ok bs t) : List.Forall₂ R as bs ∧ t = s := by
  induction as generalizing bs s with
  | nil =>
    obtain ⟨rfl, rfl⟩ := pure_ok.1 h
    exact ⟨.nil, rfl⟩
  | cons a as ih =>
    simp only [List.mapM_cons, bind_ok, pure_ok] at h
    obtain ⟨b, u, hb, bs', _, hbs, rfl, rfl⟩ := h
    obtain ⟨hR, rfl⟩ := hf _ _ _ _ hb
    obtain ⟨hRs, rfl⟩ := ih hbs
    exact ⟨.cons hR hRs, rfl⟩

/-- A list of steps of which each ends with a part that leaves the state as it is. -/
theorem mapM_bind_stays {α β γ σ : Type} {R : β → γ → Prop} {f : α → EStateM Failure σ β}
    {g : β → EStateM Failure σ γ} (hg : ∀ b s c t, g b s = .ok c t → R b c ∧ t = s) {as : List α}
    {cs : List γ} {s t : σ} (h : as.mapM (fun a => f a >>= g) s = .ok cs t) :
    ∃ bs, as.mapM f s = .ok bs t ∧ List.Forall₂ R bs cs := by
  induction as generalizing cs s with
  | nil =>
    obtain ⟨rfl, rfl⟩ := pure_ok.1 h
    exact ⟨[], rfl, .nil⟩
  | cons a as ih =>
    simp only [List.mapM_cons, bind_ok, pure_ok] at h
    obtain ⟨c, _, ⟨b, u, hb, hc⟩, cs', _, hcs, rfl, rfl⟩ := h
    obtain ⟨hR, rfl⟩ := hg _ _ _ _ hc
    obtain ⟨bs, hbs, hRs⟩ := ih hcs
    refine ⟨b :: bs, ?_, .cons hR hRs⟩
    simp only [List.mapM_cons, bind_ok, pure_ok]
    exact ⟨b, _, hb, bs, _, hbs, rfl, rfl⟩

namespace ViewTarget

/-! ## Moving expressions -/

/-- An expression moved to the range that is changed. -/
def moved (target : ViewTarget) (e : Expr) : Option Expr :=
  if target.isMoved then e.redirect target.written.id target.range target.columnMap else some e

variable {target : ViewTarget}

theorem onBase_ok {e e' : Expr} : target.onBase e s = .ok e' t ↔ target.moved e = some e' ∧ s = t := by
  unfold onBase moved
  split
  · exact inRange_ok
  · rw [pure_ok, Option.some.injEq]

theorem onBase?_ok {e e' : Option Expr} (h : target.onBase? e s = .ok e' t) :
    e.mapM target.moved = some e' ∧ s = t := by
  cases e with
  | none =>
    obtain ⟨rfl, rfl⟩ := pure_ok.1 h
    exact ⟨rfl, rfl⟩
  | some e =>
    simp only [onBase?, bind_ok, onBase_ok, pure_ok] at h
    obtain ⟨e', _, ⟨he, rfl⟩, rfl, rfl⟩ := h
    simp [he]

theorem values_onBase_ok {es es' : List Expr} (h : es.mapM target.onBase s = .ok es' t) :
    List.Forall₂ (fun e e' => target.moved e = some e') es es' ∧ t = s := by
  refine mapM_stays ?_ h
  intro e s e' t he
  obtain ⟨hm, rfl⟩ := onBase_ok.1 he
  exact ⟨hm, rfl⟩

/-- Two keys of an order, the second moved to the range that is changed. -/
def MovedKey (target : ViewTarget) (k k' : SortKey) : Prop :=
  target.moved k.key = some k'.key ∧ k'.descending = k.descending

/-- Two slices, the second with its keys moved to the range that is changed. -/
inductive MovedSlice (target : ViewTarget) : Option Slice → Option Slice → Prop
  | none : MovedSlice target none none
  | some {slice : Slice} {orderBy : List SortKey}
      (h : List.Forall₂ target.MovedKey slice.orderBy orderBy) :
      MovedSlice target (some slice) (some { slice with orderBy := orderBy })

theorem sliceOnBase_ok {slice slice' : Option Slice}
    (h : target.sliceOnBase slice s = .ok slice' t) : target.MovedSlice slice slice' ∧ t = s := by
  cases slice with
  | none =>
    obtain ⟨rfl, rfl⟩ := pure_ok.1 h
    exact ⟨.none, rfl⟩
  | some slice =>
    simp only [sliceOnBase, bind_ok, pure_ok] at h
    obtain ⟨orderBy, _, hmap, rfl, rfl⟩ := h
    have hkey : ∀ (k : SortKey) s k' t,
        (do let key ← target.onBase k.key
            pure { k with key := key } : Compiler SortKey) s = .ok k' t →
          target.MovedKey k k' ∧ t = s := by
      intro k s k' t h
      simp only [bind_ok, onBase_ok, pure_ok] at h
      obtain ⟨key, _, ⟨hkey, rfl⟩, rfl, rfl⟩ := h
      exact ⟨⟨hkey, rfl⟩, rfl⟩
    obtain ⟨ho, rfl⟩ := mapM_stays hkey hmap
    exact ⟨.some ho, rfl⟩

/-! ## Following views -/

theorem viewToPass?_some {operation : Operation} {range : Range} {view : View}
    (h : viewToPass? operation range = some view) :
    range.source = .relation (.view view) ∧ operation.hasTrigger view = false := by
  unfold viewToPass? at h
  split at h
  · rename_i v hs
    split at h
    · cases h
    · rename_i ht
      cases h
      exact ⟨hs, by simpa using ht⟩
  · cases h

theorem resolveFilter_ok {base : Range} {text : Option String} {filter : Option Expr}
    (h : resolveFilter env base text s = .ok filter t) :
    (text = none ∧ filter = none ∧ t = s) ∨
      ∃ source tokens condition s₁ c e, text = some source ∧ tokenize source = .ok tokens ∧
        (liftM Expr.parse : Compiler Expr) { s with cursor := .ofTokens tokens } = .ok condition s₁ ∧
        Reader.finish s₁.cursor = .ok () c ∧
        condition.resolveCondition env ⟨[base], []⟩ { s₁ with cursor := s.cursor } = .ok e t ∧
        filter = some e := by
  cases text with
  | none =>
    obtain ⟨rfl, rfl⟩ := pure_ok.1 h
    exact .inl ⟨rfl, rfl, rfl⟩
  | some source =>
    simp only [resolveFilter, bind_ok, lift_except_ok, pure_ok] at h
    obtain ⟨tokens, _, ⟨htokens, rfl⟩, condition, s₂, hc, e, _, he, rfl, rfl⟩ := h
    obtain ⟨u, hu, rfl⟩ := onTokens_ok.1 hc
    simp only [bind_ok, pure_ok] at hu
    obtain ⟨condition', s₁, hparse, _, _, hlift, rfl, rfl⟩ := hu
    obtain ⟨c, hfinish, rfl⟩ := lift_reader_compiler_ok.1 hlift
    exact .inr ⟨source, tokens, condition', s₁, c, e, rfl, htokens, hparse, hfinish, he, rfl⟩

theorem descend_ok {operation : Operation} {view : View} {state state' : Descent}
    (h : descend env operation view state s = .ok state' t) :
    ∃ base relation range outerFilter filter columnMap, view.base = some base ∧
      env.relation (base.relation.qualify view.schemaName) state.range.fragment = .ok relation ∧
      range = .ofRelation s.nextRange relation none state.range.fragment ∧
      state.filter.mapM (Expr.redirect state.range.id range base.columnMap) = some outerFilter ∧
      resolveFilter env range base.filter { s with nextRange := s.nextRange + 1 } = .ok filter t ∧
      state.columnMap.mapM (fun column => base.columnMap[column]?) = some columnMap ∧
      state' = ⟨range.markAllUsed, columnMap, Expr.and? filter outerFilter⟩ := by
  simp only [descend] at h
  cases hbase : view.base with
  | none =>
    simp only [hbase] at h
    exact (reject_ok.1 h).elim
  | some base =>
    simp only [hbase, bind_ok, lift_except_ok] at h
    obtain ⟨relation, _, ⟨hrel, rfl⟩, range, s₁, hrange, h⟩ := h
    obtain ⟨hr, rfl⟩ := Range.ofNew_ok hrange
    have hrest : ∃ outerFilter s₂,
        state.filter.mapM (Expr.redirect state.range.id range base.columnMap) = some outerFilter ∧
        s₂ = { s with nextRange := s.nextRange + 1 } ∧
        ∃ filter s₃, resolveFilter env range base.filter s₂ = .ok filter s₃ ∧
        ∃ columnMap, inRange (state.columnMap.mapM fun column => base.columnMap[column]?) s₃ =
          .ok columnMap t ∧
        state' = ⟨range.markAllUsed, columnMap, Expr.and? filter outerFilter⟩ := by
      cases hf : state.filter with
      | none =>
        simp only [hf, pure_bind, bind_ok, pure_ok] at h
        obtain ⟨filter, s₃, hfilter, columnMap, _, hmap, rfl, rfl⟩ := h
        exact ⟨none, _, rfl, rfl, filter, s₃, hfilter, columnMap, hmap, rfl⟩
      | some outer =>
        simp only [hf, bind_ok, pure_ok] at h
        obtain ⟨outer', s₂, hrun, _, _, ⟨rfl, rfl⟩, filter, s₃, hfilter, columnMap, _, hmap, rfl,
          rfl⟩ := h
        obtain ⟨hredirect, rfl⟩ := inRange_ok.1 hrun
        refine ⟨some outer', _, ?_, rfl, filter, s₃, hfilter, columnMap, hmap, rfl⟩
        simp [hredirect]
    obtain ⟨outerFilter, _, hredirect, rfl, filter, s₃, hfilter, columnMap, hmap, rfl⟩ := hrest
    obtain ⟨hcolumns, rfl⟩ := inRange_ok.1 hmap
    exact ⟨base, relation, range, outerFilter, filter, columnMap, rfl, hrel, hr, hredirect, hfilter,
      hcolumns, rfl⟩

/-- What every view that is passed keeps holds where a statement lands, and there no view is passed
any more. -/
theorem followWithin_induct {operation : Operation} {Inv : Descent → CompilerState → Prop}
    (hstep : ∀ view state s state' t, viewToPass? operation state.range = some view → Inv state s →
      descend env operation view state s = .ok state' t → Inv state' t) :
    ∀ (bound : Nat) {state state' : Descent} {s t : CompilerState}, Inv state s →
      followWithin env operation bound state s = .ok state' t →
      Inv state' t ∧ viewToPass? operation state'.range = none
  | 0, _, _, _, _, _, h => (throw_ok.1 h).elim
  | bound + 1, state, state', s, t, hi, h => by
    simp only [followWithin] at h
    cases hview : viewToPass? operation state.range with
    | none =>
      simp only [hview] at h
      obtain ⟨rfl, rfl⟩ := pure_ok.1 h
      exact ⟨hi, hview⟩
    | some view =>
      simp only [hview, bind_ok] at h
      obtain ⟨mid, u, hd, h⟩ := h
      exact followWithin_induct hstep bound (hstep _ _ _ _ _ hview hi hd) h

/-- The descent from a written range. -/
def start (written : Range) : Descent :=
  ⟨written, List.range written.columns.length, none⟩

theorem resolve_ok {written : Range} {operation : Operation}
    (h : resolve env written operation s = .ok target t) :
    ∃ bound range columnMap filter relation,
      followWithin env operation bound (start written) s = .ok ⟨range, columnMap, filter⟩ t ∧
      range.relation? = some relation ∧ target = ⟨written, relation, range, columnMap, filter⟩ := by
  simp only [resolve, bind_ok] at h
  obtain ⟨⟨range, columnMap, filter⟩, u, hf, h⟩ := h
  cases hr : range.relation? with
  | none =>
    simp only [hr] at h
    exact (reject_ok.1 h).elim
  | some relation =>
    simp only [hr] at h
    obtain ⟨rfl, rfl⟩ := pure_ok.1 h
    exact ⟨_, range, columnMap, filter, relation, hf, hr, rfl⟩

end ViewTarget

/-! ## ORDER BY, LIMIT and OFFSET -/

namespace Slice

variable {ranges : List Range} {outer : List RangeGroup}

theorem readBound_ok {e : Expr} (h : readBound env outer s = .ok e t) :
    ∃ bound s₁ bound', (liftM (Expr.parseAt .comparison) : Compiler Expr) s = .ok bound s₁ ∧
      bound.resolve env (.outerOnly outer) s₁ = .ok bound' t ∧ typeBound bound' = .ok e := by
  simp only [readBound, bind_ok, lift_except_ok] at h
  obtain ⟨bound, s₁, hb, bound', _, hr, htype, rfl⟩ := h
  exact ⟨bound, s₁, bound', hb, hr, htype⟩

theorem key_ok {scope : Scope} {k : SortKey} (h : SortKey.read env scope s = .ok k t) :
    ∃ key s₁ s₂, (liftM Expr.parse : Compiler Expr) s = .ok key s₁ ∧
      key.resolve env scope s₁ = .ok k.key s₂ ∧
      (liftM SortKey.readDescending : Compiler Bool) s₂ = .ok k.descending t := by
  simp only [SortKey.read, bind_ok, pure_ok] at h
  obtain ⟨key, s₁, hparse, key', s₂, hr, descending, _, hd, rfl, rfl⟩ := h
  exact ⟨key, s₁, s₂, hparse, hr, hd⟩

/-- The keys after ORDER BY, or none. -/
def readKeys (env : Environment) (scope : Scope) (found : Bool) : Compiler (List SortKey) :=
  if found then do
    let _ ← Reader.keyword .BY
    commaSeparated (SortKey.read env scope)
  else pure []

/-- The bound after OFFSET, or none. -/
def readOffset (env : Environment) (outer : List RangeGroup) (found : Bool) :
    Compiler (Option Expr) :=
  if found then some <$> readBound env outer else pure none

/-- A slice with its keys read. -/
inductive ReadsBounds (env : Environment) (outer : List RangeGroup) (orderBy : List SortKey)
    (s : CompilerState) : Option Slice → CompilerState → Prop
  | none {t : CompilerState} (hempty : orderBy = [])
      (hlimit : (liftM (Reader.skipKeyword .LIMIT) : Compiler Bool) s = .ok false t) :
      ReadsBounds env outer orderBy s none t
  | some {s₁ s₂ s₃ t : CompilerState} {limit : Expr} {found : Bool} {offset : Option Expr}
      (hlimit : (liftM (Reader.skipKeyword .LIMIT) : Compiler Bool) s = .ok true s₁)
      (hl : readBound env outer s₁ = .ok limit s₂)
      (hoffset : (liftM (Reader.skipKeyword .OFFSET) : Compiler Bool) s₂ = .ok found s₃)
      (ho : readOffset env outer found s₃ = .ok offset t) :
      ReadsBounds env outer orderBy s (some ⟨orderBy, limit, offset⟩) t

theorem read?_ok {slice : Option Slice} (h : read? env ranges s = .ok slice t) :
    ∃ found s₁ orderBy s₂, (liftM (Reader.skipKeyword .ORDER) : Compiler Bool) s = .ok found s₁ ∧
      readKeys env ⟨ranges, s.outer⟩ found s₁ = .ok orderBy s₂ ∧
      ReadsBounds env s.outer orderBy s₂ slice t := by
  simp only [read?, bind_ok, outerGroups_ok] at h
  obtain ⟨_, _, ⟨rfl, rfl⟩, found, s₁, ho, h⟩ := h
  have hbounds : ∀ {orderBy : List SortKey} {s₂ : CompilerState},
      (do if ← Reader.skipKeyword .LIMIT then
            let limit ← readBound env s.outer
            let offset ← if ← Reader.skipKeyword .OFFSET then some <$> readBound env s.outer
              else pure none
            return some ⟨orderBy, limit, offset⟩
          else if orderBy.isEmpty then return none
          else reject (.unexpected (.keyword .LIMIT) (← get).cursor.fragment) :
        Compiler (Option Slice)) s₂ = .ok slice t → ReadsBounds env s.outer orderBy s₂ slice t := by
    intro orderBy s₂ h
    simp only [bind_ok] at h
    obtain ⟨hasLimit, s₃, hlimit, h⟩ := h
    cases hasLimit with
    | true =>
      simp only [↓reduceIte, bind_ok] at h
      obtain ⟨limit, s₄, hl, hasOffset, s₅, hoffset, h⟩ := h
      cases hasOffset with
      | true =>
        simp only [↓reduceIte, bind_ok, pure_ok] at h
        obtain ⟨offset, _, ho, rfl, rfl⟩ := h
        exact .some hlimit hl hoffset ho
      | false =>
        obtain ⟨rfl, rfl⟩ := pure_ok.1 h
        exact .some hlimit hl hoffset rfl
    | false =>
      simp only [Bool.false_eq_true, ↓reduceIte] at h
      split at h
      · rename_i hempty
        obtain ⟨rfl, rfl⟩ := pure_ok.1 h
        exact .none (by simpa using hempty) hlimit
      · simp only [bind_ok, reject_ok, and_false, exists_false] at h
  cases found with
  | true =>
    simp only [↓reduceIte, bind_ok] at h
    obtain ⟨by', s₂, hby, orderBy, s₃, hkeys, h⟩ := h
    refine ⟨true, s₁, orderBy, s₃, ho, ?_, hbounds (by simpa only [bind_ok] using h)⟩
    simp only [readKeys, ↓reduceIte, bind_ok]
    exact ⟨by', s₂, hby, hkeys⟩
  | false =>
    exact ⟨false, s₁, [], s₁, ho, rfl, hbounds h⟩

end Slice

/-! ## The place of the target -/

/-- The tokens after a keyword. -/
def afterKeyword? (k : Keyword) : List Token → Option (List Token)
  | x :: xs => if x.kind = .keyword k then some xs else none
  | [] => none

/-- The tokens after a keyword that may be missing. -/
def skippingKeyword (k : Keyword) (xs : List Token) : List Token :=
  (afterKeyword? k xs).getD xs

/-- The tokens after INTO, which one dialect leaves out. -/
def afterInto? (mysql : Bool) (xs : List Token) : Option (List Token) :=
  if mysql then some (skippingKeyword .INTO xs) else afterKeyword? .INTO xs

/-- What a statement does, and its tokens from the name of the relation on that it writes. -/
def targetTokens? (mysql : Bool) : List Token → Option (Operation × List Token)
  | [] => none
  | x :: xs =>
    match x.kind with
    | .keyword .INSERT =>
      (afterInto? mysql (if mysql then skippingKeyword .IGNORE xs else xs)).map (.insert, ·)
    | .keyword .REPLACE => (afterInto? mysql xs).map (.insert, ·)
    | .keyword .UPDATE => some (.update, xs)
    | .keyword .DELETE => (afterKeyword? .FROM xs).map (.delete, ·)
    | .keyword .MERGE => (afterKeyword? .INTO xs).map (.merge, ·)
    | .keyword .TRUNCATE => (afterKeyword? .TABLE xs).map (.truncate, ·)
    | _ => none

theorem afterKeyword?_of_kind {k : Keyword} {x : Token} {xs : List Token}
    (h : x.kind = .keyword k) : afterKeyword? k (x :: xs) = some xs :=
  if_pos h

theorem skippingKeyword_of_skip {k : Keyword} {found : Bool} {c c' : Cursor}
    (h : Reader.skipKeyword k c = .ok found c') : skippingKeyword k c.rest = c'.rest := by
  cases found with
  | true =>
    obtain ⟨x, hx, hrest⟩ := Reader.skipKeyword_true h
    rw [hrest, skippingKeyword, afterKeyword?_of_kind hx]
    rfl
  | false =>
    obtain ⟨rfl, hother⟩ := Reader.skipKeyword_false h
    cases hrest : c'.rest with
    | nil => rfl
    | cons x xs => simp [skippingKeyword, afterKeyword?, hother x xs hrest]

/-- A keyword is the first of the tokens ahead. -/
theorem keyword_rest {s t : CompilerState} {k : Keyword} {x : Token}
    (h : (liftM (Reader.keyword k) : Compiler Token) s = .ok x t) :
    x.kind = .keyword k ∧ s.cursor.rest = x :: t.cursor.rest := by
  obtain ⟨c, hc, rfl⟩ := lift_reader_compiler_ok.1 h
  exact Reader.keyword_ok hc

theorem targetTokens?_of_update {s t : CompilerState} {x : Token} (mysql : Bool)
    (h : (liftM (Reader.keyword .UPDATE) : Compiler Token) s = .ok x t) :
    targetTokens? mysql s.cursor.rest = some (.update, t.cursor.rest) := by
  obtain ⟨hkind, hrest⟩ := keyword_rest h
  simp [targetTokens?, hrest, hkind]

theorem targetTokens?_of_delete {s t u : CompilerState} {x y : Token} (mysql : Bool)
    (h : (liftM (Reader.keyword .DELETE) : Compiler Token) s = .ok x t)
    (hfrom : (liftM (Reader.keyword .FROM) : Compiler Token) t = .ok y u) :
    targetTokens? mysql s.cursor.rest = some (.delete, u.cursor.rest) := by
  obtain ⟨hkind, hrest⟩ := keyword_rest h
  obtain ⟨hkind', hrest'⟩ := keyword_rest hfrom
  simp [targetTokens?, hrest, hkind, hrest', afterKeyword?_of_kind hkind']

theorem targetTokens?_of_merge {s t u : CompilerState} {x y : Token} (mysql : Bool)
    (h : (liftM (Reader.keyword .MERGE) : Compiler Token) s = .ok x t)
    (hinto : (liftM (Reader.keyword .INTO) : Compiler Token) t = .ok y u) :
    targetTokens? mysql s.cursor.rest = some (.merge, u.cursor.rest) := by
  obtain ⟨hkind, hrest⟩ := keyword_rest h
  obtain ⟨hkind', hrest'⟩ := keyword_rest hinto
  simp [targetTokens?, hrest, hkind, hrest', afterKeyword?_of_kind hkind']

/-- A statement is written against a range: it is read at the place of the target, and the tokens
`after` come after it. -/
inductive Targets (env : Environment) (tokens : List Token) (operation : Operation)
    (written : Range) (after : List Token) : Prop
  | intro {s t : CompilerState}
      (htokens : targetTokens? env.config.dialect.mysql tokens = some (operation, s.cursor.rest))
      (hread : Range.readTarget env operation s = .ok written t) (hafter : t.cursor.rest = after) :
      Targets env tokens operation written after

/-! ## UPDATE and DELETE -/

/-- The steps of an UPDATE that compiles. -/
structure Update.Run (env : Environment) (s : CompilerState) (u : UpdateStatement)
    (t : CompilerState) where
  {s₁ s₂ s₃ s₄ s₅ s₆ s₇ s₈ : CompilerState}
  {update set : Token}
  {written : Range}
  {clause : SetClause}
  {condition₀ condition₁ condition₂ : Option Expr}
  {slice₀ : Option Slice}
  {values₁ values₂ : List Expr}
  {target : ViewTarget}
  update_ok : (liftM (Reader.keyword .UPDATE) : Compiler Token) s = .ok update s₁
  written_ok : Range.readTarget env .update s₁ = .ok written s₂
  set_ok : (liftM (Reader.keyword .SET) : Compiler Token) s₂ = .ok set s₃
  clause_ok : (liftM (SetClause.read env.config.dialect.mysql written) : Compiler SetClause) s₃ =
    .ok clause s₄
  condition_ok : Query.readCondition s₄ = .ok condition₀ s₅
  slice_ok : Slice.read? env [written] s₅ = .ok slice₀ s₆
  resolve_values : clause.values.mapM (fun value => value.resolve env ⟨[written], s₆.outer⟩) s₆ =
    .ok values₁ s₇
  resolve_condition : Query.resolveCondition? (Query.compileTokens env) ⟨[written], s₆.outer⟩
    condition₀ s₇ = .ok condition₁ s₈
  target_ok : ViewTarget.resolve env written .update s₈ = .ok target t
  moved_values : List.Forall₂ (fun e e' => target.moved e = some e') values₁ values₂
  moved_condition : condition₁.mapM target.moved = some condition₂
  moved_slice : target.MovedSlice slice₀ u.slice
  assigned : target.assign clause.columnMap values₂ t = .ok u.assignments t
  relation : u.target = target.relation
  writes : u.writeTables = [u.target.qualifiedName]
  condition : u.condition = Expr.and? target.filter condition₂
  ranges : u.ranges = JoinCondition.distribute [target.rangeFor u.assignments.values u.condition]

theorem Update.compile_ok {u : UpdateStatement} (h : Update.compile env s = .ok u t) :
    Nonempty (Update.Run env s u t) := by
  obtain ⟨update, s₁, hupdate, h⟩ := bind_ok.1 h
  obtain ⟨written, s₂, hwritten, h⟩ := bind_ok.1 h
  obtain ⟨set, s₃, hset, h⟩ := bind_ok.1 h
  obtain ⟨clause, s₄, hclause, h⟩ := bind_ok.1 h
  obtain ⟨condition₀, s₅, hcondition, h⟩ := bind_ok.1 h
  simp only [bind_ok, outerGroups_ok, pure_ok] at h
  obtain ⟨slice₀, s₆, hslice, _, _, ⟨rfl, rfl⟩, values₁, s₇, hvalues, h⟩ := h
  obtain ⟨condition₁, s₈, hresolve, target, s₉, htarget, values₂, _, hmoved, h⟩ := h
  obtain ⟨condition₂, _, hmovedc, slice, _, hmoveds, assignments, _, hassign, rfl, rfl⟩ := h
  obtain ⟨hvalues₂, rfl⟩ := ViewTarget.values_onBase_ok hmoved
  obtain ⟨hcondition₂, rfl⟩ := ViewTarget.onBase?_ok hmovedc
  obtain ⟨hslice₂, rfl⟩ := ViewTarget.sliceOnBase_ok hmoveds
  obtain ⟨-, rfl⟩ := ViewTarget.assign_ok hassign
  exact ⟨⟨hupdate, hwritten, hset, hclause, hcondition, hslice, hvalues, hresolve, htarget, hvalues₂,
    hcondition₂, hslice₂, hassign, rfl, rfl, rfl, rfl⟩⟩

/-- The target of an UPDATE stands after its first keyword. -/
theorem Update.Run.targets {u : UpdateStatement} (run : Update.Run env s u t) :
    Targets env s.cursor.rest .update run.written run.s₂.cursor.rest :=
  .intro (targetTokens?_of_update _ run.update_ok) run.written_ok rfl

/-- The steps of a DELETE that compiles. -/
structure Delete.Run (env : Environment) (s : CompilerState) (d : DeleteStatement)
    (t : CompilerState) where
  {s₁ s₂ s₃ s₄ s₅ s₆ : CompilerState}
  {delete fromToken : Token}
  {written : Range}
  {condition₀ condition₁ condition₂ : Option Expr}
  {slice₀ : Option Slice}
  {target : ViewTarget}
  delete_ok : (liftM (Reader.keyword .DELETE) : Compiler Token) s = .ok delete s₁
  from_ok : (liftM (Reader.keyword .FROM) : Compiler Token) s₁ = .ok fromToken s₂
  written_ok : Range.readTarget env .delete s₂ = .ok written s₃
  condition_ok : Query.readCondition s₃ = .ok condition₀ s₄
  slice_ok : Slice.read? env [written] s₄ = .ok slice₀ s₅
  resolve_condition : Query.resolveCondition? (Query.compileTokens env) ⟨[written], s₅.outer⟩
    condition₀ s₅ = .ok condition₁ s₆
  target_ok : ViewTarget.resolve env written .delete s₆ = .ok target t
  moved_condition : condition₁.mapM target.moved = some condition₂
  moved_slice : target.MovedSlice slice₀ d.slice
  relation : d.target = target.relation
  writes : d.writeTables = [d.target.qualifiedName]
  condition : d.condition = Expr.and? target.filter condition₂
  ranges : d.ranges = JoinCondition.distribute [target.rangeFor [] d.condition]

theorem Delete.compile_ok {d : DeleteStatement} (h : Delete.compile env s = .ok d t) :
    Nonempty (Delete.Run env s d t) := by
  simp only [Delete.compile, bind_ok, outerGroups_ok, pure_ok] at h
  obtain ⟨delete, s₁, hdelete, fromToken, s₂, hfrom, written, s₃, hwritten, condition₀, s₄,
    hcondition, slice₀, s₅, hslice, _, _, ⟨rfl, rfl⟩, condition₁, s₆, hresolve, target, s₇, htarget,
    condition₂, _, hmovedc, slice, _, hmoveds, rfl, rfl⟩ := h
  obtain ⟨hcondition₂, rfl⟩ := ViewTarget.onBase?_ok hmovedc
  obtain ⟨hslice₂, rfl⟩ := ViewTarget.sliceOnBase_ok hmoveds
  exact ⟨⟨hdelete, hfrom, hwritten, hcondition, hslice, hresolve, htarget, hcondition₂, hslice₂, rfl,
    rfl, rfl, rfl⟩⟩

theorem Delete.Run.targets {d : DeleteStatement} (run : Delete.Run env s d t) :
    Targets env s.cursor.rest .delete run.written run.s₃.cursor.rest :=
  .intro (targetTokens?_of_delete _ run.delete_ok run.from_ok) run.written_ok rfl

/-! ## MERGE -/

namespace Merge

variable {target : ViewTarget} {scope : Scope}

/-- The source of a MERGE: a relation, or a query that is compiled on the spot. -/
inductive ReadsSource (env : Environment) (s : CompilerState) (r : Range) (t : CompilerState) : Prop
  | relation (h : Range.readRelation env s = .ok r t)
  | derived {opening : Token} {body : List Token} {plan : Plan} {asName : String}
      {s₁ s₂ s₃ s₄ : CompilerState}
      (ho : (liftM (Reader.symbol .openParen) : Compiler Token) s = .ok opening s₁)
      (hb : (liftM Reader.parenthesised : Compiler (List Token)) s₁ = .ok body s₂)
      (hp : Query.compileTokens env body s₂.outer s₂ = .ok plan s₃)
      (has : (liftM Reader.asName? : Compiler (Option String)) s₃ = .ok (some asName) s₄)
      (hr : r = .fresh s₄.nextRange asName (.derived plan) plan.columns opening.fragment)
      (ht : t = { s₄ with nextRange := s₄.nextRange + 1 })

theorem readSource_ok {r : Range} (h : readSource env s = .ok r t) : ReadsSource env s r t := by
  simp only [readSource, bind_ok] at h
  obtain ⟨opening, s₁, ho, h⟩ := h
  obtain ⟨c, hc, rfl⟩ := lift_reader_compiler_ok.1 ho
  cases opening with
  | none =>
    obtain ⟨rfl, -⟩ := Reader.ofKind?_none hc
    exact .relation h
  | some opening =>
    obtain ⟨hk, hrest⟩ := Reader.ofKind?_some hc
    -- asking for the bracket and reading it take the same token
    have hc' : Reader.symbol .openParen s.cursor = .ok opening c := by
      simp only [Reader.symbol?, Reader.ofKind?, bind_ok, get_ok] at hc
      obtain ⟨_, _, ⟨rfl, rfl⟩, hc⟩ := hc
      simp only [hrest, hk, ↓reduceIte, bind_ok, set_ok, pure_ok] at hc
      obtain ⟨_, _, rfl, -, rfl⟩ := hc
      simp only [Reader.symbol, Reader.ofKind, Reader.next, Reader.current, bind_ok, get_ok]
      refine ⟨_, _, ⟨rfl, rfl⟩, ?_⟩
      simp only [hrest, hk, ↓reduceIte, bind_ok, get_ok, modify_ok, pure_ok]
      refine ⟨opening, s.cursor, ⟨_, _, ⟨rfl, rfl⟩, ?_⟩, ⟨⟩, _, rfl, rfl, rfl⟩
      simp only [hrest]
      rfl
    simp only [readDerived, bind_ok, outerGroups_ok] at h
    obtain ⟨body, s₂, hbody, _, _, ⟨rfl, rfl⟩, plan, s₃, hplan, asName, s₄, has, h⟩ := h
    cases asName with
    | none =>
      simp only [bind_ok, reject_ok, and_false, exists_false] at h
    | some asName =>
      simp only [bind_ok, newRange_ok, pure_ok] at h
      obtain ⟨_, _, ⟨rfl, rfl⟩, rfl, rfl⟩ := h
      exact .derived (lift_reader_compiler_ok.2 ⟨c, hc', rfl⟩) hbody hplan has rfl rfl

/-- Values that are resolved and then moved, each in its turn. -/
theorem movedValues_ok {values values₂ : List Expr}
    (h : (values.mapM fun value => do
        let value ← value.resolve env scope
        target.onBase value : Compiler (List Expr)) s = .ok values₂ t) :
    ∃ values₁, values.mapM (fun value => value.resolve env scope) s = .ok values₁ t ∧
      List.Forall₂ (fun e e' => target.moved e = some e') values₁ values₂ := by
  refine mapM_bind_stays (fun e s e' t he => ?_) h
  obtain ⟨hmoved, rfl⟩ := ViewTarget.onBase_ok.1 he
  exact ⟨hmoved, rfl⟩

theorem resolveUpdate_ok {branch : UpdateBranch} {u : MergeUpdate}
    (h : resolveUpdate env target scope branch s = .ok u t) :
    ∃ guard s₁ values₁ values₂, resolveGuard env scope branch.guard s = .ok guard s₁ ∧
      branch.clause.values.mapM (fun value => value.resolve env scope) s₁ = .ok values₁ t ∧
      List.Forall₂ (fun e e' => target.moved e = some e') values₁ values₂ ∧
      target.assign branch.clause.columnMap values₂ t = .ok u.assignments t ∧
      target.moved guard = some u.guard := by
  simp only [resolveUpdate, bind_ok, pure_ok] at h
  obtain ⟨guard, s₁, hguard, values₂, s₂, hvalues, assignments, _, hassign, guard', _, hmoved, rfl,
    rfl⟩ := h
  obtain ⟨values₁, hvalues₁, hmoveds⟩ := movedValues_ok hvalues
  obtain ⟨-, rfl⟩ := ViewTarget.assign_ok hassign
  obtain ⟨hguard', rfl⟩ := ViewTarget.onBase_ok.1 hmoved
  exact ⟨guard, s₁, values₁, values₂, hguard, hvalues₁, hmoveds, hassign, hguard'⟩

theorem resolveDelete_ok {guard : Option Expr} {e : Expr}
    (h : resolveDelete env target scope guard s = .ok e t) :
    ∃ guard', resolveGuard env scope guard s = .ok guard' t ∧ target.moved guard' = some e := by
  simp only [resolveDelete, bind_ok] at h
  obtain ⟨guard', s₁, hguard, hbase⟩ := h
  obtain ⟨hmoved, rfl⟩ := ViewTarget.onBase_ok.1 hbase
  exact ⟨guard', hguard, hmoved⟩

theorem resolveInsert_ok {branch : InsertBranch} {i : MergeInsert}
    (h : resolveInsert env target scope branch s = .ok i t) :
    ∃ s₁ row, resolveGuard env scope branch.guard s = .ok i.guard s₁ ∧
      branch.row.resolve env scope s₁ = .ok row t ∧
      branch.columnMap.project target.columnMap = some i.columnMap ∧
      ColumnPolicy.insertRow target.relation.columns i.columnMap none row t = .ok i.row t := by
  simp only [resolveInsert, ViewTarget.project, ViewTarget.checkList, bind_ok, inRange_ok,
    pure_ok] at h
  obtain ⟨guard, s₁, hguard, row, s₂, hrow, map, _, ⟨hmap, rfl⟩, row', _, hinsert, checks, _, ⟨-, rfl⟩,
    rfl, rfl⟩ := h
  obtain ⟨rfl, -⟩ := ColumnPolicy.insertRow_ok hinsert
  exact ⟨s₁, row, hguard, hrow, hmap, hinsert⟩

theorem ifPresent_some {α β : Type} {step : α → Compiler β} {a? : Option α} {b : β}
    (h : ifPresent step a? s = .ok (some b) t) : ∃ a, a? = some a ∧ step a s = .ok b t := by
  cases a? with
  | none => cases (pure_ok.1 h).1
  | some a =>
    simp only [ifPresent, bind_ok, pure_ok, Option.some.injEq] at h
    obtain ⟨_, _, hstep, rfl, rfl⟩ := h
    exact ⟨a, rfl, hstep⟩

/-- The steps of a MERGE that compiles. -/
structure Run (env : Environment) (s : CompilerState) (m : MergeStatement) (t : CompilerState) where
  {s₁ s₂ s₃ s₄ s₅ s₆ s₇ s₈ s₉ s₁₀ s₁₁ s₁₂ : CompilerState}
  {merge into using' on : Token}
  {written source : Range}
  {on₀ on₁ on₂ : Expr}
  {branches : Branches}
  {target : ViewTarget}
  merge_ok : (liftM (Reader.keyword .MERGE) : Compiler Token) s = .ok merge s₁
  into_ok : (liftM (Reader.keyword .INTO) : Compiler Token) s₁ = .ok into s₂
  written_ok : Range.readTarget env .merge s₂ = .ok written s₃
  using_ok : (liftM (Reader.keyword .USING) : Compiler Token) s₃ = .ok using' s₄
  source_ok : ReadsSource env s₄ source s₅
  on_ok : (liftM (Reader.keyword .ON) : Compiler Token) s₅ = .ok on s₆
  parse_ok : (liftM Expr.parse : Compiler Expr) s₆ = .ok on₀ s₇
  names_ok : RangeGroup.ofRanges [source, written] = .ok [source, written]
  resolve_on : on₀.resolveCondition env ⟨[source, written], s₇.outer⟩ s₇ = .ok on₁ s₈
  branches_ok : (liftM (readBranches env written) : Compiler Branches) s₈ = .ok branches s₉
  target_ok : ViewTarget.resolve env written .merge s₉ = .ok target s₁₀
  update_ok : ifPresent (resolveUpdate env target ⟨[source, written], s₇.outer⟩) branches.update
    s₁₀ = .ok m.update s₁₁
  delete_ok : ifPresent (resolveDelete env target ⟨[source, written], s₇.outer⟩) branches.delete
    s₁₁ = .ok m.delete s₁₂
  insert_ok : ifPresent (resolveInsert env target ⟨[source], s₇.outer⟩) branches.insert s₁₂ =
    .ok m.insert t
  moved_on : target.moved on₁ = some on₂
  relation : m.target = target.relation
  writes : m.writeTables = [m.target.qualifiedName]
  condition : m.condition = (Expr.and? target.filter (some on₂)).getD .always
  ranges : m.ranges = JoinCondition.distribute [source,
    target.rangeFor ((m.update.map (·.assignments.values)).getD []) (some m.condition)]

theorem compile_ok {m : MergeStatement} (h : Merge.compile env s = .ok m t) :
    Nonempty (Run env s m t) := by
  obtain ⟨merge, s₁, hmerge, h⟩ := bind_ok.1 h
  obtain ⟨into, s₂, hinto, h⟩ := bind_ok.1 h
  obtain ⟨written, s₃, hwritten, h⟩ := bind_ok.1 h
  obtain ⟨using', s₄, husing, h⟩ := bind_ok.1 h
  obtain ⟨source, s₅, hsource, h⟩ := bind_ok.1 h
  obtain ⟨on, s₆, hon, h⟩ := bind_ok.1 h
  obtain ⟨on₀, s₇, hparse, h⟩ := bind_ok.1 h
  simp only [bind_ok, outerGroups_ok, lift_except_ok, pure_ok] at h
  obtain ⟨ranges, _, ⟨hranges, rfl⟩, _, _, ⟨rfl, rfl⟩, on₁, s₈, hresolve, h⟩ := h
  obtain ⟨branches, s₉, hbranches, target, s₁₀, htarget, h⟩ := h
  obtain ⟨update, s₁₁, hupdate, delete, s₁₂, hdelete, insert, s₁₃, hinsert, h⟩ := h
  obtain ⟨on₂, _, hbase, rfl, rfl⟩ := h
  obtain rfl := RangeGroup.ofRanges_ok hranges
  obtain ⟨hmoved, rfl⟩ := ViewTarget.onBase_ok.1 hbase
  exact ⟨⟨hmerge, hinto, hwritten, husing, readSource_ok hsource, hon, hparse, hranges, hresolve,
    hbranches, htarget, hupdate, hdelete, hinsert, hmoved, rfl, rfl, rfl, rfl⟩⟩

theorem Run.targets {m : MergeStatement} (run : Run env s m t) :
    Targets env s.cursor.rest .merge run.written run.s₃.cursor.rest :=
  .intro (targetTokens?_of_merge _ run.merge_ok run.into_ok) run.written_ok rfl

end Merge

end DataChange
