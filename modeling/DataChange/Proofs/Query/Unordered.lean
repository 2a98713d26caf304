import DataChange.Proofs.Catalog
import DataChange.Proofs.Frame
import DataChange.Proofs.Query.Formed
import DataChange.Proofs.SqlType
import DataChange.Proofs.Statement.CompileRuns
import DataChange.Proofs.Target.Pieces

/-!
# Common types in any order

Types that are joined one after the other come to the same in every order
(`SqlType.joinRow?_right_comm`). So the arguments of COALESCE have the same common type in every
order (`Expr.infer_coalesce`), and the rows of a VALUES query give its columns the same types
(`Query.addRows_iff`). In another order a row stands elsewhere, and its markers and the ranges of
its subqueries have other numbers. What it brings to the columns is the same, since expressions are
read and resolved alike however all this is numbered (`Query.rowTypes_eq`).
-/

namespace DataChange

open SqlType (join? joinRow? joinRow?_right_comm join?_right_comm)

/-- Steps that commute come to the same in every order. -/
theorem foldlM_perm {α β : Type} {step : β → α → Option β}
    (hcomm : ∀ b a c, (step b a).bind (step · c) = (step b c).bind (step · a)) {as as' : List α}
    (h : as.Perm as') (b : β) : as.foldlM step b = as'.foldlM step b := by
  induction h generalizing b with
  | nil => rfl
  | cons a _ ih =>
    rw [List.foldlM_cons, List.foldlM_cons]
    exact congrArg (step b a >>= ·) (funext ih)
  | swap a c as =>
    have hswap := congrArg (·.bind fun b => as.foldlM step b) (hcomm b c a)
    simpa only [List.foldlM_cons, Option.bind_eq_bind, Option.bind_assoc] using hswap
  | trans _ _ ih ih' => exact (ih b).trans (ih' b)

/-! ## Arguments -/

namespace Expr

theorem joinType_toOption (common : Option SqlType) (e : Expr) :
    (joinType common e).toOption = join? common e.type? := by
  unfold joinType
  cases e.type? with
  | none => cases common <;> rfl
  | some t =>
    cases common with
    | none => rfl
    | some current =>
      dsimp only [join?]
      cases SqlType.promote current t <;> rfl

/-- The type of an argument joined to the common one of those before it. -/
def joinArgument (common : Option SqlType) (e : Expr) : Option (Option SqlType) :=
  (asScalar e (infer e)).toOption.bind fun e => join? common e.type?

theorem joinArgument_right_comm (common : Option SqlType) (e e' : Expr) :
    (joinArgument common e).bind (joinArgument · e') =
      (joinArgument common e').bind (joinArgument · e) := by
  unfold joinArgument
  cases (asScalar e (infer e)).toOption with
  | none => simp
  | some d =>
    cases (asScalar e' (infer e')).toOption with
    | none => simp
    | some d' => exact join?_right_comm common d.type? d'.type?

theorem inferCommon_toOption (common : Option SqlType) (es : List Expr) :
    (inferCommon common es).toOption.map (·.2) = es.foldlM joinArgument common := by
  induction es generalizing common with
  | nil => rfl
  | cons e es ih =>
    rw [inferCommon, List.foldlM_cons, joinArgument]
    rcases asScalar e (infer e) with _ | e
    · rfl
    · show _ = join? common e.type? >>= fun joined => es.foldlM joinArgument joined
      rw [← joinType_toOption]
      dsimp only
      rcases joinType common e with _ | joined
      · rfl
      · show _ = es.foldlM joinArgument joined
        rw [← ih]
        dsimp only
        rcases inferCommon joined es with _ | ⟨_, _⟩ <;> rfl

/-- COALESCE has the common type of its arguments, if they have one. -/
theorem infer_coalesce (name : String) (arguments : List Expr) (fragment : Fragment)
    (type : Option SqlType) :
    (infer ⟨.call name (some .coalesce) arguments, fragment, type⟩).toOption.map (·.type?) =
      if arguments.isEmpty then none
      else (arguments.foldlM joinArgument none).bind fun common => common.map some := by
  rw [infer, ← inferCommon_toOption]
  split
  · rfl
  · rcases inferCommon none arguments with _ | ⟨_, _ | t⟩ <;> rfl

end Expr

/-! ## Rows -/

/-- The same texts, wherever they stand and however markers and ranges are numbered. -/
def Likeness.uncounted : Likeness where
  fold := id
  number _ := 0
  Near _ _ := True
  foldCase_eq h := congrArg Text.foldCase h
  fold_append := anywhere.fold_append
  number_succ _ := rfl
  near_absent := trivial
  near_synthetic _ := trivial
  near_withText _ _ := trivial

/-- Resolving an expression leads to a state of the same places. -/
theorem CompilerState.Respelled.resolves {s t u : CompilerState} (h : s.Respelled .uncounted t)
    (hresolves : Resolves t u) : s.Respelled .uncounted u := by
  refine ⟨⟨?_, rfl⟩, ?_, ?_, rfl⟩
  · rw [hresolves.cursor]
    exact h.cursor
  · rw [hresolves.outer]
    exact h.outer
  · rw [hresolves.calls]
    exact h.calls

namespace Expr

/-- The type that a cell brings to its column; DEFAULT can be no cell. -/
def brought (cell : Expr) : Option (Option SqlType) :=
  if cell.isDefault then none else some cell.type?

theorem Respelled.brought {P : Likeness} {e e' : Expr} (h : e.Respelled P e') :
    e'.brought = e.brought := by
  rw [Expr.brought, Expr.brought, h.isDefault, h.type]

end Expr

namespace Query

variable {P : Likeness} {compile : QueryCompiler} {outer : List RangeGroup} {degree : Nat}
  {s t u : CompilerState}

theorem joinCell_toOption (type : Option SqlType) (cell : Expr) :
    (joinCell type cell).toOption = cell.brought.bind (join? type) := by
  unfold joinCell Expr.brought
  split
  · rfl
  · rw [Option.bind_some]
    cases cell.type? with
    | none => cases type <;> rfl
    | some t =>
      cases type with
      | none => rfl
      | some current =>
        dsimp only [join?]
        cases SqlType.promote current t <;> rfl

theorem joinCell_ok {type joined : Option SqlType} {cell : Expr} :
    joinCell type cell = .ok joined ↔ cell.brought.bind (join? type) = some joined := by
  rw [← joinCell_toOption]
  cases joinCell type cell <;> simp [Except.toOption]

/-- The types of the columns joined with those of the cells of a row. -/
def joinCells (types : List (Option SqlType)) (cells : List Expr) :
    Option (List (Option SqlType)) :=
  (cells.mapM Expr.brought).bind (joinRow? types)

theorem joinCells_cons (type : Option SqlType) (types : List (Option SqlType)) (cell : Expr)
    (cells : List Expr) :
    joinCells (type :: types) (cell :: cells) =
      (cell.brought.bind (join? type)).bind fun joined =>
        (joinCells types cells).map (joined :: ·) := by
  unfold joinCells
  rw [List.mapM_cons]
  cases cell.brought with
  | none => rfl
  | some t =>
    cases cells.mapM Expr.brought with
    | none => cases h : join? type t <;> simp [h]
    | some ts =>
      show joinRow? (type :: types) (t :: ts) = _
      rw [joinRow?]
      cases h : join? type t <;> simp [h, Option.map_eq_bind]

theorem joinCells_nil (cell : Expr) (cells : List Expr) :
    joinCells [] (cell :: cells) =
      (cell.brought.bind (join? none)).bind fun joined =>
        if joined.isSome then none else joinCells [] cells := by
  unfold joinCells
  rw [List.mapM_cons]
  cases cell.brought with
  | none => rfl
  | some t =>
    cases t with
    | none => cases cells.mapM Expr.brought <;> rfl
    | some t => cases cells.mapM Expr.brought <;> rfl

theorem joinRow_ok {types joined : List (Option SqlType)} {cells : List Expr} :
    joinRow types cells s = .ok joined t ↔ joinCells types cells = some joined ∧ s = t := by
  induction cells generalizing types joined s t with
  | nil => cases types <;> simp [joinRow, pure_ok, joinCells]
  | cons cell cells ih =>
    -- beyond the columns that are there a cell can only be joined if it has no type
    cases types with
    | nil =>
      simp only [joinRow, bind_ok, lift_except_ok, joinCell_ok, joinCells_nil,
        Option.bind_eq_some_iff]
      constructor
      · rintro ⟨type, _, ⟨htype, rfl⟩, h⟩
        cases type with
        | none =>
          obtain ⟨hrest, rfl⟩ := ih.1 h
          exact ⟨⟨none, htype, hrest⟩, rfl⟩
        | some type => exact (throw_ok.1 h).elim
      · rintro ⟨⟨type, htype, hrest⟩, rfl⟩
        cases type with
        | none => exact ⟨none, s, ⟨htype, rfl⟩, ih.2 ⟨hrest, rfl⟩⟩
        | some type => cases hrest
    | cons type types =>
      simp only [joinRow, bind_ok, lift_except_ok, pure_ok, joinCell_ok, joinCells_cons, ih,
        Option.bind_eq_some_iff, Option.map_eq_some_iff]
      constructor
      · rintro ⟨type, _, ⟨htype, rfl⟩, types, _, ⟨htypes, rfl⟩, rfl, rfl⟩
        exact ⟨⟨type, htype, types, htypes, rfl⟩, rfl⟩
      · rintro ⟨⟨type, htype, types, htypes, rfl⟩, rfl⟩
        exact ⟨type, s, ⟨htype, rfl⟩, types, s, ⟨htypes, rfl⟩, rfl, rfl⟩

/-- The types of the cells of a row, resolved in a state, if it has the degree of the others. -/
def rowTypes (compile : QueryCompiler) (outer : List RangeGroup) (degree : Nat) (s : CompilerState)
    (row : Expr) : Option (List (Option SqlType)) :=
  if row.degree = degree then
    match (asRow row).resolveWith compile (.outerOnly outer) s with
    | .ok row _ => row.children.mapM Expr.brought
    | .error _ _ => none
  else none

theorem brought_eq {cells cells' : List Expr} (h : List.Forall₂ (Expr.Respelled P) cells cells') :
    cells'.mapM Expr.brought = cells.mapM Expr.brought := by
  induction h with
  | nil => rfl
  | cons h _ ih => rw [List.mapM_cons, List.mapM_cons, h.brought, ih]

/-- Where a row stands and how things are numbered has no part in the types of its cells. -/
theorem rowTypes_eq (hcompile : QueriesTrack P compile) {row row' : Expr}
    (h : row.Respelled P row') (hs : s.Respelled P t) :
    rowTypes compile outer degree t row' = rowTypes compile outer degree s row := by
  have hscope : (Scope.outerOnly outer).Respelled P (.outerOnly outer) := .outerOnly rfl
  have hends := (Expr.resolveWith_tracks hcompile hscope (asRow_respelled h)).run hs
  unfold rowTypes
  rw [h.degree]
  generalize (asRow row).resolveWith compile (.outerOnly outer) s = r at hends
  generalize (asRow row').resolveWith compile (.outerOnly outer) t = r' at hends
  cases hends with
  | ok hrow _ =>
    dsimp only
    rw [brought_eq hrow.children]
  | error => rfl

/-- The types of the columns joined with those of a further row. -/
def joinTypes (compile : QueryCompiler) (outer : List RangeGroup) (degree : Nat) (s : CompilerState)
    (types : List (Option SqlType)) (row : Expr) : Option (List (Option SqlType)) :=
  (rowTypes compile outer degree s row).bind (joinRow? types)

theorem joinTypes_right_comm (types : List (Option SqlType)) (row row' : Expr) :
    (joinTypes compile outer degree s types row).bind (joinTypes compile outer degree s · row') =
      (joinTypes compile outer degree s types row').bind
        (joinTypes compile outer degree s · row) := by
  unfold joinTypes
  cases rowTypes compile outer degree s row with
  | none => simp
  | some ts =>
    cases rowTypes compile outer degree s row' with
    | none => simp
    | some us => exact joinRow?_right_comm types ts us

theorem addRow_iff {types joined : List (Option SqlType)} {rows : List Expr} {row : Expr} :
    (∃ rows' t, addRow compile outer degree (types, rows) row s = .ok (joined, rows') t) ↔
      joinTypes compile outer degree s types row = some joined := by
  unfold joinTypes rowTypes
  constructor
  · rintro ⟨rows', t, h⟩
    obtain ⟨hdegree, row', hrow, hjoin, -⟩ := addRow_ok h
    rw [if_pos hdegree, hrow]
    exact (joinRow_ok.1 hjoin).1
  · intro h
    split at h
    · next hdegree =>
      cases hrow : (asRow row).resolveWith compile (.outerOnly outer) s with
      | error => simp [hrow] at h
      | ok row' t =>
        rw [hrow] at h
        have hjoin : joinRow types row'.children t = .ok joined t := joinRow_ok.2 ⟨h, rfl⟩
        refine ⟨rows ++ [row'], t, ?_⟩
        rw [addRow, if_neg (not_not.2 hdegree)]
        exact bind_ok.2 ⟨row', t, hrow, bind_ok.2 ⟨joined, t, hjoin, rfl⟩⟩
    · cases h

theorem addRow_resolves (hresolves : ResolvesQueries compile)
    {sofar sofar' : List (Option SqlType) × List Expr} {row : Expr}
    (h : addRow compile outer degree sofar row s = .ok sofar' t) : Resolves s t := by
  obtain ⟨-, row', hrow, -, -⟩ := addRow_ok h
  exact Expr.resolveWith_resolves hresolves hrow

/-- Rows that are added one after the other give the types that they give in one state. -/
theorem addRows_iff (hcompile : QueriesTrack .uncounted compile)
    (hresolves : ResolvesQueries compile) {types joined : List (Option SqlType)}
    {rows sofar : List Expr} (hrows : ∀ row ∈ rows, row.Respelled .uncounted row)
    (hs : s.Respelled .uncounted u) :
    (∃ rows' t, rows.foldlM (addRow compile outer degree) (types, sofar) u =
        .ok (joined, rows') t) ↔
      rows.foldlM (joinTypes compile outer degree s) types = some joined := by
  induction rows generalizing types sofar u with
  | nil => simp [pure_ok]
  | cons row rows ih =>
    have hrow : joinTypes compile outer degree u types row =
        joinTypes compile outer degree s types row := by
      unfold joinTypes
      rw [rowTypes_eq hcompile (hrows row (by simp)) hs]
    have hmore : ∀ r ∈ rows, r.Respelled .uncounted r := fun r hr => hrows r (by simp [hr])
    rw [List.foldlM_cons, List.foldlM_cons, Option.bind_eq_bind, Option.bind_eq_some_iff, ← hrow]
    constructor
    · rintro ⟨rows', t, h⟩
      obtain ⟨⟨next, sofar'⟩, v, hadd, hrest⟩ := bind_ok.1 h
      have hv := hs.resolves (addRow_resolves hresolves hadd)
      exact ⟨next, addRow_iff.1 ⟨sofar', v, hadd⟩, (ih hmore hv).1 ⟨rows', t, hrest⟩⟩
    · rintro ⟨next, hnext, hrest⟩
      obtain ⟨sofar', v, hadd⟩ := addRow_iff.2 hnext
      have hv := hs.resolves (addRow_resolves hresolves hadd)
      obtain ⟨rows', t, hrest⟩ := (ih hmore hv).2 hrest
      exact ⟨rows', t, bind_ok.2 ⟨(next, sofar'), v, hadd, hrest⟩⟩

end Query

/-! ## Rows in another order -/

/-- What a token is, wherever it stands. -/
def Token.content (t : Token) : TokenKind × String :=
  (t.kind, t.text)

/-- What some tokens are, wherever they stand. -/
def contents (ts : List Token) : List (TokenKind × String) :=
  ts.map Token.content

theorem respelled_of_contents {ts ts' : List Token} (h : contents ts = contents ts') :
    List.Forall₂ (Token.Respelled .uncounted) ts ts' := by
  unfold contents at h
  rw [← List.forall₂_eq_eq_eq, List.forall₂_map_left_iff, List.forall₂_map_right_iff] at h
  refine h.imp fun t t' hcontent => ?_
  obtain ⟨hkind, htext⟩ := Prod.mk.inj hcontent
  exact ⟨hkind.symm, htext, trivial, fun _ => htext.symm⟩

/-- States before the same tokens but for their places, in the same surroundings. -/
theorem CompilerState.Respelled.of_contents {s t : CompilerState}
    (hrest : contents s.cursor.rest = contents t.cursor.rest) (houter : t.outer = s.outer)
    (hcalls : t.calls = s.calls) : s.Respelled .uncounted t :=
  ⟨⟨⟨trivial, respelled_of_contents hrest⟩, rfl⟩, by rw [houter], hcalls, rfl⟩

namespace Expr

/-- Some tokens are an expression, after a number of question marks. -/
def ReadsAs (value : List Token) (e : Expr) : Prop :=
  ∃ k l, readAlone value k = some (e, l)

theorem ReadsEach.readsAs {values : List (List Token)} {es : List Expr} {k m : Nat}
    (h : ReadsEach values k es m) : List.Forall₂ ReadsAs values es := by
  induction h with
  | nil => exact .nil
  | cons h _ ih => exact .cons ⟨_, _, h⟩ ih

/-- Some tokens that are read at one count of question marks are read at every count. -/
theorem ReadsWholly.of_read {value : List Token} (parameters : Nat)
    (h : (match parse ⟨.ofTokens value, parameters⟩ with
      | .ok _ s => s.cursor.rest.isEmpty
      | .error .. => false) = true) : ReadsWholly value := by
  intro n
  have hpaired : Reading.Respelled .uncounted ⟨.ofTokens value, parameters⟩ ⟨.ofTokens value, n⟩ :=
    ⟨.ofTokens (respelled_of_contents rfl), rfl⟩
  have hends := parse_tracks.run hpaired
  generalize parse ⟨.ofTokens value, parameters⟩ = r at h hends
  generalize parse ⟨.ofTokens value, n⟩ = r' at hends ⊢
  cases hends with
  | ok _ hs =>
    have hrest := hs.cursor.rest
    rw [List.isEmpty_iff.1 h, List.forall₂_nil_left_iff] at hrest
    exact ⟨_, _, rfl, hrest⟩
  | error => cases h

/-- The same tokens elsewhere are the same expression but for its numbers. -/
theorem ReadsAs.respelled {value value' : List Token} {e e' : Expr} (h : ReadsAs value e)
    (h' : ReadsAs value' e') (hcontents : contents value = contents value') :
    e.Respelled .uncounted e' := by
  obtain ⟨k, l, h⟩ := h
  obtain ⟨k', l', h'⟩ := h'
  have hpaired : Reading.Respelled .uncounted ⟨.ofTokens value, k⟩ ⟨.ofTokens value', k'⟩ :=
    ⟨.ofTokens (respelled_of_contents hcontents), rfl⟩
  have hends := parse_tracks.run hpaired
  unfold readAlone at h h'
  generalize parse ⟨.ofTokens value, k⟩ = r at h hends
  generalize parse ⟨.ofTokens value', k'⟩ = r' at h' hends
  cases hends with
  | ok he =>
    obtain ⟨rfl, -⟩ := Prod.mk.inj (Option.some.inj h)
    obtain ⟨rfl, -⟩ := Prod.mk.inj (Option.some.inj h')
    exact he
  | error => cases h

theorem readsAs_respelled {values values' : List (List Token)} {es es' : List Expr}
    (h : List.Forall₂ (fun value value' => contents value = contents value') values values')
    (hes : List.Forall₂ ReadsAs values es) (hes' : List.Forall₂ ReadsAs values' es') :
    List.Forall₂ (Expr.Respelled .uncounted) es es' := by
  induction h generalizing es es' with
  | nil =>
    cases hes
    cases hes'
    exact .nil
  | cons hcontents _ ih =>
    cases hes with
    | cons he hes =>
      cases hes' with
      | cons he' hes' => exact .cons (he.respelled he' hcontents) (ih hes hes')

theorem readsAs_self {values : List (List Token)} {es : List Expr}
    (h : List.Forall₂ ReadsAs values es) : ∀ e ∈ es, e.Respelled .uncounted e :=
  List.forall₂_same.1 (readsAs_respelled (List.forall₂_same.2 fun _ _ => rfl) h h)

/-- The rows of one list are, in another order, those of the other but for their numbers. -/
theorem readsAs_reordered {values values' : List (List Token)} {es es' : List Expr}
    (hperm : (values.map contents).Perm (values'.map contents))
    (hes : List.Forall₂ ReadsAs values es) (hes' : List.Forall₂ ReadsAs values' es') :
    ∃ ds, List.Forall₂ (Expr.Respelled .uncounted) es ds ∧ ds.Perm es' := by
  have hsame : List.Forall₂ (fun c value => c = contents value) (values'.map contents) values' := by
    rw [List.forall₂_map_left_iff]
    exact List.forall₂_same.2 fun _ _ => rfl
  obtain ⟨sorted, hsorted, hperm'⟩ := List.perm_comp_forall₂ hperm hsame
  obtain ⟨ds, hds, hperm''⟩ := List.perm_comp_forall₂ hperm' hes'
  rw [List.forall₂_map_left_iff] at hsorted
  exact ⟨ds, readsAs_respelled hsorted hes hds, hperm''⟩

end Expr

theorem Separated.length {pieces : List (List Token)} {tokens : List Token}
    (h : Separated pieces tokens) : tokens.length + 1 = (pieces.map (·.length + 1)).sum := by
  have hafter : ∀ {pieces : List (List Token)} {tokens : List Token}, AfterCommas pieces tokens →
      tokens.length = (pieces.map (·.length + 1)).sum := by
    intro pieces tokens h
    induction h with
    | nil => rfl
    | cons _ piece _ ih =>
      simp only [List.length_cons, List.length_append, List.map_cons, List.sum_cons, ih]
      omega
  cases h with
  | intro piece h =>
    simp only [List.length_append, List.map_cons, List.sum_cons, hafter h]
    omega

theorem Reader.openParens_run {opens ts : List Token}
    (hopens : ∀ t ∈ opens, t.kind = .symbol .openParen) (hts : Lacks (.symbol .openParen) ts)
    (past : List Token) :
    openParens ⟨past, opens ++ ts⟩ = .ok opens.length ⟨opens.reverse ++ past, ts⟩ := by
  have htake : (opens ++ ts).takeWhile (·.isSymbol .openParen) = opens := by
    rw [List.takeWhile_append_of_pos fun t ht => by simp [Token.isSymbol, hopens t ht]]
    cases ts with
    | nil => simp
    | cons t ts => simp [Token.isSymbol, hts t rfl]
  simp only [openParens, bind_ok, get_ok, set_ok, pure_ok]
  refine ⟨_, _, ⟨rfl, rfl⟩, (), _, rfl, ?_, ?_⟩
  · rw [htake]
  · rw [htake]
    simp [Cursor.advance]

/-- The tokens of a VALUES query, from the brackets before it to what comes after its rows. -/
structure ValuesQuery where
  opens : List Token
  values : Token
  rows : List (List Token)
  /-- The rows with commas between them. -/
  list : List Token
  rest : List Token
  opens_brackets : ∀ t ∈ opens, t.kind = .symbol .openParen
  values_keyword : values.kind = .keyword .VALUES
  rows_separated : Separated rows list
  rows_read : ∀ row ∈ rows, Expr.ReadsWholly row
  rest_ending : Ending rest
  rest_lacks : Lacks (.symbol .comma) rest

namespace ValuesQuery

def tokens (q : ValuesQuery) : List Token :=
  q.opens ++ q.values :: (q.list ++ q.rest)

/-- A query with the same rows in another order, and with the same tokens around them. -/
structure Reordered (q q' : ValuesQuery) : Prop where
  opens : q'.opens.length = q.opens.length
  rows : (q.rows.map contents).Perm (q'.rows.map contents)
  rest : contents q.rest = contents q'.rest

theorem Reordered.symm {q q' : ValuesQuery} (h : q.Reordered q') : q'.Reordered q :=
  ⟨h.opens.symm, h.rows.symm, h.rest.symm⟩

theorem Reordered.length {q q' : ValuesQuery} (h : q.Reordered q') :
    q'.tokens.length = q.tokens.length := by
  have hrows : (q.rows.map (·.length + 1)).sum = (q'.rows.map (·.length + 1)).sum := by
    have hlengths := (h.rows.map (·.length + 1)).sum_eq
    simpa [contents, Function.comp_def] using hlengths
  have hrest : q.rest.length = q'.rest.length := by
    simpa [contents] using congrArg List.length h.rest
  have hlist := q.rows_separated.length
  have hlist' := q'.rows_separated.length
  have hopens := h.opens
  simp only [tokens, List.length_append, List.length_cons]
  omega

end ValuesQuery

namespace Query

variable {env : Environment} {compile : QueryCompiler} {outer : List RangeGroup}
  {s t : CompilerState} {c c' : Cursor} {plan : Plan} {q q' : ValuesQuery}

/-- The rows of a VALUES query are read up to what comes after them. -/
theorem readRows_run (q : ValuesQuery) (hs : s.cursor.rest = q.values :: (q.list ++ q.rest)) :
    ∃ s₁ es u, (liftM (Reader.keyword .VALUES) : Compiler Token) s = .ok q.values s₁ ∧
      (liftM Expr.parseList : Compiler (List Expr)) s₁ = .ok es u ∧
      List.Forall₂ Expr.ReadsAs q.rows es ∧ u.cursor.rest = q.rest ∧ u.outer = s.outer ∧
      u.calls = s.calls := by
  obtain ⟨es, m, heach⟩ := Expr.exists_readsEach q.rows_read s.parameters
  obtain ⟨⟨⟨past, _⟩, k⟩, _⟩ := s
  obtain rfl : _ = _ := hs
  obtain ⟨r, hlist, -, hrest⟩ := Expr.parseList_pieces q.rows_read q.rows_separated
    (s := ⟨⟨q.values :: past, q.list ++ q.rest⟩, k⟩) heach q.rest_ending q.rest_lacks rfl
  exact ⟨_, es, _, lift_reader_compiler_run (Reader.keyword_present q.values_keyword),
    lift_parser_run hlist, heach.readsAs, hrest, rfl, rfl⟩

theorem joinTypes_degree {degree : Nat} {rows : List Expr} {types joined : List (Option SqlType)}
    (h : rows.foldlM (joinTypes compile outer degree s) types = some joined) :
    ∀ row ∈ rows, row.degree = degree := by
  induction rows generalizing types with
  | nil => simp
  | cons row rows ih =>
    rw [List.foldlM_cons] at h
    obtain ⟨next, hrow, hrest⟩ := Option.bind_eq_some_iff.1 h
    rw [List.forall_mem_cons]
    refine ⟨?_, ih hrest⟩
    by_contra hdegree
    simp [joinTypes, rowTypes, hdegree] at hrow

/-- In another order the rows give the columns the same types. -/
theorem joinTypes_reordered (hcompile : QueriesTrack .uncounted compile) {degree : Nat}
    {es ds es' : List Expr} (h : List.Forall₂ (Expr.Respelled .uncounted) es ds)
    (hperm : ds.Perm es') (hs : s.Respelled .uncounted s) (types : List (Option SqlType)) :
    es'.foldlM (joinTypes compile outer degree s) types =
      es.foldlM (joinTypes compile outer degree s) types := by
  have hsame : ds.foldlM (joinTypes compile outer degree s) types =
      es.foldlM (joinTypes compile outer degree s) types := by
    clear hperm
    induction h generalizing types with
    | nil => rfl
    | cons h _ ih =>
      rw [List.foldlM_cons, List.foldlM_cons, joinTypes, joinTypes, rowTypes_eq hcompile h hs]
      exact congrArg _ (funext ih)
  exact (foldlM_perm joinTypes_right_comm hperm types).symm.trans hsame

theorem compileValues_reordered (hcompile : QueriesTrack .uncounted compile)
    (hresolves : ResolvesQueries compile) (hq : q.Reordered q') {s s' t : CompilerState}
    (hs : s.cursor.rest = q.values :: (q.list ++ q.rest))
    (hs' : s'.cursor.rest = q'.values :: (q'.list ++ q'.rest)) (houter : s'.outer = s.outer)
    (hcalls : s'.calls = s.calls) (h : compileValues compile outer none s = .ok plan t) :
    ∃ plan' t', compileValues compile outer none s' = .ok plan' t' ∧ plan'.columns = plan.columns ∧
      t.cursor.rest = q.rest ∧ t'.cursor.rest = q'.rest := by
  obtain ⟨s₁, es, u, hvalues, hlist, hes, hrest, hu⟩ := readRows_run q hs
  obtain ⟨s₁', es', u', hvalues', hlist', hes', hrest', hu'⟩ := readRows_run q' hs'
  obtain ⟨_, _, _, _, joined, rows, types, degree, hvalues₂, hlist₂, hdegree, hadd, htypes, rfl⟩ :=
    compileValues_ok h
  obtain ⟨rfl, rfl⟩ := EStateM.Result.ok.inj (hvalues.symm.trans hvalues₂)
  obtain ⟨rfl, rfl⟩ := EStateM.Result.ok.inj (hlist.symm.trans hlist₂)
  have hself : u.Respelled .uncounted u := .of_contents rfl rfl rfl
  have hpaired : u.Respelled .uncounted u' :=
    .of_contents (by rw [hrest, hrest', hq.rest]) (hu'.1.trans (houter.trans hu.1.symm))
      (hu'.2.trans (hcalls.trans hu.2.symm))
  -- both queries join the types that the rows have in the state of the first one
  obtain ⟨ds, hds, hperm⟩ := Expr.readsAs_reordered hq.rows hes hes'
  have hjoined := (addRows_iff hcompile hresolves (Expr.readsAs_self hes) hself).1 ⟨rows, t, hadd⟩
  have hjoined' := (joinTypes_reordered hcompile hds hperm hself _).trans hjoined
  obtain ⟨rows', t', hadd'⟩ :=
    (addRows_iff hcompile hresolves (Expr.readsAs_self hes') hpaired).2 hjoined'
  have hdegree' : es'.head?.map (·.degree) = some degree := by
    cases es' with
    | nil =>
      rw [List.perm_nil.1 hperm, List.forall₂_nil_right_iff] at hds
      simp [hds] at hdegree
    | cons e' es' => exact congrArg some (joinTypes_degree hjoined' e' (by simp))
  have htypes' : columnTypes none q'.values.fragment 0 joined = .ok types := by
    have hplaces : q.values.fragment.Respelled .uncounted q'.values.fragment := trivial
    have hconcur := columnTypes_concur none hplaces 0 joined
    rw [htypes] at hconcur
    generalize columnTypes none q'.values.fragment 0 joined = r at hconcur
    cases hconcur with
    | ok h => rw [h]
  refine ⟨.values (types.mapIdx fun index type => ⟨columnName index, type⟩)
    (.untyped (.values (rows'.map (settleRow types))) q'.values.fragment), t', ?_, rfl, ?_, ?_⟩
  · simp only [compileValues, bind_ok, inRange_ok, lift_except_ok, pure_ok, Prod.exists]
    exact ⟨_, _, hvalues', _, _, hlist', _, _, ⟨hdegree', rfl⟩, _, _, _, hadd', _, _,
      ⟨htypes', rfl⟩, rfl, rfl⟩
  · rw [(foldlM_resolves (fun _ _ _ _ _ => addRow_resolves hresolves) hadd).cursor, hrest]
  · rw [(foldlM_resolves (fun _ _ _ _ _ => addRow_resolves hresolves) hadd').cursor, hrest']

/-- A query is compiled as VALUES if this is the keyword after the brackets. -/
theorem compileWithin_values (env : Environment) (outer : List RangeGroup) (bound : Nat)
    (q : ValuesQuery) (hs : s.cursor.rest = q.tokens) :
    ∃ s₁, s₁.cursor.rest = q.values :: (q.list ++ q.rest) ∧ s₁.outer = s.outer ∧
      s₁.calls = s.calls ∧ compileWithin env (bound + 1) outer none s =
        (do
          let plan ← compileValues (embedded (compileWithin env bound)) outer none
          Reader.closeParens q.opens.length
          return plan : Compiler Plan) s₁ := by
  obtain ⟨⟨⟨past, _⟩, k⟩, around, calls, next, queries⟩ := s
  obtain rfl : _ = _ := hs
  have hkind := q.values_keyword
  have hlacks : Lacks (.symbol .openParen) (q.values :: (q.list ++ q.rest)) :=
    .cons (by simp [hkind])
  refine ⟨⟨⟨⟨q.opens.reverse ++ past, q.values :: (q.list ++ q.rest)⟩, k⟩, around, calls, next,
    queries⟩, rfl, rfl, rfl, ?_⟩
  rw [compileWithin, bind_run (lift_reader_compiler_run
    (Reader.openParens_run q.opens_brackets hlacks past))]
  refine (bind_run (get_ok.2 ⟨rfl, rfl⟩)).trans ?_
  simp [Token.isKeyword, hkind]

theorem compile_reordered (hq : q.Reordered q') (hc : c.rest = q.tokens) (hc' : c'.rest = q'.tokens)
    (h : Query.compile env outer none { s with cursor := c } = .ok plan t) :
    ∃ plan' t', Query.compile env outer none { s with cursor := c' } = .ok plan' t' ∧
      plan'.columns = plan.columns := by
  have hlength : c'.rest.length = c.rest.length := by rw [hc, hc', hq.length]
  have hrun : ∀ c : Cursor, Query.compile env outer none { s with cursor := c } =
      compileWithin env (c.rest.length + 1) outer none { s with cursor := c } := fun c => rfl
  rw [hrun] at h ⊢
  rw [hlength]
  obtain ⟨s₁, hs₁, houter, hcalls, hwithin⟩ := compileWithin_values env outer c.rest.length q
    (s := { s with cursor := c }) hc
  obtain ⟨s₁', hs₁', houter', hcalls', hwithin'⟩ := compileWithin_values env outer c.rest.length q'
    (s := { s with cursor := c' }) hc'
  rw [hwithin] at h
  rw [hwithin']
  obtain ⟨_, t₁, hvalues, hbody⟩ := bind_ok.1 h
  obtain ⟨_, t₂, hclose, hplan⟩ := bind_ok.1 hbody
  obtain ⟨rfl, rfl⟩ := pure_ok.1 hplan
  obtain ⟨plan', t', hvalues', hcolumns, hrest, hrest'⟩ := compileValues_reordered
    (embedded_track (compileWithin_tracks env _))
    (embedded_resolves (compileWithin_keeps _)) hq hs₁ hs₁' (houter'.trans houter.symm)
    (hcalls'.trans hcalls.symm) hvalues
  obtain ⟨d, hd, -⟩ := lift_reader_compiler_ok.1 hclose
  -- the lists were read to their ends, so both queries stop before the same tokens
  have hpaired : t₁.cursor.Respelled .uncounted t'.cursor :=
    ⟨trivial, respelled_of_contents (by rw [hrest, hrest', hq.rest])⟩
  have hends := (Reader.closeParens_tracks q.opens.length).run hpaired
  rw [hd] at hends
  generalize hd' : Reader.closeParens q.opens.length t'.cursor = r at hends
  cases hends with
  | ok =>
    rw [← hq.opens] at hd'
    exact ⟨plan', _, bind_ok.2 ⟨plan', t', hvalues', bind_ok.2 ⟨(), _, lift_reader_compiler_run hd',
      rfl⟩⟩, hcolumns⟩

end Query

/-! ## Both -/

/-- Common types do not depend on the order. COALESCE of some arguments has the type that it has of
these arguments in another order, and none if it has none then. A VALUES query that is compiled
without expected types has the columns that it has with its rows in another order. -/
theorem commonTypes_unordered :
    (∀ (name : String) (f f' : Fragment) (type type' : Option SqlType)
      (arguments arguments' : List Expr), arguments.Perm arguments' →
      ∀ common, (∃ e, Expr.infer ⟨.call name (some .coalesce) arguments, f, type⟩ = .ok e ∧
          e.type? = common) ↔
        ∃ e, Expr.infer ⟨.call name (some .coalesce) arguments', f', type'⟩ = .ok e ∧
          e.type? = common) ∧
    ∀ (env : Environment) (outer : List RangeGroup) (q q' : ValuesQuery) (s : CompilerState)
      (c c' : Cursor), q.Reordered q' → c.rest = q.tokens → c'.rest = q'.tokens →
      ∀ columns, (∃ plan t, Query.compile env outer none { s with cursor := c } = .ok plan t ∧
          plan.columns = columns) ↔
        ∃ plan t, Query.compile env outer none { s with cursor := c' } = .ok plan t ∧
          plan.columns = columns := by
  constructor
  · intro name f f' type type' arguments arguments' hperm common
    have hempty : arguments'.isEmpty = arguments.isEmpty := by
      rw [Bool.eq_iff_iff, List.isEmpty_iff, List.isEmpty_iff]
      exact ⟨fun h => (h ▸ hperm).eq_nil, fun h => (h ▸ hperm).symm.eq_nil⟩
    have hsame := Expr.infer_coalesce name arguments f type
    rw [foldlM_perm Expr.joinArgument_right_comm hperm, ← hempty,
      ← Expr.infer_coalesce name arguments' f' type'] at hsame
    have hresult : ∀ r : Except Error Expr, (∃ e, r = .ok e ∧ e.type? = common) ↔
        r.toOption.map (·.type?) = some common := by
      rintro (_ | e) <;> simp [Except.toOption]
    rw [hresult, hresult, hsame]
  · intro env outer q q' s c c' hq hc hc' columns
    constructor
    · rintro ⟨plan, t, h, rfl⟩
      exact Query.compile_reordered hq hc hc' h
    · rintro ⟨plan, t, h, rfl⟩
      exact Query.compile_reordered hq.symm hc' hc h

/-- A row of a question mark and 1. -/
def markerRow (column : Nat) : List Token :=
  [⟨.symbol .openParen, .written "(" 1 column, rfl⟩,
    ⟨.parameter, .written "?" 1 (column + 1), rfl⟩,
    ⟨.symbol .comma, .written "," 1 (column + 2), rfl⟩,
    ⟨.integer, .written "1" 1 (column + 4), (by decide : TokenKind.integer.isSpelledBy "1" = true)⟩,
    ⟨.symbol .closeParen, .written ")" 1 (column + 5), rfl⟩]

/-- A row of the text a and 2.5. -/
def textRow (column : Nat) : List Token :=
  [⟨.symbol .openParen, .written "(" 1 column, rfl⟩,
    ⟨.string, .written "a" 1 (column + 1), rfl⟩,
    ⟨.symbol .comma, .written "," 1 (column + 4), rfl⟩,
    ⟨.decimal, .written "2.5" 1 (column + 6), rfl⟩,
    ⟨.symbol .closeParen, .written ")" 1 (column + 9), rfl⟩]

theorem markerRow_readsWholly (column : Nat) : Expr.ReadsWholly (markerRow column) :=
  .of_read 0 (by cbv)

theorem textRow_readsWholly {column : Nat} (h : column = 9 ∨ column = 17) :
    Expr.ReadsWholly (textRow column) := by
  rcases h with rfl | rfl <;> exact .of_read 0 (by decide +kernel)

def markerFirst : ValuesQuery where
  opens := [⟨.symbol .openParen, .written "(" 1 1, rfl⟩]
  values := ⟨.keyword .VALUES, .written "VALUES" 1 2, rfl⟩
  rows := [markerRow 9, textRow 17]
  list := markerRow 9 ++ ⟨.symbol .comma, .written "," 1 15, rfl⟩ :: (textRow 17 ++ [])
  rest := [⟨.symbol .closeParen, .written ")" 1 27, rfl⟩]
  opens_brackets := by simp
  values_keyword := rfl
  rows_separated := .intro _ (.cons rfl _ .nil)
  rows_read := by
    simp only [List.mem_cons, List.not_mem_nil, or_false]
    rintro _ (rfl | rfl)
    · exact markerRow_readsWholly 9
    · exact textRow_readsWholly (.inr rfl)
  rest_ending := .cons (by decide)
  rest_lacks := .cons (by decide)

def markerLast : ValuesQuery where
  opens := [⟨.symbol .openParen, .written "(" 1 1, rfl⟩]
  values := ⟨.keyword .VALUES, .written "VALUES" 1 2, rfl⟩
  rows := [textRow 9, markerRow 21]
  list := textRow 9 ++ ⟨.symbol .comma, .written "," 1 19, by decide⟩ :: (markerRow 21 ++ [])
  rest := [⟨.symbol .closeParen, .written ")" 1 27, rfl⟩]
  opens_brackets := by simp
  values_keyword := rfl
  rows_separated := .intro _ (.cons rfl _ .nil)
  rows_read := by
    simp only [List.mem_cons, List.not_mem_nil, or_false]
    rintro _ (rfl | rfl)
    · exact textRow_readsWholly (.inl rfl)
    · exact markerRow_readsWholly 21
  rest_ending := .cons (by decide)
  rest_lacks := .cons (by decide)

theorem markerFirst_reordered : markerFirst.Reordered markerLast where
  opens := rfl
  rows := .swap _ _ _
  rest := rfl

set_option maxRecDepth 10000 in
/-- A question mark contributes no type, be it the first or the last. -/
theorem commonTypes_unordered_marker :
    (∃ e, Expr.infer ⟨.call "COALESCE" (some .coalesce) [.literal (.varchar "a") .absent,
        .literal .null .absent, .untyped (.parameter ⟨0, false, false⟩) .absent], .absent, none⟩ =
          .ok e ∧ e.type? = some .varchar) ∧
    tokenize "(VALUES ('a', 2.5), (?, 1))" = .ok markerLast.tokens ∧
    ∃ plan t, Query.compile .bank [] none
        { CompilerState.initial with cursor := .ofTokens markerLast.tokens } = .ok plan t ∧
      plan.columns = [⟨"C1", .varchar⟩, ⟨"C2", .double⟩] := by
  refine ⟨?_, Statement.tokenize_eq rfl (by decide +kernel), ?_⟩
  · refine (commonTypes_unordered.1 "COALESCE" .absent .absent none none
      [.untyped (.parameter ⟨0, false, false⟩) .absent, .literal .null .absent,
        .literal (.varchar "a") .absent] _ (List.reverse_perm _).symm _).1 ?_
    exact ⟨_, rfl, rfl⟩
  · obtain ⟨tokens, plan, t, htokens, hcompile, hcolumns⟩ := Query.exists_plan .bank
      "(VALUES (?, 1), ('a', 2.5))"
      (fun plan => plan.columns = [⟨"C1", .varchar⟩, ⟨"C2", .double⟩]) rfl (by decide +kernel)
    have hfirst : tokenize "(VALUES (?, 1), ('a', 2.5))" = .ok markerFirst.tokens :=
      Statement.tokenize_eq rfl (by decide +kernel)
    obtain rfl := Except.ok.inj (htokens.symm.trans hfirst)
    exact (commonTypes_unordered.2 .bank [] markerFirst markerLast .initial
      (.ofTokens markerFirst.tokens) _ markerFirst_reordered rfl rfl _).1
      ⟨plan, t, hcompile, by simpa using hcolumns⟩

end DataChange
