import DataChange.Proofs.Statement.Spread
import DataChange.Proofs.Target.Pieces

/-!
# Grouped and separate assignments

An UPDATE assigns a row of values to a group of columns, or each column its own value. What follows
the assignments is compiled alike for both (`Update.afterClause_tracks`): the row is resolved, moved
and assigned item by item.
-/

namespace DataChange

variable {P : Likeness} {env : Environment}

/-! ## The rest of an UPDATE -/

theorem respelled_of_same {tokens tokens' : List Token}
    (h : tokens.map (fun x => (x.kind, x.text)) = tokens'.map fun x => (x.kind, x.text)) :
    List.Forall₂ (Token.Respelled .anywhere) tokens tokens' := by
  rw [← List.forall₂_eq_eq_eq, List.forall₂_map_left_iff, List.forall₂_map_right_iff] at h
  refine h.imp fun x x' hx => ?_
  obtain ⟨hkind, htext⟩ := Prod.mk.inj hx
  exact ⟨hkind.symm, htext, trivial, fun _ => htext.symm⟩

theorem respelled_anywhere (tokens : List Token) :
    List.Forall₂ (Token.Respelled .anywhere) tokens tokens :=
  respelled_of_same rfl

/-- Every filter is spelled like itself. -/
theorem Range.filtersIn_anywhere (range : Range) (operation : Operation) :
    range.FiltersIn .anywhere env operation := by
  intro _ text _ _
  unfold Likeness.Holds
  cases tokenize text with
  | error e => exact .error trivial
  | ok tokens => exact .ok (respelled_anywhere tokens)

namespace Update

/-- What an UPDATE does once its assignments are read. -/
def afterClause (env : Environment) (written : Range) (clause : SetClause) :
    Compiler UpdateStatement := do
  let condition ← Query.readCondition
  let slice ← Slice.read? env [written]
  let scope : Scope := ⟨[written], ← Compiler.outerGroups⟩
  let values ← clause.values.mapM fun value => value.resolve env scope
  let condition ← Query.resolveCondition? (Query.compileTokens env) scope condition
  let target ← ViewTarget.resolve env written .update
  let values ← values.mapM target.onBase
  let condition ← target.onBase? condition
  let slice ← target.sliceOnBase slice
  let assignments ← target.assign clause.columnMap values
  let condition := Expr.and? target.filter condition
  return {
    target := target.relation
    ranges := JoinCondition.distribute [target.rangeFor assignments.values condition]
    condition := condition
    assignments := assignments
    slice := slice
    writeTables := [target.relation.qualifiedName] }

theorem compile_eq (env : Environment) : compile env = (do
    let _ ← Reader.keyword .UPDATE
    let written ← Range.readTarget env .update
    let _ ← Reader.keyword .SET
    let clause ← SetClause.read env.config.dialect.mysql written
    afterClause env written clause) :=
  rfl

/-- A clause with a row of values, and one of the same columns with the items. -/
structure Spread (clause clause' : SetClause) : Prop where
  columnMap : clause'.columnMap = clause.columnMap
  values : Expr.RowOf .anywhere clause.values clause'.values

theorem afterClause_tracks {written written' : Range} {clause clause' : SetClause}
    (hwritten : written.Respelled .anywhere written') (hclause : Spread clause clause') :
    Tracks (.lenient .anywhere)
      (fun u u' => u.assignments.AlikeBySlot .anywhere u'.assignments)
      (afterClause env written clause) (afterClause env written' clause') := by
  refine Query.readCondition_tracks.lenient.bind fun _ _ hcondition => ?_
  refine (Slice.read?_tracks env (.cons hwritten .nil)).lenient.bind fun _ _ hslice => ?_
  refine Tracks.outerGroups.lenient.bind fun outer outer' houter => ?_
  have hscope : Scope.Respelled .anywhere ⟨[written], outer⟩ ⟨[written'], outer'⟩ :=
    ⟨.cons hwritten .nil, houter⟩
  refine (hclause.values.resolve env hscope).bind fun _ _ hvalues => ?_
  refine (Query.resolveCondition?_tracks (Query.compileTokens_track env) hscope
    hcondition).lenient.bind fun _ _ hcondition => ?_
  refine (ViewTarget.resolve_tracks hwritten
    (written.filtersIn_anywhere .update)).lenient.bind fun target target' h => ?_
  refine (hvalues.onBase h).bind fun _ _ hvalues => ?_
  refine (ViewTarget.onBase?_tracks h hcondition).lenient.bind fun _ _ _ => ?_
  refine (ViewTarget.sliceOnBase_tracks h hslice).lenient.bind fun _ _ _ => ?_
  rw [hclause.columnMap]
  exact (hvalues.assign h _).bind fun _ _ ha => .pure ha

end Update

/-! ## The assignments of two texts -/

/-- States of two compilations before some tokens of their own, otherwise the same. -/
structure CompilerState.Apart (ts ts' : List Token) (s s' : CompilerState) : Prop where
  rest : s.cursor.rest = ts
  rest' : s'.cursor.rest = ts'
  parameters : s'.parameters = s.parameters
  outer : Likeness.anywhere.faces s.outer = Likeness.anywhere.faces s'.outer
  calls : s'.calls = s.calls
  nextRange : s'.nextRange = s.nextRange

def Tracking.apart (ts ts' : List Token) : Tracking Failure CompilerState :=
  ⟨CompilerState.Apart ts ts', fun _ _ => True⟩

section

variable {α β γ δ : Type} {R : α → β → Prop} {S : γ → δ → Prop} {ts ts' us us' : List Token}
  {s s' : CompilerState}

/-- A sequence after which the states are paired in another way. -/
theorem Tracking.Ends.switch {ε σ : Type} {K L : Tracking ε σ} {x : EStateM ε σ α}
    {y : EStateM ε σ β} {f : α → EStateM ε σ γ} {g : β → EStateM ε σ δ} {s s' : σ}
    (hx : K.Ends R (x s) (y s')) (hfail : ∀ e e', K.Fail e e' → L.Fail e e')
    (hf : ∀ a b t t', R a b → K.Paired t t' → L.Ends S (f a t) (g b t')) :
    L.Ends S ((x >>= f) s) ((y >>= g) s') := by
  show L.Ends S (EStateM.bind x f s) (EStateM.bind y g s')
  unfold EStateM.bind
  generalize x s = r at hx
  generalize y s' = r' at hx
  cases hx with
  | ok h hs => exact hf _ _ _ _ h hs
  | error h => exact .error (hfail _ _ h)

theorem Foretold.ends {ε σ : Type} {K : Tracking ε σ} {o : Option γ} {o' : Option δ}
    {A : γ → α → σ → Prop} {B : δ → β → σ → Prop} {r : EStateM.Result ε σ α}
    {r' : EStateM.Result ε σ β} (h : Foretold A o r) (h' : Foretold B o' r')
    (ho : Option.Rel S o o') (hfail : ∀ e e', K.Fail e e')
    (hok : ∀ c d a b t t', S c d → A c a t → B d b t' → R a b ∧ K.Paired t t') :
    K.Ends R r r' := by
  cases ho with
  | none =>
    cases h
    cases h'
    exact .error (hfail _ _)
  | some hcd =>
    obtain ⟨ha⟩ := h
    obtain ⟨hb⟩ := h'
    obtain ⟨hab, ht⟩ := hok _ _ _ _ _ _ hcd ha hb
    exact .ok hab ht

theorem Foretold.lifted {o : Option γ} {A : γ → α → Reading → Prop} {x : Parser α}
    (h : Foretold A o (x s.toReading)) :
    Foretold (fun c a t => A c a t.toReading ∧ t = { s with toReading := t.toReading }) o
      ((liftM x : Compiler α) s) := by
  generalize hx : x s.toReading = r at h
  cases h with
  | ok h =>
    rw [lift_parser_run hx]
    exact .ok ⟨h, rfl⟩
  | error =>
    rw [lift_parser_fail hx]
    exact .error

/-- Both read tokens of their own. -/
theorem CompilerState.Apart.read {x : Reader α} {y : Reader β} {a : α} {b : β}
    (hs : s.Apart ts ts' s') (hx : ∀ past, ∃ past', x ⟨past, ts⟩ = .ok a ⟨past', us⟩)
    (hy : ∀ past, ∃ past', y ⟨past, ts'⟩ = .ok b ⟨past', us'⟩) (hab : R a b) :
    (Tracking.apart us us').Ends R ((liftM x : Compiler α) s) ((liftM y : Compiler β) s') := by
  obtain ⟨⟨⟨past, _⟩, _⟩, _⟩ := s
  obtain ⟨⟨⟨past', _⟩, _⟩, _⟩ := s'
  obtain ⟨rfl, rfl, hparameters, houter, hcalls, hnext⟩ := hs
  obtain ⟨_, hx⟩ := hx past
  obtain ⟨_, hy⟩ := hy past'
  rw [lift_reader_compiler_run hx, lift_reader_compiler_run hy]
  exact .ok hab ⟨rfl, rfl, hparameters, houter, hcalls, hnext⟩

theorem Tracks.except_apart {x : Except Error α} {y : Except Error β} (h : Concur P R x y) :
    Tracks (.apart ts ts') R (liftM x : Compiler α) (liftM y : Compiler β) := by
  cases h with
  | ok hab => exact fun _ _ hs => .ok hab hs
  | error => exact fun _ _ _ => .error trivial

theorem Tracks.newRange_apart :
    Tracks (.apart ts ts') (· = ·) Compiler.newRange Compiler.newRange :=
  fun _ _ hs => .ok hs.nextRange.symm
    ⟨hs.rest, hs.rest', hs.parameters, hs.outer, hs.calls, congrArg (· + 1) hs.nextRange⟩

end

/-! ### Targets -/

/-- Tokens that name the relation that is changed, and maybe an alias. -/
inductive TargetTokens : List Token → QualifiedName × Fragment → Option String → Prop
  | plain {names : List Token} {name : QualifiedName} {f : Fragment} (h : NameTokens names name f) :
      TargetTokens names (name, f) none
  | called {names : List Token} {name : QualifiedName} {f : Fragment} {x : Token}
      (h : NameTokens names name f) (hx : x.kind = .identifier ∨ x.kind = .quotedIdentifier) :
      TargetTokens (names ++ [x]) (name, f) (some x.text)
  | calledAs {names : List Token} {name : QualifiedName} {f : Fragment} {as x : Token}
      (h : NameTokens names name f) (has : as.kind = .keyword .AS) (hx : x.isIdentifier = true) :
      TargetTokens (names ++ [as, x]) (name, f) (some x.text)

/-- A target is read up to SET. -/
theorem TargetTokens.read {target : List Token} {name : QualifiedName × Fragment}
    {asName : Option String} (h : TargetTokens target name asName) {set : Token} (ts : List Token)
    (hset : set.kind = .keyword .SET) :
    ∃ us, (∀ past, ∃ past', Reader.qualifiedName ⟨past, target ++ set :: ts⟩ = .ok name ⟨past', us⟩) ∧
      ∀ past, ∃ past', Reader.asName? ⟨past, us⟩ = .ok asName ⟨past', set :: ts⟩ := by
  cases h with
  | plain h =>
    refine ⟨set :: ts, fun past => ⟨_, h.read hset⟩, fun past => ⟨past, ?_⟩⟩
    rw [Reader.asName?, bind_run (Reader.skipKeyword_other hset (by decide))]
    simp only [Bool.false_eq_true, ↓reduceIte, bind_ok, get_ok]
    exact ⟨_, _, ⟨rfl, rfl⟩, by simp [hset, pure_ok]⟩
  | @called names _ _ x h hx =>
    have hdot : Lacks (.symbol .dot) (x :: set :: ts) := .cons (by rcases hx with hx | hx <;> simp [hx])
    refine ⟨x :: set :: ts, fun past => ⟨_, by simpa using h.read_lacks hdot⟩,
      fun past => ⟨x :: past, ?_⟩⟩
    have habsent : Reader.skipKeyword .AS ⟨past, x :: set :: ts⟩ = .ok false ⟨past, x :: set :: ts⟩ := by
      refine Reader.skipKeyword_absent fun t' ts' ht => ?_
      obtain ⟨rfl, -⟩ := List.cons.inj ht
      rcases hx with hx | hx <;> simp [hx]
    rw [Reader.asName?, bind_run habsent]
    simp only [Bool.false_eq_true, ↓reduceIte, bind_ok, get_ok]
    refine ⟨_, _, ⟨rfl, rfl⟩, ?_⟩
    have hname : (x.kind = .identifier || x.kind = .quotedIdentifier) = true := by simpa using hx
    simp only [hname, ↓reduceIte]
    rfl
  | @calledAs names _ _ as x h has hx =>
    refine ⟨as :: x :: set :: ts, fun past => ⟨_, by simpa using h.read has⟩,
      fun past => ⟨x :: as :: past, ?_⟩⟩
    rw [Reader.asName?, bind_run (Reader.skipKeyword_present has)]
    simp only [↓reduceIte, bind_ok, pure_ok]
    exact ⟨x, _, Reader.identifier_run hx, rfl, rfl⟩

theorem NameTokens.respelled {names names' : List Token} {name : QualifiedName} {f : Fragment}
    (h : NameTokens names name f) (hnames : List.Forall₂ (Token.Respelled P) names names') :
    ∃ name' f', NameTokens names' name' f' ∧ NamedAt P (name, f) (name', f') := by
  cases h with
  | plain hx =>
    obtain _ | ⟨h, _ | _⟩ := hnames
    exact ⟨_, _, .plain (h.isIdentifier.trans hx),
      by simp [QualifiedName.unqualified, QualifiedName.foldCase, P.foldCase_eq h.text], h.fragment⟩
  | qualified hq hdot hx =>
    obtain _ | ⟨h, _ | ⟨hd, _ | ⟨h', _ | _⟩⟩⟩ := hnames
    exact ⟨_, _, .qualified (h.isIdentifier.trans hq) (hd.kind.trans hdot)
      (h'.isIdentifier.trans hx),
      by simp [QualifiedName.foldCase, P.foldCase_eq h.text, P.foldCase_eq h'.text],
      h.fragment.withText (P.fold_append (P.fold_append h.text rfl) h'.text)⟩

theorem forall₂_of_append {α β : Type} {R : α → β → Prop} {as bs : List α} {cs : List β}
    (h : List.Forall₂ R (as ++ bs) cs) :
    ∃ ds es, List.Forall₂ R as ds ∧ List.Forall₂ R bs es ∧ cs = ds ++ es :=
  ⟨cs.take as.length, cs.drop as.length, (List.forall₂_take_append cs as bs h.flip).flip,
    (List.forall₂_drop_append cs as bs h.flip).flip, (List.take_append_drop _ cs).symm⟩

/-- A target in another spelling. -/
theorem TargetTokens.respelled {target target' : List Token} {name : QualifiedName × Fragment}
    {asName : Option String} (h : TargetTokens target name asName)
    (htarget : List.Forall₂ (Token.Respelled P) target target') :
    ∃ name' asName', TargetTokens target' name' asName' ∧ NamedAt P name name' ∧
      SameName? P asName asName' := by
  cases h with
  | plain h =>
    obtain ⟨_, _, h', hnamed⟩ := h.respelled htarget
    exact ⟨_, _, .plain h', hnamed, rfl⟩
  | called h hx =>
    obtain ⟨names', rest', hnames, hrest, rfl⟩ := forall₂_of_append htarget
    obtain _ | ⟨hx', _ | _⟩ := hrest
    obtain ⟨_, _, h', hnamed⟩ := h.respelled hnames
    exact ⟨_, _, .called h' (hx'.kind ▸ hx), hnamed, congrArg some hx'.text⟩
  | calledAs h has hx =>
    obtain ⟨names', rest', hnames, hrest, rfl⟩ := forall₂_of_append htarget
    obtain _ | ⟨has', _ | ⟨hx', _ | _⟩⟩ := hrest
    obtain ⟨_, _, h', hnamed⟩ := h.respelled hnames
    exact ⟨_, _, .calledAs h' (has'.kind.trans has) (hx'.isIdentifier.trans hx), hnamed,
      congrArg some hx'.text⟩

section

variable {target target' ts ts' : List Token} {set set' : Token} {s s' : CompilerState}

/-- Spellings of a target, with anything after SET. -/
theorem Range.readTarget_apart (env : Environment) {name : QualifiedName × Fragment}
    {asName : Option String} (h : TargetTokens target name asName)
    (htarget : List.Forall₂ (Token.Respelled P) target target') (hset : set.kind = .keyword .SET)
    (hset' : set'.kind = .keyword .SET)
    (hs : s.Apart (target ++ set :: ts) (target' ++ set' :: ts') s') :
    (Tracking.apart (set :: ts) (set' :: ts')).Ends (Range.Respelled P) (readTarget env .update s)
      (readTarget env .update s') := by
  obtain ⟨name', asName', h', hnamed, hname⟩ := h.respelled htarget
  obtain ⟨us, hqualified, has⟩ := h.read ts hset
  obtain ⟨us', hqualified', has'⟩ := h'.read ts' hset'
  refine (hs.read (R := fun n n' => n = name ∧ n' = name') hqualified hqualified'
    ⟨rfl, rfl⟩).switch (fun _ _ h => h) ?_
  rintro _ _ t t' ⟨rfl, rfl⟩ ht
  refine (ht.read (R := fun n n' => n = asName ∧ n' = asName') has has' ⟨rfl, rfl⟩).switch
    (fun _ _ h => h) ?_
  rintro _ _ u u' ⟨rfl, rfl⟩ hu
  refine Tracks.run ?_ hu
  refine Tracks.bind (R := Range.Respelled P) ?_ fun range range' hrange =>
    (Tracks.except_apart (checkAccepts_concur hrange .update)).bind fun _ _ _ => .pure hrange
  exact (Tracks.except_apart (env.relation_concur hnamed)).bindSame fun relation =>
    Tracks.newRange_apart.bindSame fun _ => .pure (.ofRelation rfl relation hname hnamed.2)

end

/-! ### The pieces of an UPDATE -/

/-- What may come after assignments: another clause, a semicolon or nothing. -/
def EndsAssignments (ts : List Token) : Prop :=
  ∀ t ∈ ts.head?, t.kind ∈ [.keyword .WHERE, .keyword .ORDER, .keyword .LIMIT, .symbol .semicolon]

namespace EndsAssignments

variable {ts ts' : List Token}

theorem ending (h : EndsAssignments ts) : Ending ts := by
  intro t ht
  have hkind := h t ht
  simp only [List.mem_cons, List.not_mem_nil, or_false] at hkind
  rcases hkind with hk | hk | hk | hk <;> simp [hk, endings]

theorem lacks_comma (h : EndsAssignments ts) : Lacks (.symbol .comma) ts := by
  intro t ht hk
  have hkind := h t ht
  simp [hk] at hkind

theorem respelled (h : EndsAssignments ts) (hts : List.Forall₂ (Token.Respelled P) ts ts') :
    EndsAssignments ts' := by
  cases hts with
  | nil => exact h
  | cons ht _ =>
    intro t hmem
    obtain rfl := Option.some.inj hmem
    exact ht.kind ▸ h _ rfl

end EndsAssignments

/-- The pieces of an UPDATE that assigns values to columns. -/
structure UpdatePieces where
  target : List Token
  columns : List (List Token)
  values : List (List Token)
  /-- What comes after the assignments. -/
  tail : List Token

namespace UpdatePieces

/-- Pieces of which an UPDATE of several columns can be made. -/
structure Valid (p : UpdatePieces) : Prop where
  target : ∃ name asName, TargetTokens p.target name asName
  columns : ∀ column ∈ p.columns, ∃ name, ColumnName column name []
  values : ∀ value ∈ p.values, Expr.ReadsScalar value
  length : p.columns.length = p.values.length
  several : 2 ≤ p.values.length
  tail : EndsAssignments p.tail

/-- The same pieces, wherever they stand. -/
structure Same (p q : UpdatePieces) : Prop where
  target : List.Forall₂ (Token.Respelled .anywhere) p.target q.target
  columns : List.Forall₂ (List.Forall₂ (Token.Respelled .anywhere)) p.columns q.columns
  values : List.Forall₂ (List.Forall₂ (Token.Respelled .anywhere)) p.values q.values
  tail : List.Forall₂ (Token.Respelled .anywhere) p.tail q.tail

theorem Same.refl (p : UpdatePieces) : p.Same p :=
  ⟨respelled_anywhere _, List.forall₂_same.2 fun _ _ => respelled_anywhere _,
    List.forall₂_same.2 fun _ _ => respelled_anywhere _, respelled_anywhere _⟩

/-- An UPDATE that assigns a row of the values to the group of the columns. -/
inductive Grouped (p : UpdatePieces) : List Token → Prop
  | intro {update set : Token} {tokens : List Token} (hupdate : update.kind = .keyword .UPDATE)
      (hset : set.kind = .keyword .SET) (hassigns : SetClause.AssignsRow p.columns p.values tokens) :
      Grouped p (update :: (p.target ++ set :: (tokens ++ p.tail)))

/-- An UPDATE that assigns each column its value. -/
inductive Separate (p : UpdatePieces) : List Token → Prop
  | intro {update set : Token} {assignments : List (List Token)} {tokens : List Token}
      (hupdate : update.kind = .keyword .UPDATE) (hset : set.kind = .keyword .SET)
      (hassigns : List.Forall₂ SetClause.Assigns (p.columns.zip p.values) assignments)
      (htokens : Separated assignments tokens) :
      Separate p (update :: (p.target ++ set :: (tokens ++ p.tail)))

theorem Grouped.head {p : UpdatePieces} {tokens : List Token} (h : p.Grouped tokens) :
    ∃ x xs, tokens = x :: xs ∧ x.kind = .keyword .UPDATE := by
  obtain ⟨hupdate, -, -⟩ := h
  exact ⟨_, _, rfl, hupdate⟩

theorem Separate.head {p : UpdatePieces} {tokens : List Token} (h : p.Separate tokens) :
    ∃ x xs, tokens = x :: xs ∧ x.kind = .keyword .UPDATE := by
  obtain ⟨hupdate, -, -, -⟩ := h
  exact ⟨_, _, rfl, hupdate⟩

/-- Whether the first value begins with a bracketed SELECT. -/
def selectsFirst (p : UpdatePieces) : Bool :=
  p.values.head?.any opensSelect

variable {p q : UpdatePieces}

/-- The names of the columns, in both spellings. -/
theorem Valid.names (h : p.Valid) (hsame : p.Same q) :
    ∃ names names', List.Forall₂ NamesColumn p.columns names ∧
      List.Forall₂ NamesColumn q.columns names' ∧
      List.Forall₂ (TargetColumn.NameRespelled .anywhere) names names' := by
  have hcolumns := h.columns
  have hrespelled := hsame.columns
  generalize p.columns = columns at hcolumns hrespelled
  generalize q.columns = columns' at hrespelled
  induction hrespelled with
  | nil => exact ⟨[], [], .nil, .nil, .nil⟩
  | cons hcolumn _ ih =>
    obtain ⟨_, hname⟩ := hcolumns _ List.mem_cons_self
    obtain ⟨n, n', hn, hn', hnn⟩ := hname.respelled hcolumn
    obtain ⟨names, names', hnames, hnames', hall⟩ := ih fun column hc =>
      hcolumns column (List.mem_cons_of_mem _ hc)
    exact ⟨n :: names, n' :: names', .cons hn hnames, .cons hn' hnames', .cons hnn hall⟩

theorem Valid.values_same (h : p.Valid) (hsame : p.Same q) :
    ∀ value ∈ q.values, Expr.ReadsScalar value := fun value' hv' => by
  obtain ⟨value, hv, hvalue⟩ := forall₂_exists_left hsame.values hv'
  exact ((h.values value hv).respelled hvalue).1

end UpdatePieces

section

variable {p q : UpdatePieces} {range range' : Range} {tokens tokens' : List Token}
  {s s' : CompilerState}

/-- A row is read for a group, unless its first value begins with a bracketed SELECT. -/
theorem SetClause.read_row (range : Range) (h : p.Valid)
    (hrow : AssignsRow p.columns p.values tokens) {names : List (Option Token × Token)}
    (hnames : List.Forall₂ NamesColumn p.columns names) {es : List Expr} {m : Nat}
    (heach : Expr.ReadsEach p.values s.parameters es m) (hs : s.cursor.rest = tokens ++ p.tail) :
    Foretold (fun c a t => ((∃ f, a = { c with values := [.untyped (.row es) f] }) ∧
        t.parameters = m ∧ t.cursor.rest = p.tail) ∧ t = { s with toReading := t.toReading })
      (if p.selectsFirst then none else names.foldlM (extend range) {})
      ((liftM (read false range) : Compiler SetClause) s) :=
  (read_grouped hnames h.values h.several h.length hrow heach h.tail.lacks_comma hs).lifted

theorem SetClause.read_refused (h : p.Valid) (hrow : AssignsRow p.columns p.values tokens)
    (hselect : p.selectsFirst = true) (hs : s.cursor.rest = tokens ++ p.tail) (c : SetClause)
    (t : CompilerState) : (liftM (read false range) : Compiler SetClause) s ≠ .ok c t := by
  intro hrun
  obtain ⟨names, -, hnames, -⟩ := h.names (.refl p)
  obtain ⟨es, m, heach⟩ := Expr.exists_readsEach (fun v hv => (h.values v hv).wholly) s.parameters
  have hread := read_row range h hrow hnames heach hs
  rw [hrun, if_pos hselect] at hread
  cases hread

/-- A group with a row of values, and separate assignments of these values. -/
theorem SetClause.read_spread (h : p.Valid) (hsame : p.Same q)
    (hselect : p.selectsFirst = false) (hrange : range.Respelled .anywhere range')
    (hrow : AssignsRow p.columns p.values tokens) {assignments : List (List Token)}
    (hassigns : List.Forall₂ Assigns (q.columns.zip q.values) assignments)
    (htokens : Separated assignments tokens')
    (hs : s.Apart (tokens ++ p.tail) (tokens' ++ q.tail) s') :
    (Tracking.lenient .anywhere).Ends Update.Spread
      ((liftM (read false range) : Compiler SetClause) s)
      ((liftM (read false range') : Compiler SetClause) s') := by
  obtain ⟨names, names', hnames, hnames', hall⟩ := h.names hsame
  obtain ⟨es, m, heach⟩ := Expr.exists_readsEach (fun v hv => (h.values v hv).wholly) s.parameters
  obtain ⟨es', heach', hes⟩ := heach.respelled h.values hsame.values
  rw [← hs.parameters] at heach'
  -- a group without a subquery has as many values as columns
  have hlength : q.columns.length = q.values.length := by
    rw [← hsame.columns.length_eq, ← hsame.values.length_eq, h.length]
  have hending := h.tail.respelled hsame.tail
  have hsecond := (read_separate range' hnames' (h.values_same hsame) hlength hassigns htokens heach'
    hending.ending hending.lacks_comma hs.rest').of_map.lifted
  have hfirst := read_row range h hrow hnames heach hs.rest
  rw [hselect, if_neg Bool.false_ne_true] at hfirst
  refine hfirst.ends hsecond (extendAll_respelled hrange ⟨rfl, .nil, .nil⟩ hall)
    (fun _ _ => trivial) ?_
  rintro c c' _ _ t t' hc ⟨⟨⟨f, rfl⟩, hm, hrest⟩, ht⟩ ⟨⟨rfl, hm', hrest'⟩, ht'⟩
  refine ⟨⟨hc.columnMap, .intro ?_⟩, ⟨⟨⟨trivial, ?_⟩, hm'.trans hm.symm⟩, ?_, ?_, ?_⟩⟩
  · refine forall₂_imp_mem hes fun e he _ _ hspelled => ⟨hspelled, ?_⟩
    obtain ⟨hplain, hrow⟩ := heach.plain h.values e he
    exact hplain.isSingle hrow
  · rw [hrest, hrest']
    exact hsame.tail
  · rw [ht, ht']
    exact hs.outer
  · rw [ht, ht']
    exact hs.calls
  · rw [ht, ht']
    exact hs.nextRange

end

namespace Update

variable {p q : UpdatePieces} {tokens tokens' : List Token} {s s' : CompilerState}

/-- An UPDATE of a group whose row begins with a bracketed SELECT is refused. -/
theorem compile_refused (hmysql : env.config.dialect.mysql = false) (h : p.Valid)
    (hgrouped : p.Grouped tokens) (hselect : p.selectsFirst = true) (hs : s.cursor.rest = tokens)
    (u : UpdateStatement) (t : CompilerState) : compile env s ≠ .ok u t := by
  intro hrun
  obtain ⟨run⟩ := compile_ok hrun
  obtain ⟨hupdate, hset, hassigns⟩ := hgrouped
  obtain ⟨name, asName, htarget⟩ := h.target
  obtain ⟨-, hrest⟩ := keyword_rest run.update_ok
  obtain ⟨-, hrest₁⟩ := List.cons.inj (hs.symm.trans hrest)
  have hwritten := Range.readTarget_apart env htarget (respelled_anywhere p.target) hset hset
    ⟨hrest₁.symm, hrest₁.symm, rfl, rfl, rfl, rfl⟩
  rw [run.written_ok] at hwritten
  cases hwritten with
  | ok _ hapart =>
    obtain ⟨-, hrest₂⟩ := keyword_rest run.set_ok
    obtain ⟨-, hrest₃⟩ := List.cons.inj (hapart.rest.symm.trans hrest₂)
    have hclause := run.clause_ok
    rw [hmysql] at hclause
    exact SetClause.read_refused h hassigns hselect hrest₃.symm _ _ hclause

/-- An UPDATE of a group goes along with one of its columns. -/
theorem compile_spread (hmysql : env.config.dialect.mysql = false) (h : p.Valid) (hsame : p.Same q)
    (hselect : p.selectsFirst = false) (hgrouped : p.Grouped tokens)
    (hseparate : q.Separate tokens') (hs : s.Apart tokens tokens' s') :
    (Tracking.lenient .anywhere).Ends
      (fun u u' => u.assignments.AlikeBySlot .anywhere u'.assignments) (compile env s)
      (compile env s') := by
  obtain ⟨hupdate, hset, hassigns⟩ := hgrouped
  obtain ⟨hupdate', hset', hassigns', htokens⟩ := hseparate
  obtain ⟨name, asName, htarget⟩ := h.target
  rw [compile_eq, hmysql]
  refine (hs.read (R := fun _ _ => True) (fun past => ⟨_, Reader.keyword_present hupdate⟩)
    (fun past => ⟨_, Reader.keyword_present hupdate'⟩) trivial).switch (fun _ _ h => h)
    fun _ _ t t' _ ht => ?_
  refine (Range.readTarget_apart env htarget hsame.target hset hset' ht).switch (fun _ _ h => h)
    fun written written' t t' hwritten ht => ?_
  refine (ht.read (R := fun _ _ => True) (fun past => ⟨_, Reader.keyword_present hset⟩)
    (fun past => ⟨_, Reader.keyword_present hset'⟩) trivial).switch (fun _ _ h => h)
    fun _ _ t t' _ ht => ?_
  exact (SetClause.read_spread h hsame hselect hwritten hassigns hassigns' htokens ht).bind
    fun clause clause' _ _ _ hclause ht => (afterClause_tracks hwritten hclause).run ht

end Update

/-! ## Texts -/

/-- The texts of an UPDATE that assigns a row of values to a group of columns, and of one that
assigns the same values to the same columns one by one. -/
structure GroupTexts (grouped separate : String) where
  {p q : UpdatePieces}
  {tokens tokens' : List Token}
  valid : p.Valid
  same : p.Same q
  grouped_tokens : tokenize grouped = .ok tokens
  separate_tokens : tokenize separate = .ok tokens'
  groups : p.Grouped tokens
  separates : q.Separate tokens'

namespace Statement

variable {s t : CompilerState} {u : UpdateStatement}

theorem compile_update {text : String} {tokens : List Token} (htext : tokenize text = .ok tokens)
    (hhead : ∃ x xs, tokens = x :: xs ∧ x.kind = .keyword .UPDATE) :
    compile env text s = .ok (.update u) t ↔
      ∃ v c, Update.compile env { s with cursor := .ofTokens tokens } = .ok u v ∧
        Reader.finish v.cursor = .ok () c ∧ t = { v with cursor := s.cursor } := by
  obtain ⟨x, xs, rfl, hx⟩ := hhead
  have hhead : ∀ v, compileHead env { s with cursor := .ofTokens (x :: xs) } = .ok (.update u) v ↔
      Update.compile env { s with cursor := .ofTokens (x :: xs) } = .ok u v := by
    intro v
    simp only [compileHead, bind_ok, get_ok]
    constructor
    · rintro ⟨_, _, ⟨rfl, rfl⟩, hrun⟩
      simp only [Cursor.ofTokens, hx, bind_ok, pure_ok] at hrun
      obtain ⟨_, _, hu, ⟨⟩, rfl⟩ := hrun
      exact hu
    · intro hu
      refine ⟨_, _, ⟨rfl, rfl⟩, ?_⟩
      simp only [Cursor.ofTokens, hx, bind_ok, pure_ok]
      exact ⟨u, v, hu, rfl, rfl⟩
  simp only [compile_iff htext, hhead]

/-- Both texts compile or none, unless the first value begins with a bracketed SELECT. -/
theorem group_ends {grouped separate : String} (texts : GroupTexts grouped separate)
    (hmysql : env.config.dialect.mysql = false) (hselect : texts.p.selectsFirst = false)
    (s : CompilerState) :
    (∀ u t, compile env grouped s = .ok (.update u) t →
      ∃ u' t', compile env separate s = .ok (.update u') t' ∧
        u.assignments.AlikeBySlot .anywhere u'.assignments) ∧
    ∀ u' t', compile env separate s = .ok (.update u') t' →
      ∃ u t, compile env grouped s = .ok (.update u) t ∧
        u.assignments.AlikeBySlot .anywhere u'.assignments := by
  simp only [compile_update texts.grouped_tokens texts.groups.head,
    compile_update texts.separate_tokens texts.separates.head]
  have hapart : CompilerState.Apart texts.tokens texts.tokens'
      { s with cursor := .ofTokens texts.tokens } { s with cursor := .ofTokens texts.tokens' } :=
    ⟨rfl, rfl, rfl, rfl, rfl, rfl⟩
  have hends := Update.compile_spread hmysql texts.valid texts.same hselect texts.groups
    texts.separates hapart
  generalize Update.compile env { s with cursor := .ofTokens texts.tokens } = r at hends ⊢
  generalize Update.compile env { s with cursor := .ofTokens texts.tokens' } = r' at hends ⊢
  cases hends with
  | error => constructor <;> rintro _ _ ⟨_, _, ⟨⟩, _⟩
  | @ok u u' v v' hu hv =>
    -- the statement of either form is followed by the same tokens
    have hfinish := Reader.finish_tracks.run hv.cursor
    constructor
    · rintro _ _ ⟨_, c, ⟨⟩, hc, rfl⟩
      rw [hc] at hfinish
      generalize hr : Reader.finish v'.cursor = r at hfinish
      cases hfinish with
      | ok => exact ⟨u', _, ⟨v', _, rfl, hr, rfl⟩, hu⟩
    · rintro _ _ ⟨_, c, ⟨⟩, hc, rfl⟩
      rw [hc] at hfinish
      generalize hr : Reader.finish v.cursor = r at hfinish
      cases hfinish with
      | ok => exact ⟨u, _, ⟨v, _, rfl, hr, rfl⟩, hu⟩

/-- Outside of MySQL an UPDATE that assigns a row of values to a group of columns compiles exactly
if the one with separate assignments does and the first value does not begin with a bracketed
SELECT. Both assign the same columns, and the same to each of them. -/
theorem group_compiles_iff {grouped separate : String} (texts : GroupTexts grouped separate)
    (hmysql : env.config.dialect.mysql = false) (s : CompilerState) :
    ((∃ u t, compile env grouped s = .ok (.update u) t) ↔
      texts.p.selectsFirst = false ∧ ∃ u t, compile env separate s = .ok (.update u) t) ∧
    ∀ u u' t t', compile env grouped s = .ok (.update u) t →
      compile env separate s = .ok (.update u') t' →
        u.assignments.AlikeBySlot .anywhere u'.assignments := by
  cases hselect : texts.p.selectsFirst with
  | true =>
    have hrefused : ∀ u t, compile env grouped s ≠ .ok (.update u) t := by
      intro u t hrun
      obtain ⟨v, -, hcompile, -⟩ := (compile_update texts.grouped_tokens texts.groups.head).1 hrun
      exact Update.compile_refused hmysql texts.valid texts.groups hselect rfl u v hcompile
    exact ⟨by simp [hrefused], fun u _ t _ h => absurd h (hrefused u t)⟩
  | false =>
    obtain ⟨hforth, hback⟩ := group_ends texts hmysql hselect s
    refine ⟨⟨?_, ?_⟩, fun u u' t t' hgrouped hseparate => ?_⟩
    · rintro ⟨u, t, h⟩
      obtain ⟨u', t', h', -⟩ := hforth u t h
      exact ⟨rfl, u', t', h'⟩
    · rintro ⟨-, u', t', h'⟩
      obtain ⟨u, t, h, -⟩ := hback u' t' h'
      exact ⟨u, t, h⟩
    · obtain ⟨u'', t'', h', halike⟩ := hforth u t hgrouped
      cases h'.symm.trans hseparate
      exact halike

/-! ### A group of the bank -/

def groupedUpdate : String :=
  "UPDATE t SET (a, b) = (1, (SELECT id FROM ledger))"

def separateUpdate : String :=
  "UPDATE t SET a = 1, b = (SELECT id FROM ledger)"

/-- The pieces of the UPDATE with a group. -/
def groupedPieces : UpdatePieces where
  target := [⟨.identifier, .written "t" 1 8, rfl⟩]
  columns := [[⟨.identifier, .written "a" 1 15, rfl⟩], [⟨.identifier, .written "b" 1 18, rfl⟩]]
  values := [[⟨.integer, .written "1" 1 24, rfl⟩],
    [⟨.symbol .openParen, .written "(" 1 27, rfl⟩, ⟨.keyword .SELECT, .written "SELECT" 1 28, rfl⟩,
      ⟨.identifier, .written "id" 1 35, rfl⟩, ⟨.keyword .FROM, .written "FROM" 1 38, rfl⟩,
      ⟨.identifier, .written "ledger" 1 43, rfl⟩, ⟨.symbol .closeParen, .written ")" 1 49, rfl⟩]]
  tail := []

/-- The pieces of the UPDATE without. -/
def separatePieces : UpdatePieces where
  target := [⟨.identifier, .written "t" 1 8, rfl⟩]
  columns := [[⟨.identifier, .written "a" 1 14, rfl⟩], [⟨.identifier, .written "b" 1 21, rfl⟩]]
  values := [[⟨.integer, .written "1" 1 18, rfl⟩],
    [⟨.symbol .openParen, .written "(" 1 25, rfl⟩, ⟨.keyword .SELECT, .written "SELECT" 1 26, rfl⟩,
      ⟨.identifier, .written "id" 1 33, rfl⟩, ⟨.keyword .FROM, .written "FROM" 1 36, rfl⟩,
      ⟨.identifier, .written "ledger" 1 41, rfl⟩, ⟨.symbol .closeParen, .written ")" 1 47, rfl⟩]]
  tail := []

set_option maxRecDepth 10000 in
theorem groupedPieces_valid : groupedPieces.Valid where
  target := ⟨_, _, .plain (.plain rfl)⟩
  columns := by
    simp only [groupedPieces, List.mem_cons, List.not_mem_nil, or_false]
    rintro _ (rfl | rfl)
    · exact ⟨_, .plain rfl []⟩
    · exact ⟨_, .plain rfl []⟩
  values := by
    simp only [groupedPieces, List.mem_cons, List.not_mem_nil, or_false]
    rintro _ (rfl | rfl)
    · exact fun _ => ⟨_, _, rfl, rfl, rfl⟩
    · exact fun _ => ⟨_, _, rfl, rfl, rfl⟩
  length := rfl
  several := by decide
  tail := by simp [groupedPieces, EndsAssignments]

theorem groupedPieces_same : groupedPieces.Same separatePieces where
  target := respelled_of_same rfl
  columns := .cons (respelled_of_same rfl) (.cons (respelled_of_same rfl) .nil)
  values := .cons (respelled_of_same rfl) (.cons (respelled_of_same rfl) .nil)
  tail := .nil

def groupedTokens : List Token :=
  ⟨.keyword .UPDATE, .written "UPDATE" 1 1, rfl⟩ :: (groupedPieces.target ++
    ⟨.keyword .SET, .written "SET" 1 10, rfl⟩ :: ((⟨.symbol .openParen, .written "(" 1 14, rfl⟩ ::
      ((groupedPieces.columns[0] ++ ⟨.symbol .comma, .written "," 1 16, rfl⟩ ::
        (groupedPieces.columns[1] ++ [])) ++
      ⟨.symbol .closeParen, .written ")" 1 19, rfl⟩ :: ⟨.symbol .equal, .written "=" 1 21, rfl⟩ ::
      ⟨.symbol .openParen, .written "(" 1 23, rfl⟩ ::
      ((groupedPieces.values[0] ++ ⟨.symbol .comma, .written "," 1 25, rfl⟩ ::
        (groupedPieces.values[1] ++ [])) ++ [⟨.symbol .closeParen, .written ")" 1 50, rfl⟩]))) ++
    groupedPieces.tail))

def separateTokens : List Token :=
  ⟨.keyword .UPDATE, .written "UPDATE" 1 1, rfl⟩ :: (separatePieces.target ++
    ⟨.keyword .SET, .written "SET" 1 10, rfl⟩ ::
      (((separatePieces.columns[0] ++ ⟨.symbol .equal, .written "=" 1 16, rfl⟩ ::
        separatePieces.values[0]) ++ ⟨.symbol .comma, .written "," 1 19, rfl⟩ ::
        ((separatePieces.columns[1] ++ ⟨.symbol .equal, .written "=" 1 23, rfl⟩ ::
          separatePieces.values[1]) ++ [])) ++ separatePieces.tail))

theorem groupedTokens_grouped : groupedPieces.Grouped groupedTokens :=
  .intro rfl rfl (.intro rfl (.intro _ (.cons rfl _ .nil)) rfl rfl rfl
    (.intro _ (.cons rfl _ .nil)) rfl)

theorem separateTokens_separate : separatePieces.Separate separateTokens :=
  .intro rfl rfl (.cons ⟨_, rfl, rfl⟩ (.cons ⟨_, rfl, rfl⟩ .nil)) (.intro _ (.cons rfl _ .nil))

set_option maxRecDepth 10000 in
def bankTexts : GroupTexts groupedUpdate separateUpdate where
  p := groupedPieces
  q := separatePieces
  tokens := groupedTokens
  tokens' := separateTokens
  valid := groupedPieces_valid
  same := groupedPieces_same
  grouped_tokens := tokenize_eq rfl (by decide +kernel)
  separate_tokens := tokenize_eq rfl (by decide +kernel)
  groups := groupedTokens_grouped
  separates := separateTokens_separate

set_option maxRecDepth 10000 in
/-- The row of a group may hold a subquery that is not its first value. -/
theorem group_compiles_iff_second :
    ∃ u u' t t', compile .bank groupedUpdate .initial = .ok (.update u) t ∧
      compile .bank separateUpdate .initial = .ok (.update u') t' ∧
      u.assignments.AlikeBySlot .anywhere u'.assignments := by
  have hiff := group_compiles_iff bankTexts (rfl : Environment.bank.config.dialect.mysql = false)
    .initial
  obtain ⟨_, t', hcompile, hupdate⟩ := exists_compile .bank separateUpdate
    (fun statement => statement.update?.isSome) rfl (by decide +kernel)
  obtain ⟨u', hu'⟩ := Option.isSome_iff_exists.1 hupdate
  obtain rfl := eq_of_update? hu'
  obtain ⟨u, t, hgrouped⟩ := hiff.1.2 ⟨rfl, u', t', hcompile⟩
  exact ⟨u, u', t, t', hgrouped, hcompile, hiff.2 u u' t t' hgrouped hcompile⟩

set_option maxRecDepth 10000 in
/-- A row that begins with a subquery is taken for one. -/
theorem subqueryFirst_refused :
    (∃ u s, compile .bank "UPDATE t SET a = (SELECT id FROM ledger), b = 2" .initial =
      .ok (.update u) s) ∧
    ∃ s, compile .bank "UPDATE t SET (a, b) = ((SELECT id FROM ledger), 2)" .initial =
      .error (.rejected (.unexpected (.symbol .closeParen) (.written "," 1 47))) s := by
  obtain ⟨_, s, hcompile, hupdate⟩ := exists_compile .bank
    "UPDATE t SET a = (SELECT id FROM ledger), b = 2" (fun statement => statement.update?.isSome)
    rfl (by decide +kernel)
  obtain ⟨u, hu⟩ := Option.isSome_iff_exists.1 hupdate
  exact ⟨⟨u, s, eq_of_update? hu ▸ hcompile⟩, exists_failure _ _ _ rfl (by decide +kernel)⟩

end Statement

end DataChange
