import DataChange.Proofs.Spelling.Clauses
import DataChange.Proofs.Statement.BaseTable
import DataChange.Proofs.Target.Brackets
import DataChange.Proofs.Target.Names
import DataChange.Proofs.Token.Pieces

/-!
# SET clauses piece by piece

The columns and the values of a SET clause are pieces of its tokens, which are read on their own:
what comes before and after a piece does not matter. So a clause that gives a group of columns a
row (`SetClause.read_grouped`) and one that gives each of these columns its value
(`SetClause.read_separate`) come to the same columns and values.
-/

namespace DataChange

/-! ## Columns -/

/-- Some tokens name a column, whatever stands before and after them. -/
def NamesColumn (column : List Token) (name : Option Token × Token) : Prop :=
  ∀ past rest, Lacks (.symbol .dot) rest →
    TargetColumn.readName ⟨past, column ++ rest⟩ = .ok name ⟨column.reverse ++ past, rest⟩

theorem NamesColumn.plain {name : Token} (hname : name.isIdentifier = true) :
    NamesColumn [name] (none, name) := by
  intro past rest hrest
  exact bind_ok.2 ⟨name, ⟨name :: past, rest⟩, Reader.identifier_run hname,
    bind_ok.2 ⟨false, _, Reader.skipSymbol_absent hrest, rfl⟩⟩

theorem NamesColumn.qualified {qualifier dot name : Token} (hqualifier : qualifier.isIdentifier = true)
    (hdot : dot.kind = .symbol .dot) (hname : name.isIdentifier = true) :
    NamesColumn [qualifier, dot, name] (some qualifier, name) := by
  intro past rest _
  exact bind_ok.2 ⟨qualifier, ⟨qualifier :: past, dot :: name :: rest⟩,
    Reader.identifier_run hqualifier, bind_ok.2 ⟨true, ⟨dot :: qualifier :: past, name :: rest⟩,
      Reader.skipSymbol_present hdot, bind_ok.2 ⟨name, _, Reader.identifier_run hname, rfl⟩⟩⟩

/-- A column that is named in another spelling. -/
theorem ColumnName.respelled {P : Likeness} {column column' : List Token} {name : Token}
    (h : ColumnName column name []) (hcolumn : List.Forall₂ (Token.Respelled P) column column') :
    ∃ n n', NamesColumn column n ∧ NamesColumn column' n' ∧ TargetColumn.NameRespelled P n n' := by
  cases h with
  | plain hname =>
    obtain _ | ⟨hx, _ | _⟩ := hcolumn
    exact ⟨_, _, .plain hname, .plain (hx.isIdentifier.trans hname), .none, hx⟩
  | qualified hqualifier hdot hname =>
    obtain _ | ⟨hq, _ | ⟨hd, _ | ⟨hx, _ | _⟩⟩⟩ := hcolumn
    exact ⟨_, _, .qualified hqualifier hdot hname, .qualified (hq.isIdentifier.trans hqualifier)
      (hd.kind.trans hdot) (hx.isIdentifier.trans hname), .some hq, hx⟩

theorem NamesColumn.head {column : List Token} {name : Option Token × Token}
    (h : NamesColumn column name) : ∃ x ts, column = x :: ts ∧ x.isIdentifier = true := by
  have hname := TargetColumn.readName_ok (h [] [] fun _ ht => by cases ht)
  simpa using hname.head

namespace SetClause

/-- A clause with one more target, if the range has it. -/
def extend (range : Range) (clause : SetClause) (name : Option Token × Token) :
    Option SetClause :=
  match TargetColumn.checkQualifier range true name.1 name.2 with
  | .error _ => none
  | .ok _ =>
    match TargetColumn.find range name.1 name.2 with
    | .error _ => none
    | .ok column =>
      match clause.columnMap.insert column.ordinal column.name column.expr.fragment with
      | .error _ => none
      | .ok columnMap =>
        some { clause with columnMap := columnMap, targets := clause.targets ++ [column.expr] }

variable {range range' : Range} {clause clause' : SetClause} {name name' : Option Token × Token}
  {column : List Token}

theorem addTarget_foretold (hname : NamesColumn column name) {c : Cursor} {rest : List Token}
    (hrest : Lacks (.symbol .dot) rest) (hc : c.rest = column ++ rest) :
    Foretold (fun b a d => a = b ∧ d.rest = rest) (extend range clause name)
      (addTarget range clause c) := by
  obtain ⟨past, ts⟩ := c
  obtain rfl : ts = column ++ rest := hc
  obtain ⟨qualifier, name⟩ := name
  rw [addTarget, TargetColumn.read, bind_assoc, bind_run (hname past rest hrest), extend]
  dsimp only
  cases TargetColumn.checkQualifier range true qualifier name with
  | error e => exact .error
  | ok _ =>
    cases TargetColumn.find range qualifier name with
    | error e => exact .error
    | ok column =>
      rw [pure_bind, TargetColumn.addTo]
      dsimp only
      cases clause.columnMap.insert column.ordinal column.name column.expr.fragment with
      | error e => exact .error
      | ok map => exact .ok ⟨rfl, rfl⟩

theorem extend_respelled {P : Likeness} (hrange : range.Respelled P range')
    (hclause : clause.Respelled P clause') (hname : TargetColumn.NameRespelled P name name') :
    Option.Rel (SetClause.Respelled P) (extend range clause name) (extend range' clause' name') := by
  unfold extend
  refine (TargetColumn.checkQualifier_concur hrange true hname.1 name.2 name'.2).elim
    (fun _ _ _ => ?_) fun _ _ _ => .none
  refine (TargetColumn.find_concur hrange hname.1 hname.2).elim (fun column column' hcolumn => ?_)
    fun _ _ _ => .none
  dsimp only
  rw [hclause.columnMap, hcolumn.ordinal]
  refine (clause.columnMap.insert_concur column.ordinal column.name column'.name
    hcolumn.expr.fragment).elim (fun map map' hmap => ?_) fun _ _ _ => .none
  exact .some ⟨hmap.symm, List.rel_append hclause.targets (.cons hcolumn.expr .nil), hclause.values⟩

/-- Adding a target leaves the values alone. -/
theorem extend_values (values : List Expr) :
    extend range { clause with values := values } name =
      (extend range clause name).map fun c => { c with values := values } := by
  unfold extend
  dsimp only
  repeat' split
  all_goals simp_all

/-- A list of targets is read name by name. -/
theorem targets_foretold (range : Range) (clause : SetClause) {columns : List (List Token)} {names : List (Option Token × Token)}
    {tokens rest : List Token} (hcolumns : Separated columns tokens)
    (hnames : List.Forall₂ NamesColumn columns names) (hrest : Ending rest)
    (hnone : Lacks (.symbol .comma) rest) {s : Reading} (hs : s.cursor.rest = tokens ++ rest) :
    Foretold (fun b a t => Before rest (b, s.parameters) a t) (names.foldlM (extend range) clause)
      ((liftM (commaSteps (addTarget range) clause) : Parser SetClause) s) := by
  have hfold : ∀ (clause : SetClause) (k : Nat),
      names.foldlM (fun (c : SetClause × Nat) name => (extend range c.1 name).map (·, c.2))
        (clause, k) = (names.foldlM (extend range) clause).map (·, k) := by
    clear hnames
    induction names with
    | nil => exact fun _ _ => rfl
    | cons name names ih =>
      intro clause k
      simp only [List.foldlM_cons]
      cases extend range clause name with
      | none => rfl
      | some clause => exact ih clause k
  rw [lift_reader_commaSteps]
  refine Foretold.of_map (f := (·, s.parameters)) ?_
  rw [← hfold]
  refine commaSteps_pieces hrest hnone hcolumns (hnames.imp fun column name hname => ?_) hs
  exact fun clause s rest hrest hs =>
    (addTarget_foretold hname (hrest.lacks (by decide)) hs).lift_reader.map _
      fun _ _ _ h => ⟨h.1.1, h.2, h.1.2⟩

end SetClause

/-! ## Values -/

namespace Expr

/-- What some tokens are as an expression, after a number of question marks. -/
def readAlone (value : List Token) (parameters : Nat) : Option (Expr × Nat) :=
  match parse ⟨.ofTokens value, parameters⟩ with
  | .ok e s => some (e, s.parameters)
  | .error _ _ => none

/-- Some tokens are an expression. -/
def ReadsWholly (value : List Token) : Prop :=
  ∀ n, ∃ e s, parse ⟨.ofTokens value, n⟩ = .ok e s ∧ s.cursor.rest = []

/-- Some tokens are a value that is no row. -/
def ReadsScalar (value : List Token) : Prop :=
  ∀ n, ∃ e s, parse ⟨.ofTokens value, n⟩ = .ok e s ∧ s.cursor.rest = [] ∧ e.isRow = false

theorem ReadsScalar.wholly {value : List Token} (h : ReadsScalar value) : ReadsWholly value := by
  intro n
  obtain ⟨e, s, hparse, hend, -⟩ := h n
  exact ⟨e, s, hparse, hend⟩

/-- The brackets of a value close within it. -/
theorem ReadsScalar.closed {value : List Token} (h : ReadsScalar value) :
    Closed false value ∧ Leads value := by
  obtain ⟨e, t, hparse, hend, -⟩ := h 0
  obtain ⟨xs, hleads, hscan⟩ := (parse_reads _ _ _ hparse).scan
  have hvalue : value = xs := by simpa [Cursor.ofTokens, hend] using hscan.rest
  exact hvalue ▸ ⟨hscan.closed.weaken, hleads⟩

/-- A value begins with SELECT behind brackets only. -/
theorem ReadsScalar.opens {value : List Token} (h : ReadsScalar value)
    (hselect : opensSelect value = true) :
    Closed false value ∧ ∃ o ts, value = o :: ts ∧ o.isSymbol .openParen = true := by
  obtain ⟨hclosed, x, ts, rfl, hx⟩ := h.closed
  refine ⟨hclosed, x, ts, rfl, ?_⟩
  obtain ⟨opens, q, rest, hopens, hq, hsplit⟩ := opensSelect_iff.1 hselect
  cases opens with
  | nil =>
    obtain ⟨rfl, -⟩ := List.cons.inj hsplit
    simp [Token.startsQuery, Token.isKeyword, hq] at hx
  | cons o opens =>
    obtain ⟨rfl, -⟩ := List.cons.inj hsplit
    exact hopens _ (by simp)

/-- A value is read on its own, wherever it stands. -/
theorem parse_foretold {value rest : List Token} (hvalue : ReadsWholly value) (hrest : Ending rest)
    {s : Reading} (hs : s.cursor.rest = value ++ rest) :
    Foretold (Before rest) (readAlone value s.parameters) (parse s) := by
  obtain ⟨e, t, hparse, hend⟩ := hvalue s.parameters
  have hpaired : (Pairing.readings true rest).Paired ⟨.ofTokens value, s.parameters⟩ s :=
    ⟨Cursor.Copied.exact_iff.2 hs, fun _ => rfl⟩
  obtain ⟨e', t', hparse', he, ht, -⟩ := parse_mirrors hrest hpaired hparse
  rw [readAlone, hparse, hparse']
  refine .ok ⟨he.eq, ht.2 rfl, ?_⟩
  rw [Cursor.Copied.exact_iff.1 ht.1, hend, List.nil_append]

/-- Some values, read one after the other, with the numbers of question marks before and after. -/
inductive ReadsEach : List (List Token) → Nat → List Expr → Nat → Prop
  | nil (k : Nat) : ReadsEach [] k [] k
  | cons {value : List Token} {values : List (List Token)} {e : Expr} {es : List Expr} {k l m : Nat}
      (h : readAlone value k = some (e, l)) (hrest : ReadsEach values l es m) :
      ReadsEach (value :: values) k (e :: es) m

theorem exists_readsEach {values : List (List Token)} (h : ∀ value ∈ values, ReadsWholly value)
    (k : Nat) : ∃ es m, ReadsEach values k es m := by
  induction values generalizing k with
  | nil => exact ⟨[], k, .nil k⟩
  | cons value values ih =>
    obtain ⟨e, s, hparse, -⟩ := h value (by simp) k
    obtain ⟨es, m, hrest⟩ := ih (fun value hv => h value (by simp [hv])) s.parameters
    exact ⟨e :: es, m, .cons (by rw [readAlone, hparse]) hrest⟩

/-- A value in another spelling. -/
theorem ReadsScalar.respelled {P : Likeness} [P.Numbered] {value value' : List Token} (h : ReadsScalar value)
    (hvalue : List.Forall₂ (Token.Respelled P) value value') :
    ReadsScalar value' ∧ ∀ {k : Nat} {e : Expr} {l : Nat}, readAlone value k = some (e, l) →
      ∃ e', readAlone value' k = some (e', l) ∧ e.Respelled P e' := by
  -- one run of the parser shows both, whatever the number of the first question mark is
  have hread : ∀ n, ∃ e s e' s', parse ⟨.ofTokens value, n⟩ = .ok e s ∧
      parse ⟨.ofTokens value', n⟩ = .ok e' s' ∧ s.cursor.rest = [] ∧ e.isRow = false ∧
      e.Respelled P e' ∧ s.Respelled P s' := by
    intro n
    obtain ⟨e, s, hparse, hend, hrow⟩ := h n
    have hpaired : Reading.Respelled P ⟨.ofTokens value, n⟩ ⟨.ofTokens value', n⟩ :=
      ⟨.ofTokens hvalue, rfl⟩
    have hends := Expr.parse_tracks.run hpaired
    rw [hparse] at hends
    generalize hr : parse ⟨.ofTokens value', n⟩ = r at hends
    cases hends with
    | ok he hs => exact ⟨e, s, _, _, hparse, rfl, hend, hrow, he, hs⟩
  constructor
  · intro n
    obtain ⟨e, s, e', s', -, hparse', hend, hrow, he, hs⟩ := hread n
    have hrest := hs.cursor.rest
    rw [hend, List.forall₂_nil_left_iff] at hrest
    exact ⟨e', s', hparse', hrest, he.isRow.trans hrow⟩
  · intro k e l halone
    obtain ⟨d, s, d', s', hparse, hparse', -, -, hd, hs⟩ := hread k
    rw [readAlone, hparse, Option.some.injEq, Prod.mk.injEq] at halone
    obtain ⟨rfl, rfl⟩ := halone
    have hcount : s'.parameters = s.parameters := Likeness.Numbered.number_injective hs.parameters
    exact ⟨d', by rw [readAlone, hparse', ← hcount], hd⟩

/-- Values in another spelling. -/
theorem ReadsEach.respelled {P : Likeness} [P.Numbered] {values values' : List (List Token)}
    {es : List Expr} {k m : Nat} (h : ReadsEach values k es m) (hvalues : ∀ value ∈ values, ReadsScalar value)
    (hrespelled : List.Forall₂ (List.Forall₂ (Token.Respelled P)) values values') :
    ∃ es', ReadsEach values' k es' m ∧ List.Forall₂ (Expr.Respelled P) es es' := by
  induction h generalizing values' with
  | nil k =>
    cases hrespelled
    exact ⟨[], .nil k, .nil⟩
  | cons h _ ih =>
    cases hrespelled with
    | cons hvalue hrest =>
      obtain ⟨e', he', hspelled⟩ := ((hvalues _ (by simp)).respelled hvalue).2 h
      obtain ⟨es', hes', hall⟩ := ih (fun value hv => hvalues value (by simp [hv])) hrest
      exact ⟨e' :: es', .cons he' hes', .cons hspelled hall⟩

variable {values : List (List Token)} {tokens rest : List Token} {es : List Expr} {k m : Nat}

/-- What is read alone from a value is neither a row nor pending. -/
theorem ReadsEach.plain (h : ReadsEach values k es m) (hvalues : ∀ value ∈ values, ReadsScalar value) :
    ∀ e ∈ es, e.Plain ∧ e.isRow = false := by
  induction h with
  | nil => simp
  | @cons value _ e _ k _ _ h _ ih =>
    obtain ⟨d, s, hparse, -, hrow⟩ := hvalues value (by simp) k
    rw [readAlone, hparse, Option.some.injEq, Prod.mk.injEq] at h
    obtain ⟨rfl, -⟩ := h
    rw [List.forall_mem_cons]
    exact ⟨⟨(parse_reads _ _ _ hparse).plain, hrow⟩, ih fun value hv => hvalues value (by simp [hv])⟩

theorem ReadsEach.length (h : ReadsEach values k es m) : es.length = values.length := by
  induction h with
  | nil => rfl
  | cons _ _ ih => simp [ih]

/-- The values before some items are read. -/
def readMore (told : List Expr × Nat) (value : List Token) : Option (List Expr × Nat) := do
  let read ← readAlone value told.2
  return (told.1 ++ [read.1], read.2)

theorem ReadsEach.foldlM_readMore (h : ReadsEach values k es m) (before : List Expr) :
    values.foldlM readMore (before, k) = some (before ++ es, m) := by
  induction h generalizing before with
  | nil => simp
  | @cons value values e es k l m h _ ih =>
    rw [List.foldlM_cons, readMore, h]
    simpa using ih (before ++ [e])

/-- Values between commas are read one after the other. -/
theorem parseList_pieces (hvalues : ∀ value ∈ values, ReadsWholly value)
    (htokens : Separated values tokens) {s : Reading} (heach : ReadsEach values s.parameters es m)
    (hrest : Ending rest) (hnone : Lacks (.symbol .comma) rest)
    (hs : s.cursor.rest = tokens ++ rest) :
    ∃ t, parseList s = .ok es t ∧ t.parameters = m ∧ t.cursor.rest = rest := by
  have hitem : ∀ value ∈ values,
      ReadsPiece (fun items => return items ++ [← parse]) value (readMore · value) := by
    intro value hv items s rest hrest hs
    refine (parse_foretold (hvalues value hv) hrest hs).bind fun read e t h => ?_
    exact .ok ⟨by rw [h.value], h.parameters, h.rest⟩
  have hlist : Foretold (Before rest) (values.foldlM readMore ([], s.parameters)) (parseList s) :=
    commaSteps_pieces hrest hnone htokens (List.forall₂_same.2 hitem) hs
  rw [heach.foldlM_readMore] at hlist
  generalize parseList s = r at hlist ⊢
  cases hlist with
  | ok h => exact ⟨_, by rw [h.value]; rfl, h.parameters, h.rest⟩

/-- Two or more values between commas make a row. -/
theorem parseRow_pieces (hvalues : ∀ value ∈ values, ReadsScalar value)
    (htokens : Separated values tokens) (htwo : 2 ≤ values.length) {s : Reading}
    (heach : ReadsEach values s.parameters es m) (hrest : Ending rest)
    (hnone : Lacks (.symbol .comma) rest) (hs : s.cursor.rest = tokens ++ rest) :
    ∃ f t, parseRow s = .ok (untyped (.row es) f) t ∧ t.parameters = m ∧ t.cursor.rest = rest := by
  obtain ⟨t, hlist, ht⟩ := parseList_pieces (fun value hv => (hvalues value hv).wholly) htokens heach hrest hnone hs
  refine ⟨s.cursor.fragment, t, (rowItems_run hlist).trans ?_, ht⟩
  have hlength := heach.length
  rcases es with _ | ⟨e, _ | ⟨e', es⟩⟩
  · rfl
  · rw [List.length_singleton] at hlength
    omega
  · rfl

end Expr

/-! ## Clauses -/

namespace SetClause

variable {range : Range} {clause : SetClause} {columns values : List (List Token)}
  {names : List (Option Token × Token)} {es : List Expr} {k m : Nat}

theorem extend_length {name : Option Token × Token} {c : SetClause}
    (h : extend range clause name = some c) :
    c.columnMap.length = clause.columnMap.length + 1 := by
  unfold extend at h
  split at h
  · cases h
  · split at h
    · cases h
    · split at h
      · cases h
      · next map hmap =>
        obtain rfl := Option.some.inj h
        unfold ColumnMap.insert at hmap
        split at hmap
        · cases hmap
        · obtain rfl := Except.ok.inj hmap
          simp [ColumnMap.length]

theorem extendAll_length {c : SetClause} (h : names.foldlM (extend range) clause = some c) :
    c.columnMap.length = clause.columnMap.length + names.length := by
  induction names generalizing clause with
  | nil =>
    obtain rfl := Option.some.inj h
    rfl
  | cons name names ih =>
    rw [List.foldlM_cons] at h
    obtain ⟨extended, hextended, h⟩ := Option.bind_eq_some_iff.1 h
    rw [ih h, extend_length hextended, List.length_cons]
    omega

/-- A single target is no group. -/
theorem addTargets_foretold (range : Range) (clause : SetClause) {column rest : List Token} {name : Option Token × Token}
    (hname : NamesColumn column name) (hrest : Lacks (.symbol .dot) rest) {c : Cursor}
    (hc : c.rest = column ++ rest) :
    Foretold (fun b a d => a = (b, false) ∧ d.rest = rest) (extend range clause name)
      (addTargets range clause c) := by
  obtain ⟨x, ts, rfl, hx⟩ := hname.head
  have hopening : Reader.skipSymbol .openParen c = .ok false c := by
    obtain ⟨past, ts⟩ := c
    obtain rfl : ts = _ := hc
    refine Reader.skipSymbol_absent (.cons fun hk => ?_)
    simpa [Token.isSymbol, hk] using Token.isSymbol_of_isIdentifier hx .openParen
  rw [addTargets, bind_run hopening]
  exact (addTarget_foretold hname hrest hc).andThen fun b a d h =>
    ⟨_, d, rfl, by rw [h.1], h.2⟩

/-- Targets between brackets are a group. -/
theorem addGroup_foretold (range : Range) (clause : SetClause) {opening closing : Token} {tokens rest : List Token}
    (hopening : opening.kind = .symbol .openParen) (hcolumns : Separated columns tokens)
    (hnames : List.Forall₂ NamesColumn columns names) (hclosing : closing.kind = .symbol .closeParen)
    {s : Reading} (hs : s.cursor.rest = opening :: (tokens ++ closing :: rest)) :
    Foretold (fun b a t => a = (b, true) ∧ t.parameters = s.parameters ∧ t.cursor.rest = rest)
      (names.foldlM (extend range) clause)
      ((liftM (addTargets range clause) : Parser (SetClause × Bool)) s) := by
  obtain ⟨⟨past, _⟩, k⟩ := s
  obtain rfl : _ = _ := hs
  rw [addTargets, lift_reader_bind, bind_run (lift_reader_run (Reader.skipSymbol_present hopening))]
  simp only [↓reduceIte, lift_reader_bind]
  have hending : Ending (closing :: rest) := .cons (by simp [hclosing, endings])
  have htargets := targets_foretold range clause hcolumns hnames hending
    (.cons (by simp [hclosing]))
    (s := ⟨⟨opening :: past, tokens ++ closing :: rest⟩, k⟩) rfl
  refine htargets.andThen ?_
  rintro c _ ⟨⟨past', _⟩, _⟩ ⟨rfl, rfl, rfl⟩
  rw [bind_run (lift_reader_run (Reader.ofKind_present hclosing))]
  exact ⟨_, _, rfl, rfl, rfl, rfl⟩

/-- What an assignment adds to a clause and to the question marks before it. -/
def assign (range : Range) (told : SetClause × Nat)
    (assigned : (Option Token × Token) × List Token) : Option (SetClause × Nat) := do
  let extended ← extend range told.1 assigned.1
  let read ← Expr.readAlone assigned.2 told.2
  return ({ extended with values := extended.values ++ [read.1] }, read.2)

/-- The value of a single target is an expression. -/
theorem readValue_single {degree : Nat} (h : ¬ degree > 1) :
    readValue false false degree = Expr.parse := by
  funext s
  simp only [readValue, Bool.false_eq_true, ↓reduceIte, h, pure_bind]
  rfl

theorem addAssignment_piece {column value : List Token} {name : Option Token × Token}
    {equal : Token} (hname : NamesColumn column name) (hequal : equal.kind = .symbol .equal)
    (hvalue : Expr.ReadsScalar value) :
    ReadsPiece (addAssignment false range) (column ++ equal :: value) (assign range · (name, value)) := by
  intro clause s rest hrest hs
  rw [List.append_assoc] at hs
  have hdot : Lacks (.symbol .dot) (equal :: (value ++ rest)) := .cons (by simp [hequal])
  have htargets := (addTargets_foretold range clause hname hdot hs).told
  unfold addAssignment assign
  refine htargets.lift_reader.bind ?_
  rintro extended _ ⟨⟨past, _⟩, n⟩ ⟨⟨hextended, rfl, rfl⟩, rfl⟩
  have hdegree : ¬ extended.columnMap.length - clause.columnMap.length > 1 := by
    rw [extend_length hextended]
    omega
  dsimp only
  rw [bind_run (lift_reader_run (Reader.ofKind_present hequal)), readValue_single hdegree]
  have hparse := Expr.parse_foretold hvalue.wholly hrest
    (s := ⟨⟨equal :: past, value ++ rest⟩, s.parameters⟩) rfl
  exact hparse.bind fun read e t h => .ok ⟨by rw [h.value], h.parameters, h.rest⟩

theorem extend_keeps {name : Option Token × Token} {c : SetClause}
    (h : extend range clause name = some c) : c.values = clause.values := by
  have hsame : extend range clause name =
      (extend range clause name).map fun c => { c with values := clause.values } :=
    extend_values clause.values
  rw [h, Option.map_some] at hsame
  have hvalues := congrArg SetClause.values (Option.some.inj hsame)
  exact hvalues

theorem extendAll_values (values : List Expr) :
    names.foldlM (extend range) { clause with values := values } =
      (names.foldlM (extend range) clause).map fun c => { c with values := values } := by
  induction names generalizing clause with
  | nil => rfl
  | cons name names ih =>
    rw [List.foldlM_cons, List.foldlM_cons, extend_values]
    cases extend range clause name with
    | none => rfl
    | some c => exact ih

theorem extendAll_respelled {P : Likeness} {range range' : Range} {clause clause' : SetClause}
    {names names' : List (Option Token × Token)} (hrange : range.Respelled P range')
    (hclause : clause.Respelled P clause')
    (hnames : List.Forall₂ (TargetColumn.NameRespelled P) names names') :
    Option.Rel (SetClause.Respelled P) (names.foldlM (extend range) clause)
      (names'.foldlM (extend range') clause') := by
  induction hnames generalizing clause clause' with
  | nil => exact .some hclause
  | cons hname _ ih =>
    simp only [List.foldlM_cons]
    exact (extend_respelled hrange hclause hname).elim .none fun _ _ hclause => ih hclause

theorem extendAll_keeps {c : SetClause} (h : names.foldlM (extend range) clause = some c) :
    c.values = clause.values := by
  have hsame : names.foldlM (extend range) clause =
      (names.foldlM (extend range) clause).map fun c => { c with values := clause.values } :=
    extendAll_values clause.values
  rw [h, Option.map_some] at hsame
  have hvalues := congrArg SetClause.values (Option.some.inj hsame)
  exact hvalues

/-- Separate assignments give all the targets, and all the values one after the other. -/
theorem assignAll (range : Range) (clause : SetClause) (heach : Expr.ReadsEach values k es m) (hlength : names.length = values.length) :
    (names.zip values).foldlM (assign range) (clause, k) =
      (names.foldlM (extend range) clause).map fun c =>
        ({ c with values := clause.values ++ es }, m) := by
  induction heach generalizing names clause with
  | nil =>
    obtain rfl : names = [] := List.eq_nil_of_length_eq_zero hlength
    simp
  | @cons value values e es k l m h _ ih =>
    obtain ⟨name, names, rfl⟩ := List.exists_cons_of_length_eq_add_one hlength
    rw [List.zip_cons_cons, List.foldlM_cons, List.foldlM_cons]
    cases hextend : extend range clause name with
    | none => simp [assign, hextend]
    | some c =>
      have hassign : assign range (clause, k) (name, value) =
          some ({ c with values := c.values ++ [e] }, l) := by simp [assign, hextend, h]
      rw [hassign]
      refine (ih _ (by simpa using hlength)).trans ?_
      rw [extendAll_values, extend_keeps hextend, Option.map_map]
      simp [Function.comp_def]

/-- The tokens that assign a column a value. -/
def Assigns (assigned : List Token × List Token) (tokens : List Token) : Prop :=
  ∃ equal : Token, equal.kind = .symbol .equal ∧ tokens = assigned.1 ++ equal :: assigned.2

theorem assignments_pieces {columns values assignments : List (List Token)}
    (hnames : List.Forall₂ NamesColumn columns names)
    (hvalues : ∀ value ∈ values, Expr.ReadsScalar value)
    (hassignments : List.Forall₂ Assigns (columns.zip values) assignments) :
    List.Forall₂ (fun piece item => ReadsPiece (addAssignment false range) piece (assign range · item))
      assignments (names.zip values) := by
  induction hnames generalizing values assignments with
  | nil =>
    cases hassignments
    exact .nil
  | cons hname _ ih =>
    cases values with
    | nil =>
      cases hassignments
      exact .nil
    | cons value values =>
      obtain _ | ⟨⟨equal, hequal, rfl⟩, hassignments⟩ := hassignments
      exact .cons (addAssignment_piece hname hequal (hvalues value (by simp)))
        (ih (fun value hv => hvalues value (by simp [hv])) hassignments)

/-- Columns that are assigned their values one by one. -/
theorem read_separate (range : Range) {columns values assignments : List (List Token)}
    {tokens tail : List Token} {s : Reading} (hnames : List.Forall₂ NamesColumn columns names)
    (hvalues : ∀ value ∈ values, Expr.ReadsScalar value) (hlength : columns.length = values.length)
    (hassignments : List.Forall₂ Assigns (columns.zip values) assignments)
    (htokens : Separated assignments tokens) (heach : Expr.ReadsEach values s.parameters es m)
    (htail : Ending tail) (hnone : Lacks (.symbol .comma) tail)
    (hs : s.cursor.rest = tokens ++ tail) :
    Foretold (Before tail) ((names.foldlM (extend range) {}).map fun c =>
      ({ c with values := es }, m)) (read false range s) := by
  have hfold := assignAll range {} heach (hnames.length_eq.symm.trans hlength)
  rw [List.nil_append] at hfold
  rw [← hfold]
  exact commaSteps_pieces htail hnone htokens (assignments_pieces hnames hvalues hassignments) hs

/-- A row of some values. -/
theorem readRow_pieces {opening closing : Token} {tokens tail : List Token} {s : Reading}
    (hopening : opening.kind = .symbol .openParen) (hclosing : closing.kind = .symbol .closeParen)
    (hvalues : ∀ value ∈ values, Expr.ReadsScalar value) (htokens : Separated values tokens)
    (htwo : 2 ≤ values.length) (heach : Expr.ReadsEach values s.parameters es m)
    (hs : s.cursor.rest = opening :: (tokens ++ closing :: tail)) :
    ∃ f t, readRow values.length s = .ok (.untyped (.row es) f) t ∧ t.parameters = m ∧
      t.cursor.rest = tail := by
  obtain ⟨⟨past, _⟩, k⟩ := s
  obtain rfl : _ = _ := hs
  obtain ⟨f, ⟨⟨past', _⟩, _⟩, hrow, rfl, rfl⟩ := Expr.parseRow_pieces hvalues htokens htwo
    (s := ⟨⟨opening :: past, tokens ++ closing :: tail⟩, k⟩) heach
    (.cons (by simp [hclosing, endings])) (.cons (by simp [hclosing])) rfl
  refine ⟨f, ⟨⟨closing :: past', tail⟩, _⟩, ?_, rfl, rfl⟩
  have hdegree : (Expr.untyped (.row es) f).degree = values.length := heach.length
  have hisRow : (Expr.untyped (.row es) f).isRow = true := rfl
  rw [readRow, bind_run (lift_reader_run (Reader.ofKind_present hopening)), bind_run hrow,
    bind_run (lift_reader_run (Reader.ofKind_present hclosing))]
  simp only [hisRow, ↓reduceIte, hdegree]
  rfl

/-- What comes after the first value of a row does not begin with SELECT. -/
theorem opensSelect_later {closing : Token} {tokens tail : List Token}
    (h : AfterCommas values tokens) (hclosing : closing.kind = .symbol .closeParen) :
    opensSelect (tokens ++ closing :: tail) = false := by
  cases h with
  | nil => exact opensSelect_symbol hclosing (by decide)
  | cons hcomma => exact opensSelect_symbol hcomma (by decide)

/-- The tokens that assign a group of columns a row of values. -/
inductive AssignsRow (columns values : List (List Token)) : List Token → Prop
  | intro {opening closing equal opening' closing' : Token} {before between : List Token}
      (hopening : opening.kind = .symbol .openParen) (hcolumns : Separated columns before)
      (hclosing : closing.kind = .symbol .closeParen) (hequal : equal.kind = .symbol .equal)
      (hopening' : opening'.kind = .symbol .openParen) (hvalues : Separated values between)
      (hclosing' : closing'.kind = .symbol .closeParen) :
      AssignsRow columns values
        (opening :: (before ++ closing :: equal :: opening' :: (between ++ [closing'])))

/-- The value of a group of columns is a row, unless SELECT comes after its brackets. -/
theorem readValue_group {degree : Nat} (h : 2 ≤ degree) {s : Reading}
    (hnone : bracketsBeforeSelect? s.cursor = none) :
    readValue false true degree s = readRow degree s := by
  have hdegree : degree > 1 := h
  have hget : (get : Parser Reading) s = .ok s s := rfl
  rw [readValue, bind_run hget]
  simp only [↓reduceIte, hnone, Bool.false_eq_true, pure_bind, hdegree]

/-- A row of values is taken for a subquery, and refused, if its first value begins with one. -/
theorem readValue_row {opening closing : Token} {between tail : List Token} {s : Reading}
    (hvalues : ∀ value ∈ values, Expr.ReadsScalar value) (htwo : 2 ≤ values.length)
    (hopening : opening.kind = .symbol .openParen) (hbetween : Separated values between)
    (hclosing : closing.kind = .symbol .closeParen)
    (heach : Expr.ReadsEach values s.parameters es m)
    (hs : s.cursor.rest = opening :: (between ++ closing :: tail)) :
    Foretold (fun _ e t => (∃ f, e = .untyped (.row es) f) ∧ t.parameters = m ∧ t.cursor.rest = tail)
      (if values.head?.any opensSelect then none else some ())
      (readValue false true values.length s) := by
  obtain ⟨first, hlater⟩ := id hbetween
  rw [List.append_assoc] at hs
  cases hselect : opensSelect first with
  | true =>
    -- a bracketed subquery at the front is taken for the whole group, which ends at the comma
    obtain ⟨hclosed, o, value, rfl, ho⟩ := (hvalues first (by simp)).opens hselect
    cases hlater with
    | nil => simp at htwo
    | cons hcomma second hlater =>
      have hopening : opening.isSymbol .openParen = true := by simp [Token.isSymbol, hopening]
      obtain ⟨brackets, hsome, hrefused⟩ := readQuery_refused (s := s) hclosed hopening ho hcomma
        hselect (by simpa using hs)
      have hget : (get : Parser Reading) s = .ok s s := rfl
      rw [readValue, bind_run hget]
      simp only [↓reduceIte, hsome, List.head?_cons, Option.any_some, hselect]
      cases hrun : readQuery _ brackets s with
      | ok e t => exact absurd hrun (hrefused e t)
      | error => exact .error
  | false =>
    have hnone : bracketsBeforeSelect? s.cursor = none := by
      refine bracketsBeforeSelect?_of_opensSelect ?_
      rw [hs, opensSelect_opening hopening, opensSelect_append (opensSelect_later hlater hclosing),
        hselect]
    obtain ⟨f, t, hrow, ht⟩ := readRow_pieces hopening hclosing hvalues hbetween htwo heach
      (by rw [hs, List.append_assoc])
    rw [(readValue_group htwo hnone).trans hrow]
    simp only [List.head?_cons, Option.any_some, hselect, Bool.false_eq_true, ↓reduceIte]
    exact .ok ⟨⟨f, rfl⟩, ht⟩

/-- A group of columns that is assigned a row of values. -/
theorem read_grouped {columns values : List (List Token)} {tokens tail : List Token} {s : Reading}
    (hnames : List.Forall₂ NamesColumn columns names)
    (hvalues : ∀ value ∈ values, Expr.ReadsScalar value) (htwo : 2 ≤ values.length)
    (hlength : columns.length = values.length) (htokens : AssignsRow columns values tokens)
    (heach : Expr.ReadsEach values s.parameters es m) (hnone : Lacks (.symbol .comma) tail)
    (hs : s.cursor.rest = tokens ++ tail) :
    Foretold (fun c a t => (∃ f, a = { c with values := [.untyped (.row es) f] }) ∧
        t.parameters = m ∧ t.cursor.rest = tail)
      (if values.head?.any opensSelect then none else names.foldlM (extend range) {})
      (read false range s) := by
  refine commaSteps_once ?_ fun _ _ _ h => h.2.2 ▸ hnone
  obtain @⟨opening, closing, equal, opening', closing', before, between, hopening, hcolumns,
    hclosing, hequal, hopening', hbetween, hclosing'⟩ := htokens
  simp only [List.cons_append, List.append_assoc, List.nil_append] at hs
  have hgroup := (addGroup_foretold range {} hopening hcolumns hnames hclosing hs).told
  have hassigned : Foretold (fun c a t => (∃ f, a = { c with values := [.untyped (.row es) f] }) ∧
        t.parameters = m ∧ t.cursor.rest = tail)
      (names.foldlM (extend range) {} >>= fun c =>
        (if values.head?.any opensSelect then none else some ()).map fun _ => c)
      (addAssignment false range {} s) := by
    refine hgroup.bind ?_
    rintro extended _ ⟨⟨past, _⟩, k⟩ ⟨hextended, rfl, rfl, rfl⟩
    dsimp only
    rw [bind_run (lift_reader_run (Reader.ofKind_present hequal))]
    -- the group starts from an empty list, so its degree is the number of its columns
    have hdegree : extended.columnMap.length - (SetClause.columnMap {}).length = values.length := by
      rw [extendAll_length hextended, ← hnames.length_eq, hlength]
      simp [ColumnMap.length, ColumnMap.empty]
    rw [hdegree]
    have hvalue := readValue_row hvalues htwo hopening' hbetween hclosing'
      (s := ⟨⟨equal :: past, opening' :: (between ++ closing' :: tail)⟩, s.parameters⟩) heach rfl
    refine (hvalue.andThen ?_).map (fun _ => extended) fun _ _ _ h => h
    rintro _ _ t ⟨⟨f, rfl⟩, ht⟩
    refine ⟨_, t, rfl, ⟨f, ?_⟩, ht⟩
    rw [extendAll_keeps hextended, List.nil_append]
  split
  · next hselect => simpa [hselect] using hassigned
  · next hselect => simpa [hselect] using hassigned

end SetClause

end DataChange
