import DataChange.Proofs.Expr.Lookup
import DataChange.Proofs.Marker.Clauses
import DataChange.Proofs.Target.Groups

/-!
# Target columns by name

A statement names its target columns in a list between brackets or as the targets of its
assignments. The column map lists, in the order of the names, the first column of each name
(`ColumnMap.Listing`, `SetClause.Names`); where no list stands, all columns are meant.
-/

namespace DataChange

/-! ## Names in tokens -/

theorem Token.isSymbol_of_isIdentifier {t : Token} (h : t.isIdentifier = true) (s : Symbol) :
    t.isSymbol s = false := by
  unfold isIdentifier at h
  unfold isSymbol
  split at h <;> simp_all

theorem Token.isKeyword_of_isIdentifier {t : Token} (h : t.isIdentifier = true) {k : Keyword}
    (hk : k.isReserved = true) : t.isKeyword k = false := by
  unfold isIdentifier at h
  unfold isKeyword
  split at h <;> simp_all
  grind

/-- The name of a column at the head of some tokens, maybe behind a qualifier, and what follows. -/
inductive ColumnName : List Token → Token → List Token → Prop
  | plain {name : Token} (hname : name.isIdentifier = true) (rest : List Token) :
      ColumnName (name :: rest) name rest
  | qualified {qualifier dot name : Token} (hqualifier : qualifier.isIdentifier = true)
      (hdot : dot.kind = .symbol .dot) (hname : name.isIdentifier = true) (rest : List Token) :
      ColumnName (qualifier :: dot :: name :: rest) name rest

/-- The names of columns between commas, and what follows the last one. -/
inductive ColumnNames (tokens : List Token) : List Token → List Token → Prop
  | first {name : Token} {rest : List Token} (h : ColumnName tokens name rest) :
      ColumnNames tokens [name] rest
  | more {names : List Token} {comma name : Token} {mid rest : List Token}
      (hnames : ColumnNames tokens names (comma :: mid)) (hcomma : comma.kind = .symbol .comma)
      (h : ColumnName mid name rest) : ColumnNames tokens (names ++ [name]) rest

/-- The names of columns between brackets, and what follows these. -/
inductive ColumnList : List Token → List Token → List Token → Prop
  | intro {opening closing : Token} {tokens names rest : List Token}
      (hopening : opening.kind = .symbol .openParen)
      (hnames : ColumnNames tokens names (closing :: rest))
      (hclosing : closing.kind = .symbol .closeParen) : ColumnList (opening :: tokens) names rest

/-- The names of the targets of one assignment: one name or a group between brackets. -/
inductive TargetNames : List Token → List Token → List Token → Prop
  | one {tokens rest : List Token} {name : Token} (h : ColumnName tokens name rest) :
      TargetNames tokens [name] rest
  | group {tokens names rest : List Token} (h : ColumnList tokens names rest) :
      TargetNames tokens names rest

/-- The ordinals of the first columns of some names. -/
def Range.FirstOfNames (r : Range) (names : List Token) (ordinals : List Nat) : Prop :=
  List.Forall₂ (fun name ordinal => r.FirstNamed name.text ordinal) names ordinals

theorem Range.FirstOfNames.append {r : Range} {names names' : List Token} {ordinals ordinals' : List Nat}
    (h : r.FirstOfNames names ordinals) (h' : r.FirstOfNames names' ordinals') :
    r.FirstOfNames (names ++ names') (ordinals ++ ordinals') :=
  List.rel_append h h'

theorem ColumnName.head {tokens rest : List Token} {name : Token} (h : ColumnName tokens name rest) :
    ∃ x ts, tokens = x :: ts ∧ x.isIdentifier = true := by
  cases h with
  | plain hname rest => exact ⟨name, rest, rfl, hname⟩
  | qualified hqualifier _ _ rest => exact ⟨_, _, rfl, hqualifier⟩

theorem ColumnNames.head {tokens names rest : List Token} (h : ColumnNames tokens names rest) :
    ∃ x ts, tokens = x :: ts ∧ x.isIdentifier = true := by
  induction h with
  | first h => exact h.head
  | more _ _ _ ih => exact ih

/-! ## Column lists -/

section

variable {range : Range} {c d : Cursor}

theorem TargetColumn.find_firstNamed {qualifier : Option Token} {name : Token}
    {column : TargetColumn} (h : find range qualifier name = .ok column) :
    range.FirstNamed name.text column.ordinal := by
  unfold find at h
  split at h
  · next ordinal hfound =>
    cases h
    exact Range.firstNamed_of_columnIndex? hfound
  · cases h

theorem TargetColumn.readName_ok {qualifier : Option Token} {name : Token}
    (h : readName c = .ok (qualifier, name) d) : ColumnName c.rest name d.rest := by
  simp only [readName, bind_ok] at h
  obtain ⟨first, u, hfirst, found, v, hdot, h⟩ := h
  obtain ⟨hidentifier, hc⟩ := Reader.identifier_ok hfirst
  cases found with
  | true =>
    simp only [↓reduceIte, bind_ok, pure_ok, Prod.mk.injEq] at h
    obtain ⟨name', _, hname, ⟨-, rfl⟩, rfl⟩ := h
    obtain ⟨dot, hdot, hu⟩ := Reader.skipSymbol_true hdot
    obtain ⟨hname, hv⟩ := Reader.identifier_ok hname
    rw [hc, hu, hv]
    exact .qualified hidentifier hdot hname _
  | false =>
    simp only [Bool.false_eq_true, ↓reduceIte, pure_ok, Prod.mk.injEq] at h
    obtain ⟨⟨-, rfl⟩, rfl⟩ := h
    obtain ⟨rfl, -⟩ := Reader.skipSymbol_false hdot
    rw [hc]
    exact .plain hidentifier _

/-- A target column is the first one of the name that is read. -/
theorem TargetColumn.read_names {qualified : Bool} {column : TargetColumn}
    (h : read range qualified c = .ok column d) :
    ∃ name, ColumnName c.rest name d.rest ∧ range.FirstNamed name.text column.ordinal := by
  simp only [read, bind_ok, Prod.exists] at h
  obtain ⟨qualifier, name, u, hname, h⟩ := h
  obtain ⟨m, hm, h⟩ := run_eq h
  split at hm
  · subst hm
    exact (throw_ok.1 h).elim
  · split at hm <;> subst hm
    · next found hfound =>
      obtain ⟨rfl, rfl⟩ := pure_ok.1 h
      exact ⟨name, readName_ok hname, find_firstNamed hfound⟩
    · exact (throw_ok.1 h).elim

/-- What a step that reads a name adds to some ordinals. -/
def AddsName (range : Range) (c d : Cursor) (ordinals ordinals' : List Nat) : Prop :=
  ∃ name ordinal, ColumnName c.rest name d.rest ∧ range.FirstNamed name.text ordinal ∧
    ordinals' = ordinals ++ [ordinal]

/-- What names between commas add, by what each adds. -/
theorem commaSteps_names {σ : Type} {step : σ → Reader σ} (ordinals : σ → List Nat)
    (hstep : ∀ {a b : σ} {c d : Cursor}, step a c = .ok b d →
      AddsName range c d (ordinals a) (ordinals b)) {a b : σ} (h : commaSteps step a c = .ok b d) :
    ∃ names group, ColumnNames c.rest names d.rest ∧ range.FirstOfNames names group ∧
      ordinals b = ordinals a ++ group := by
  refine commaSteps_induct (fun b d => ∃ names group, ColumnNames c.rest names d.rest ∧
    range.FirstOfNames names group ∧ ordinals b = ordinals a ++ group) h ?_ ?_ ?_ ?_
  · intro b u h
    obtain ⟨name, ordinal, hname, hfirst, hadds⟩ := hstep h
    exact ⟨[name], [ordinal], .first hname, .cons hfirst .nil, hadds⟩
  · intro b u n v hi hlook
    obtain ⟨-, rfl⟩ := Reader.remaining_ok hlook
    exact hi
  · rintro b u v b' w ⟨names, group, hnames, hfirsts, hadds⟩ hcomma h
    obtain ⟨name, ordinal, hname, hfirst, hadds'⟩ := hstep h
    obtain ⟨comma, hkind, hu⟩ := Reader.skipSymbol_true hcomma
    exact ⟨names ++ [name], group ++ [ordinal], .more (hu ▸ hnames) hkind hname,
      hfirsts.append (.cons hfirst .nil), by rw [hadds', hadds, List.append_assoc]⟩
  · rintro b u v hi hcomma
    obtain ⟨rfl, -⟩ := Reader.skipSymbol_false hcomma
    exact hi

theorem TargetColumn.addTo_names {qualified : Bool} {column : TargetColumn} {map map' : ColumnMap}
    {e : Cursor} (hread : read range qualified c = .ok column d)
    (hadd : column.addTo map d = .ok map' e) : AddsName range c e map.ordinals map'.ordinals := by
  obtain ⟨name, hname, hfirst⟩ := read_names hread
  obtain rfl := addTo_stays hadd
  exact ⟨name, column.ordinal, hname, hfirst, addTo_ok hadd⟩

theorem ColumnMap.read_names {qualified : Bool} {map : ColumnMap}
    (h : ColumnMap.read range qualified c = .ok map d) :
    ∃ names, ColumnList c.rest names d.rest ∧ range.FirstOfNames names map.ordinals := by
  simp only [ColumnMap.read, bind_ok, pure_ok] at h
  obtain ⟨opening, c₁, hopening, map, d₁, hsteps, closing, _, hclosing, rfl, rfl⟩ := h
  obtain ⟨hopening, hc⟩ := Reader.symbol_ok hopening
  obtain ⟨hclosing, hd⟩ := Reader.symbol_ok hclosing
  obtain ⟨names, group, hnames, hfirst, hadds⟩ := commaSteps_names ColumnMap.ordinals
    (fun h => by
      simp only [bind_ok] at h
      obtain ⟨column, _, hread, hadd⟩ := h
      exact TargetColumn.addTo_names hread hadd) hsteps
  rw [hc, hadds]
  exact ⟨names, .intro hopening (hd ▸ hnames) hclosing, hfirst⟩

/-- The columns that a column list at the head of some tokens names, none of them twice, or all
columns if there is no such list. -/
inductive ColumnMap.Listing (range : Range) (tokens : List Token) : ColumnMap → Prop
  | list {map : ColumnMap} {names rest : List Token} (hlist : ColumnList tokens names rest)
      (hnames : range.FirstOfNames names map.ordinals) (hnodup : map.ordinals.Nodup) :
      Listing range tokens map
  | all (h : ∀ names rest, ¬ ColumnList tokens names rest) :
      Listing range tokens (.all range.columns.length)

theorem ColumnMap.Listing.nodup {tokens : List Token} {map : ColumnMap}
    (h : map.Listing range tokens) : map.ordinals.Nodup := by
  cases h with
  | list _ _ hnodup => exact hnodup
  | all => exact List.nodup_range

theorem ColumnMap.Listing.within {tokens : List Token} {map : ColumnMap}
    (h : map.Listing range tokens) : map.Within range := by
  cases h with
  | list _ hnames _ =>
    intro ordinal ho
    obtain ⟨name, -, ⟨column, hcolumn, -⟩, -⟩ := forall₂_exists_left hnames ho
    exact (List.getElem?_eq_some_iff.1 hcolumn).1
  | all => exact all_within range

/-- Whether an INSERT brings nothing but defaults, by what follows its target. -/
def startsDefaults (after : List Token) : Bool :=
  after.head?.any (·.isKeyword .DEFAULT)

/-- The columns that are listed after THEN INSERT among some tokens. -/
def ColumnMap.ListingAfter (range : Range) (tokens : List Token) (map : ColumnMap) : Prop :=
  ∃ before thenWord insertWord list, tokens = before ++ thenWord :: insertWord :: list ∧
    thenWord.kind = .keyword .THEN ∧ insertWord.kind = .keyword .INSERT ∧ map.Listing range list

theorem ColumnMap.ListingAfter.listing {tokens : List Token} {map : ColumnMap}
    (h : map.ListingAfter range tokens) : ∃ list, map.Listing range list := by
  obtain ⟨_, _, _, list, -, -, -, hlisting⟩ := h
  exact ⟨list, hlisting⟩

theorem ColumnMap.ListingAfter.mono {tokens tokens' : List Token} {map : ColumnMap}
    (h : map.ListingAfter range tokens) (hsub : tokens <:+ tokens') :
    map.ListingAfter range tokens' := by
  obtain ⟨before, thenWord, insertWord, list, rfl, hwords⟩ := h
  obtain ⟨more, rfl⟩ := hsub
  exact ⟨more ++ before, thenWord, insertWord, list, (List.append_assoc ..).symm, hwords⟩

/-- A list begins with a bracket and a name, and so is no query. -/
theorem ColumnList.head {names rest : List Token} (h : ColumnList c.rest names rest) :
    c.isSymbol .openParen = true ∧ Insert.isQueryAhead c = false := by
  generalize htokens : c.rest = tokens at h
  cases h with
  | @intro opening _ _ _ _ hopening hnames _ =>
    obtain ⟨x, ts, rfl, hx⟩ := hnames.head
    have hopening : opening.isSymbol .openParen = true := by simp [Token.isSymbol, hopening]
    refine ⟨by simp [Cursor.isSymbol, Cursor.peek?, htokens, hopening], ?_⟩
    have hword : ∀ k : Keyword, k.isReserved = true → x.isKeyword k = false :=
      fun k => Token.isKeyword_of_isIdentifier hx
    simp [Insert.isQueryAhead, htokens, hopening, Token.isSymbol_of_isIdentifier hx,
      hword .SELECT rfl, hword .TABLE rfl, hword .WITH rfl, hword .VALUES rfl]

theorem Insert.readColumns_listing {oracle : Bool} {map : ColumnMap}
    (h : readColumns oracle range c = .ok map d) : map.Listing range c.rest := by
  simp only [readColumns, bind_ok, get_ok] at h
  obtain ⟨_, _, ⟨rfl, rfl⟩, h⟩ := h
  split at h
  · obtain ⟨names, hlist, hfirst⟩ := ColumnMap.read_names h
    exact .list hlist hfirst (ColumnMap.read_nodup h)
  · next hnone =>
    obtain ⟨rfl, -⟩ := pure_ok.1 h
    refine .all fun names rest hlist => hnone ?_
    obtain ⟨hopening, hquery⟩ := hlist.head
    rw [hopening, hquery]
    rfl

theorem startsDefaults_of_skip {s t : CompilerState}
    (h : (liftM (Reader.skipKeyword .DEFAULT) : Compiler Bool) s = .ok true t) :
    startsDefaults s.cursor.rest = true := by
  obtain ⟨c, hc, -⟩ := lift_reader_compiler_ok.1 h
  obtain ⟨x, hx, hrest⟩ := Reader.skipKeyword_true hc
  simp [startsDefaults, hrest, Token.isKeyword, hx]

theorem startsDefaults_of_absent {s t : CompilerState}
    (h : (liftM (Reader.skipKeyword .DEFAULT) : Compiler Bool) s = .ok false t) :
    startsDefaults s.cursor.rest = false ∧ t.cursor = s.cursor := by
  obtain ⟨c, hc, rfl⟩ := lift_reader_compiler_ok.1 h
  obtain ⟨rfl, hother⟩ := Reader.skipKeyword_false hc
  refine ⟨?_, rfl⟩
  cases hrest : s.cursor.rest with
  | nil => rfl
  | cons x rest => simpa [startsDefaults, Token.isKeyword] using hother x rest hrest

end

/-! ## Targets of a SET clause -/

namespace SetClause

variable {range : Range} {clause clause' : SetClause}

theorem addTarget_names {c d : Cursor} (h : addTarget range clause c = .ok clause' d) :
    AddsName range c d clause.columnMap.ordinals clause'.columnMap.ordinals := by
  simp only [addTarget, bind_ok, pure_ok] at h
  obtain ⟨column, _, hread, map, _, hadd, rfl, rfl⟩ := h
  exact TargetColumn.addTo_names hread hadd

/-- What the targets of an assignment add to a clause: the first columns of their names. -/
theorem addTargets_names {bracketed : Bool} {c d : Cursor}
    (h : addTargets range clause c = .ok (clause', bracketed) d) :
    ∃ names group, TargetNames c.rest names d.rest ∧ range.FirstOfNames names group ∧
      clause'.columnMap.ordinals = clause.columnMap.ordinals ++ group := by
  simp only [addTargets, bind_ok] at h
  obtain ⟨found, u, hskip, h⟩ := h
  cases found with
  | false =>
    obtain ⟨rfl, -⟩ := Reader.skipSymbol_false hskip
    simp only [Bool.false_eq_true, ↓reduceIte, bind_ok, pure_ok, Prod.mk.injEq] at h
    obtain ⟨clause'', _, hadd, ⟨rfl, -⟩, rfl⟩ := h
    obtain ⟨name, ordinal, hname, hfirst, hadds⟩ := addTarget_names hadd
    exact ⟨[name], [ordinal], .one hname, .cons hfirst .nil, hadds⟩
  | true =>
    obtain ⟨opening, hopening, hc⟩ := Reader.skipSymbol_true hskip
    simp only [↓reduceIte, bind_ok, pure_ok, Prod.mk.injEq] at h
    obtain ⟨clause'', v, hsteps, closing, _, hclosing, ⟨rfl, -⟩, rfl⟩ := h
    obtain ⟨hclosing, hv⟩ := Reader.symbol_ok hclosing
    obtain ⟨names, group, hnames, hfirst, hadds⟩ :=
      commaSteps_names (fun b : SetClause => b.columnMap.ordinals) addTarget_names hsteps
    rw [hc]
    exact ⟨names, group, .group (.intro hopening (hv ▸ hnames) hclosing), hfirst, hadds⟩

/-- A clause read one assignment after the other, with the names of its targets: those before each
equals sign. -/
inductive Names (mysql : Bool) (range : Range) (s : Reading) :
    List Token → SetClause → Reading → Prop
  | first {names rest : List Token} {equal : Token} {clause : SetClause} {t : Reading}
      (h : addAssignment mysql range {} s = .ok clause t)
      (hnames : TargetNames s.cursor.rest names (equal :: rest))
      (hequal : equal.kind = .symbol .equal) : Names mysql range s names clause t
  | more {names names' rest : List Token} {equal : Token} {clause clause' : SetClause}
      {t u v : Reading} (hread : Names mysql range s names clause t)
      (hcomma : (liftM (Reader.skipSymbol .comma) : Parser Bool) t = .ok true u)
      (h : addAssignment mysql range clause u = .ok clause' v)
      (hnames : TargetNames u.cursor.rest names' (equal :: rest))
      (hequal : equal.kind = .symbol .equal) : Names mysql range s (names ++ names') clause' v

variable {mysql : Bool} {s t : Reading}

theorem addAssignment_names (h : addAssignment mysql range clause s = .ok clause' t) :
    ∃ names group equal rest, TargetNames s.cursor.rest names (equal :: rest) ∧
      equal.kind = .symbol .equal ∧ range.FirstOfNames names group ∧
      clause'.columnMap.ordinals = clause.columnMap.ordinals ++ group := by
  simp only [addAssignment, bind_ok, pure_ok, Prod.exists] at h
  obtain ⟨extended, bracketed, u, htargets, equal, v, hequal, value, _, -, rfl, -⟩ := h
  obtain ⟨c, hc, rfl⟩ := lift_reader_ok.1 htargets
  obtain ⟨d, hd, -⟩ := lift_reader_ok.1 hequal
  obtain ⟨names, group, hnames, hfirst, hmap⟩ := addTargets_names hc
  obtain ⟨hkind, hrest⟩ := Reader.symbol_ok hd
  exact ⟨names, group, equal, d.rest, hrest ▸ hnames, hkind, hfirst, hmap⟩

/-- The columns of a clause are the first ones of the names of its targets. -/
theorem ReadsGroups.names {groups : List (List Nat)}
    (h : ReadsGroups mysql range s groups clause t) :
    ∃ names, Names mysql range s names clause t ∧
      range.FirstOfNames names clause.columnMap.ordinals := by
  induction h with
  | first h hgroup =>
    obtain ⟨names, group, equal, rest, hnames, hequal, hfirst, hmap⟩ := addAssignment_names h
    exact ⟨names, .first h hnames hequal, by simpa [hmap, ColumnMap.empty] using hfirst⟩
  | more _ hcomma h hgroup ih =>
    obtain ⟨names, hread, hfirsts⟩ := ih
    obtain ⟨names', group, equal, rest, hnames, hequal, hfirst, hmap⟩ := addAssignment_names h
    exact ⟨names ++ names', .more hread hcomma h hnames hequal, hmap ▸ hfirsts.append hfirst⟩

end SetClause

/-! ## Flags -/

/-- A column map into some columns, with one flag for each column that tells whether it is there. -/
structure ColumnMap.Flagged (map : ColumnMap) (count : Nat) (flags : List Bool) : Prop where
  within : ∀ ordinal ∈ map.ordinals, ordinal < count
  length : flags.length = count
  flag : ∀ i < count, flags[i]? = some true ↔ i ∈ map.ordinals

theorem ColumnMap.checkList_flagged {map : ColumnMap} {count : Nat} {flags : List Bool}
    (h : map.checkList count = some flags) : map.Flagged count flags := by
  unfold checkList at h
  split at h
  · next hall =>
    obtain rfl := Option.some.inj h
    refine ⟨by simpa using hall, by simp, fun i hi => ?_⟩
    simp [List.getElem?_map, List.getElem?_range hi, contains]
  · cases h

end DataChange
