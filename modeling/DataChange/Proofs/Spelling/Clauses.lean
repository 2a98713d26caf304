import DataChange.Proofs.Spelling.Columns
import DataChange.Proofs.Spelling.Queries
import DataChange.Statement.Insert
import DataChange.Statement.Slice
import DataChange.Target.Assignment

/-!
# Respelled clauses

Target columns, assignments, rows and slices, read from spellings of the same tokens.
-/

namespace DataChange

variable {P : Likeness} {range range' : Range}

/-! ## Target columns -/

/-- Two spellings of a column named as a target. -/
structure TargetColumn.Respelled (P : Likeness) (c c' : TargetColumn) : Prop where
  ordinal : c'.ordinal = c.ordinal
  expr : c.expr.Respelled P c'.expr

theorem ColumnMap.insert_concur (map : ColumnMap) (column : Nat) (name name' : String)
    {f f' : Fragment} (hf : f.Respelled P f') :
    Concur P (· = ·) (map.insert column name f) (map.insert column name' f') := by
  unfold insert
  split
  · exact .error hf
  · exact .ok rfl

namespace TargetColumn

theorem qualifies_eq (h : range.Respelled P range') {q q' : String}
    (hq : Text.foldCase q = Text.foldCase q') : qualifies range' q' = qualifies range q := by
  simp only [qualifies, h.isNamed hq, h.relation?, Text.sameName, hq]

theorem checkQualifier_concur (h : range.Respelled P range') (allowed : Bool)
    {qualifier qualifier' : Option Token} (hq : Option.Rel (Token.Respelled P) qualifier qualifier')
    (name name' : Token) :
    Concur P (fun _ _ => True) (checkQualifier range allowed qualifier name)
      (checkQualifier range' allowed qualifier' name') := by
  cases hq with
  | none => exact .ok trivial
  | some hq =>
    unfold checkQualifier
    dsimp only
    rw [qualifies_eq h (P.foldCase_eq hq.text)]
    split
    · exact .error hq.fragment
    · split
      · exact .ok trivial
      · exact .error hq.fragment

theorem find_concur (h : range.Respelled P range') {qualifier qualifier' : Option Token}
    (hq : Option.Rel (Token.Respelled P) qualifier qualifier') {name name' : Token}
    (hname : name.Respelled P name') :
    Concur P (TargetColumn.Respelled P) (find range qualifier name)
      (find range' qualifier' name') := by
  unfold find
  refine (h.columnIndex? (P.foldCase_eq hname.text)).elim (.error hname.fragment) fun i j hij => ?_
  have hqualifier : (qualifier.map Token.text).map P.fold =
      (qualifier'.map Token.text).map P.fold := by
    cases hq with
    | none => rfl
    | some hq => exact congrArg some hq.text
  refine .ok ⟨hij.1, ?_⟩
  dsimp only
  rw [hij.1]
  exact .boundColumn h.number _ _ hqualifier hij.2 hname.fragment

/-- Two spellings of a name that may be qualified. -/
def NameRespelled (P : Likeness) (n n' : Option Token × Token) : Prop :=
  Option.Rel (Token.Respelled P) n.1 n'.1 ∧ n.2.Respelled P n'.2

theorem readName_tracks : Tracks (.cursors P) (NameRespelled P) readName readName :=
  Reader.identifier_tracks.bind fun _ _ hfirst => (Reader.skipSymbol_tracks _).whether
    (Reader.identifier_tracks.bind fun _ _ hsecond => .pure ⟨.some hfirst, hsecond⟩)
    (.pure ⟨.none, hfirst⟩)

theorem read_tracks (h : range.Respelled P range') (qualified : Bool) :
    Tracks (.cursors P) (TargetColumn.Respelled P) (read range qualified)
      (read range' qualified) := by
  refine readName_tracks.bind fun (_, name) (_, name') hname => ?_
  dsimp only
  refine (checkQualifier_concur h qualified hname.1 name name').elim (fun _ _ _ => ?_)
    fun _ _ he => .throw he
  exact (find_concur h hname.1 hname.2).elim (fun _ _ hcolumn => .pure hcolumn)
    fun _ _ he => .throw he

theorem addTo_tracks {column column' : TargetColumn} (h : column.Respelled P column')
    (map : ColumnMap) : Tracks (.cursors P) (· = ·) (column.addTo map) (column'.addTo map) := by
  unfold addTo
  rw [h.ordinal]
  refine (map.insert_concur column.ordinal column.name column'.name h.expr.fragment).elim ?_
    fun _ _ he => .throw he
  rintro map _ rfl
  exact .pure rfl

end TargetColumn

theorem ColumnMap.read_tracks (h : range.Respelled P range') (qualified : Bool) :
    Tracks (.cursors P) (· = ·) (ColumnMap.read range qualified) (ColumnMap.read range' qualified) := by
  refine (Reader.symbol_tracks _).bind fun _ _ _ => ?_
  refine Tracks.bindSame (.commaSteps seesCommas_cursors ?_ rfl) fun _ =>
    (Reader.symbol_tracks _).bind fun _ _ _ => .pure rfl
  rintro map _ rfl
  exact (TargetColumn.read_tracks h qualified).bind fun _ _ hcolumn =>
    TargetColumn.addTo_tracks hcolumn map

/-! ## SET -/

/-- Two spellings of the assignments of a SET clause. -/
structure SetClause.Respelled (P : Likeness) (c c' : SetClause) : Prop where
  columnMap : c'.columnMap = c.columnMap
  targets : List.Forall₂ (Expr.Respelled P) c.targets c'.targets
  values : List.Forall₂ (Expr.Respelled P) c.values c'.values

namespace SetClause

variable {clause clause' : SetClause}

theorem addTarget_tracks (h : range.Respelled P range') (hclause : clause.Respelled P clause') :
    Tracks (.cursors P) (SetClause.Respelled P) (addTarget range clause)
      (addTarget range' clause') := by
  refine (TargetColumn.read_tracks h true).bind fun _ _ hcolumn => ?_
  rw [hclause.columnMap]
  exact (TargetColumn.addTo_tracks hcolumn _).bindSame fun _ =>
    .pure ⟨rfl, List.rel_append hclause.targets (.cons hcolumn.expr .nil), hclause.values⟩

/-- Two spellings of assignments, both with a single target or both with a group. -/
def GroupRespelled (P : Likeness) (r r' : SetClause × Bool) : Prop :=
  r.1.Respelled P r'.1 ∧ r'.2 = r.2

theorem addTargets_tracks (h : range.Respelled P range') (hclause : clause.Respelled P clause') :
    Tracks (.cursors P) (GroupRespelled P) (addTargets range clause) (addTargets range' clause') := by
  refine (Reader.skipSymbol_tracks _).whether ?_ ?_
  · refine (Tracks.commaSteps seesCommas_cursors (fun _ _ => addTarget_tracks h) hclause).bind
      fun _ _ hclause => ?_
    exact (Reader.symbol_tracks _).bind fun _ _ _ => .pure ⟨hclause, rfl⟩
  · exact (addTarget_tracks h hclause).bind fun _ _ hclause => .pure ⟨hclause, rfl⟩

theorem bracketsBeforeSelect?_eq {c c' : Cursor} (h : c.Respelled P c') :
    bracketsBeforeSelect? c' = bracketsBeforeSelect? c := by
  unfold bracketsBeforeSelect?
  have hselect := (h.rest.getElem? (c.rest.takeWhile (·.isSymbol .openParen)).length).any_eq
    fun t t' (ht : Token.Respelled P t t') => ht.isKeyword .SELECT
  simp only [h.openParens.length_eq] at hselect ⊢
  rw [hselect]

theorem readQuery_tracks (degree brackets : Nat) :
    Tracks (.readings P) (Expr.Respelled P) (readQuery degree brackets)
      (readQuery degree brackets) := by
  refine (Tracks.modified ?_).bind fun _ _ _ => ?_
  · exact fun _ _ (hs : Reading.Respelled P _ _) => ⟨hs.cursor.advance _, hs.parameters⟩
  refine (Tracks.lift_reader (Reader.symbol_tracks _)).bind fun _ _ hopening => ?_
  refine (Tracks.lift_reader Reader.parenthesised_tracks).bind fun _ _ hbody => ?_
  exact (Tracks.lift_reader (Reader.closeParens_tracks _)).bind fun _ _ _ =>
    .pure (.untyped (.pending _ hbody) hopening.fragment)

theorem readRow_tracks (degree : Nat) :
    Tracks (.readings P) (Expr.Respelled P) (readRow degree) (readRow degree) := by
  refine (Tracks.lift_reader (Reader.symbol_tracks _)).bind fun _ _ hopening => ?_
  refine Expr.parseRow_tracks.bind fun _ _ hrow => ?_
  refine (Tracks.lift_reader (Reader.symbol_tracks _)).bind fun _ _ _ => ?_
  exact .ite (by rw [hrow.isRow, hrow.degree]) (.pure hrow) (.reject hopening.fragment)

theorem readValue_tracks (mysql group : Bool) (degree : Nat) :
    Tracks (.readings P) (Expr.Respelled P) (readValue mysql group degree)
      (readValue mysql group degree) := by
  refine .get fun s s' hs => ?_
  have hvalue : ∀ proposed : Bool, Tracks (.readings P) (Expr.Respelled P)
      (if proposed then return (← readRow degree).qualifyFree newRowName
        else if degree > 1 then readRow degree
        else Expr.parse : Parser Expr)
      (if proposed then return (← readRow degree).qualifyFree newRowName
        else if degree > 1 then readRow degree
        else Expr.parse) := by
    refine fun proposed => .ite Iff.rfl ?_ (.ite Iff.rfl (readRow_tracks degree) Expr.parse_tracks)
    exact (readRow_tracks degree).bind fun _ _ hrow => .pure (Expr.qualifyFree_respelled _ hrow)
  dsimp only
  rw [bracketsBeforeSelect?_eq hs.cursor]
  split
  · exact readQuery_tracks degree _
  · cases mysql with
    | true => exact (Tracks.lift_reader (Reader.skipKeyword_tracks _)).bindSame hvalue
    | false => exact hvalue false

theorem addAssignment_tracks (mysql : Bool) (h : range.Respelled P range')
    (hclause : clause.Respelled P clause') :
    Tracks (.readings P) (SetClause.Respelled P) (addAssignment mysql range clause)
      (addAssignment mysql range' clause') := by
  refine (Tracks.lift_reader (addTargets_tracks h hclause)).bind fun (_, _) (_, _) hgroup => ?_
  obtain ⟨hextended, rfl⟩ := hgroup
  refine (Tracks.lift_reader (Reader.symbol_tracks _)).bind fun _ _ _ => ?_
  rw [hextended.columnMap, hclause.columnMap]
  exact (readValue_tracks mysql _ _).bind fun _ _ hvalue =>
    .pure ⟨rfl, hextended.targets, List.rel_append hextended.values (.cons hvalue .nil)⟩

theorem read_tracks (mysql : Bool) (h : range.Respelled P range') :
    Tracks (.readings P) (SetClause.Respelled P) (read mysql range) (read mysql range') :=
  .commaSteps seesCommas_readings (fun _ _ => addAssignment_tracks mysql h) ⟨rfl, .nil, .nil⟩

end SetClause

/-! ## Rows -/

namespace Rows

theorem readRow_tracks (degree : Nat) :
    Tracks (.readings P) (Expr.Respelled P) (readRow degree) (readRow degree) := by
  refine .get fun s s' hs => ?_
  have hf := hs.cursor.fragment
  have hrow : ∀ items items', List.Forall₂ (Expr.Respelled P) items items' →
      Tracks (.readings P) (Expr.Respelled P)
        (if items.length = degree then return .untyped (.row items) s.cursor.fragment
          else reject (.degree degree items.length s.cursor.fragment) : Parser Expr)
        (if items'.length = degree then return .untyped (.row items') s'.cursor.fragment
          else reject (.degree degree items'.length s'.cursor.fragment)) :=
    fun _ _ hitems => .ite (by rw [hitems.length_eq]) (.pure (.untyped (.row hitems) hf)) (.reject hf)
  refine (Tracks.lift_reader (Reader.skipSymbol_tracks _)).whether ?_ ?_
  · exact Expr.parseList_tracks.bind fun _ _ hitems =>
      (Tracks.lift_reader (Reader.symbol_tracks _)).bind fun _ _ _ => hrow _ _ hitems
  · exact Expr.parse_tracks.bind fun _ _ hitem => hrow _ _ (.cons hitem .nil)

/-- Two spellings of some rows, with spellings of the fragment of the first. -/
def Respelled (P : Likeness) (r r' : List Expr × Fragment) : Prop :=
  List.Forall₂ (Expr.Respelled P) r.1 r'.1 ∧ r.2.Respelled P r'.2

theorem read_tracks (degree : Nat) :
    Tracks (.readings P) (Respelled P) (read degree) (read degree) :=
  .get fun _ _ hs => (Tracks.commaSeparated seesCommas_readings (readRow_tracks degree)).bind
    fun _ _ hrows => .pure ⟨hrows, hs.cursor.fragment⟩

end Rows

/-! ## Slices -/

/-- Two spellings of a key to sort by. -/
structure SortKey.Respelled (P : Likeness) (k k' : SortKey) : Prop where
  key : k.key.Respelled P k'.key
  descending : k'.descending = k.descending

/-- Two spellings of a slice. -/
structure Slice.Respelled (P : Likeness) (s s' : Slice) : Prop where
  orderBy : List.Forall₂ (SortKey.Respelled P) s.orderBy s'.orderBy
  limit : s.limit.Respelled P s'.limit
  offset : Option.Rel (Expr.Respelled P) s.offset s'.offset

theorem SortKey.readDescending_tracks :
    Tracks (.cursors P) (· = ·) readDescending readDescending :=
  (Reader.skipKeyword_tracks _).whether (.pure rfl)
    ((Reader.keyword?_tracks _).bind fun _ _ _ => .pure rfl)

theorem SortKey.read_tracks (env : Environment) {scope scope' : Scope}
    (hscope : scope.Respelled P scope') :
    Tracks (.states P) (SortKey.Respelled P) (read env scope) (read env scope') :=
  (Tracks.lift_parsing Expr.parse_tracks).bind fun _ _ hkey =>
    (Expr.resolve_tracks env hscope hkey).bind fun _ _ hkey =>
      (Tracks.lift_tokens readDescending_tracks).bindSame fun _ => .pure ⟨hkey, rfl⟩

namespace Slice

theorem typeBound_concur {e e' : Expr} (h : e.Respelled P e') :
    Concur P (Expr.Respelled P) (typeBound e) (typeBound e') := by
  unfold typeBound
  rw [h.type, h.isUntypedParameter]
  split
  · split
    · exact .ok (h.asColumn _ _)
    · exact .error h.fragment
  · split
    · exact .ok h
    · exact .error h.fragment

theorem readBound_tracks (env : Environment) {outer outer' : List RangeGroup}
    (houter : P.faces outer = P.faces outer') :
    Tracks (.states P) (Expr.Respelled P) (readBound env outer) (readBound env outer') :=
  (Tracks.lift_parsing (Expr.parseAt_tracks _)).bind fun _ _ hbound =>
    (Expr.resolve_tracks env (.outerOnly houter) hbound).bind fun _ _ hbound =>
      .except (typeBound_concur hbound)

theorem read?_tracks (env : Environment) {ranges ranges' : List Range}
    (h : List.Forall₂ (Range.Respelled P) ranges ranges') :
    Tracks (.states P) (Option.Rel (Slice.Respelled P)) (read? env ranges) (read? env ranges') := by
  refine Tracks.outerGroups.bind fun outer outer' houter => ?_
  -- with and without ORDER BY the bounds are read alike
  have hrest : ∀ orderBy orderBy', List.Forall₂ (SortKey.Respelled P) orderBy orderBy' →
      Tracks (.states P) (Option.Rel (Slice.Respelled P))
        (do
          if ← Reader.skipKeyword .LIMIT then
            let limit ← readBound env outer
            let offset ←
              if ← Reader.skipKeyword .OFFSET then some <$> readBound env outer else pure none
            return some ⟨orderBy, limit, offset⟩
          else if orderBy.isEmpty then return none
          else reject (.unexpected (.keyword .LIMIT) (← get).cursor.fragment) :
            Compiler (Option Slice))
        (do
          if ← Reader.skipKeyword .LIMIT then
            let limit ← readBound env outer'
            let offset ←
              if ← Reader.skipKeyword .OFFSET then some <$> readBound env outer' else pure none
            return some ⟨orderBy', limit, offset⟩
          else if orderBy'.isEmpty then return none
          else reject (.unexpected (.keyword .LIMIT) (← get).cursor.fragment)) := by
    intro orderBy orderBy' horder
    refine (Tracks.lift_tokens (Reader.skipKeyword_tracks _)).whether ?_ ?_
    · refine (readBound_tracks env houter).bind fun _ _ hlimit => ?_
      refine (Tracks.lift_tokens (Reader.skipKeyword_tracks _)).whether ?_ ?_
      · refine ((readBound_tracks env houter).map (S := Option.Rel (Expr.Respelled P))
          fun _ _ => .some).bind fun _ _ hoffset => ?_
        exact .pure (.some ⟨horder, hlimit, hoffset⟩)
      · exact .pure (.some ⟨horder, hlimit, .none⟩)
    · refine .ite (by rw [horder.isEmpty_eq]) (.pure .none) (.get fun _ _ hs => ?_)
      exact .reject hs.cursor.fragment
  refine (Tracks.lift_tokens (Reader.skipKeyword_tracks _)).whether ?_ (hrest [] [] .nil)
  refine (Tracks.lift_tokens (Reader.keyword_tracks _)).bind fun _ _ _ => ?_
  exact (Tracks.commaSeparated seesCommas_states (SortKey.read_tracks env ⟨h, houter⟩)).bind hrest

end Slice

end DataChange
