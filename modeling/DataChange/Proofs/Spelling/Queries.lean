import DataChange.Proofs.Spelling.Bound
import DataChange.Proofs.Spelling.Parsed
import DataChange.Query

/-!
# Respelled queries

The catalog finds what a name says in the common spelling, and a query names its columns after
references and aliases or after their position. So spellings of a query are compiled to spellings of
one plan (`Query.compileTokens_track`).
-/

namespace DataChange

variable {P : Likeness}

/-! ## Relations -/

namespace Catalog

variable {schema schema' name name' : String}

theorem namespace?_congr (c : Catalog) (h : Text.foldCase schema = Text.foldCase schema') :
    c.namespace? schema = c.namespace? schema' := by
  rw [namespace?, namespace?, h]

theorem relation?_congr (c : Catalog) (hschema : Text.foldCase schema = Text.foldCase schema')
    (hname : Text.foldCase name = Text.foldCase name') :
    c.relation? schema name = c.relation? schema' name' := by
  simp only [relation?, table?, view?, tableIn?, viewIn?, NameKey.of, c.namespace?_congr hschema,
    hname]

end Catalog

theorem QualifiedName.schemaOr_congr {n n' : QualifiedName} (h : n.foldCase = n'.foldCase)
    (default : String) : Text.foldCase (n.schemaOr default) = Text.foldCase (n'.schemaOr default) := by
  have hschema := congrArg QualifiedName.schema h
  unfold schemaOr
  cases hn : n.schema <;> cases hn' : n'.schema <;> simp_all [foldCase]

theorem Environment.relation_concur (env : Environment) {n n' : QualifiedName × Fragment}
    (h : NamedAt P n n') : Concur P (· = ·) (env.relation n.1 n.2) (env.relation n'.1 n'.2) := by
  unfold relation
  rw [env.catalog.relation?_congr (n.1.schemaOr_congr h.1 _) (congrArg QualifiedName.name h.1)]
  split
  · exact .ok rfl
  · exact .error h.2

namespace Range

/-- Two spellings of a range over a relation. -/
def RespelledOver (P : Likeness) (relation : Relation) (r r' : Range) : Prop :=
  r.Respelled P r' ∧ r.source = .relation relation

theorem ofNew_tracks (relation : Relation) {asName asName' : Option String}
    (hname : SameName? P asName asName') {f f' : Fragment} (hf : f.Respelled P f') :
    Tracks (.states P) (RespelledOver P relation) (ofNew relation asName f)
      (ofNew relation asName' f') :=
  Tracks.newRange.bind fun _ _ hid => .pure ⟨.ofRelation hid relation hname hf, rfl⟩

theorem named_tracks (env : Environment) {n n' : QualifiedName × Fragment} (h : NamedAt P n n')
    {asName asName' : Option String} (hname : SameName? P asName asName') :
    Tracks (.states P) (Range.Respelled P) (named env n.1 asName n.2) (named env n'.1 asName' n'.2) :=
  (Tracks.except (env.relation_concur h)).bindSame fun relation =>
    (ofNew_tracks relation hname h.2).imp fun _ _ => And.left

theorem readRelation_tracks (env : Environment) :
    Tracks (.states P) (Range.Respelled P) (readRelation env) (readRelation env) :=
  (Tracks.lift_tokens Reader.qualifiedName_tracks).bind fun _ _ hn =>
    (Tracks.lift_tokens Reader.asName?_tracks).bind fun _ _ hname => named_tracks env hn hname

theorem Respelled.allColumns {r r' : Range} (h : r.Respelled P r') {q q' : Option String}
    (hq : SameName? P q q') {f f' : Fragment} (hf : f.Respelled P f') :
    List.Forall₂ (Expr.Respelled P) (r.allColumns q f) (r'.allColumns q' f') := by
  unfold Range.allColumns
  rw [h.isVariables]
  exact (forall₂_columns h.columns).mapIdx fun _ _ _ hcolumn =>
    .boundColumn h.number _ _ hq hcolumn hf

end Range

namespace Query

variable {compile : QueryCompiler} {scope scope' : Scope} {outer outer' : List RangeGroup}

/-! ## SELECT -/

/-- Two spellings of an item of a SELECT list. -/
inductive Item.Respelled (P : Likeness) : Item → Item → Prop
  | all {f f' : Fragment} (hf : f.Respelled P f') : Item.Respelled P (.all f) (.all f')
  | expression {e e' : Expr} {asName asName' : Option String} (he : e.Respelled P e')
      (hname : SameName? P asName asName') :
      Item.Respelled P (.expression e asName) (.expression e' asName')

theorem readItem_tracks : Tracks (.states P) (Item.Respelled P) readItem readItem := by
  refine (Tracks.lift_tokens (Reader.symbol?_tracks _)).bind fun star star' hstar => ?_
  refine hstar.elim ?_ fun _ _ hstar => .pure (.all hstar.fragment)
  exact (Tracks.lift_parsing Expr.parse_tracks).bind fun _ _ he =>
    (Tracks.lift_tokens Reader.asName?_tracks).bind fun _ _ hname => .pure (.expression he hname)

/-- Two spellings of the columns selected so far. -/
structure Selection.Respelled (P : Likeness) (s s' : Selection) : Prop where
  projection : List.Forall₂ (Expr.Respelled P) s.projection s'.projection
  columns : s.columns.map P.foldAttribute = s'.columns.map P.foldAttribute

theorem selectedName_eq {asName asName' : Option String} (hname : SameName? P asName asName')
    {e e' : Expr} (he : e.Respelled P e') (position : Nat) :
    P.fold (selectedName asName e position) = P.fold (selectedName asName' e' position) := by
  unfold SameName? at hname
  cases asName <;> cases asName' <;> simp only [Option.map_none, Option.map_some, reduceCtorEq] at hname
  · obtain ⟨hkind, -⟩ := he
    cases hkind with
    | column href => exact congrArg ColumnRef.name href
    | _ => rfl
  · exact Option.some.inj hname

theorem typeSelected_concur {e e' : Expr} (he : e.Respelled P e') (expected : Option SqlType) :
    Concur P (Expr.RespelledWith P) (typeSelected e expected) (typeSelected e' expected) := by
  unfold typeSelected
  rw [he.type, he.isUntypedParameter]
  split
  · exact .ok ⟨he, rfl⟩
  · split
    · split
      · exact .ok ⟨he.asColumn _ _, rfl⟩
      · exact .error he.fragment
    · exact .error he.fragment

theorem columns_flatMap_eq {rs rs' : List Range} (h : List.Forall₂ (Range.Respelled P) rs rs') :
    (rs.flatMap (·.columns)).map P.foldAttribute =
      (rs'.flatMap (·.columns)).map P.foldAttribute := by
  induction h with
  | nil => rfl
  | cons h _ ih => simp only [List.flatMap_cons, List.map_append, h.columns, ih]

theorem selectItem_tracks (hcompile : QueriesTrack P compile) (hscope : scope.Respelled P scope')
    (expected : Expectation) {s s' : Selection} (hs : s.Respelled P s') {item item' : Item}
    (hitem : item.Respelled P item') :
    Tracks (.states P) (Selection.Respelled P) (selectItem compile scope expected s item)
      (selectItem compile scope' expected s' item') := by
  cases hitem with
  | all hf =>
    refine .ite (by rw [hscope.ranges.isEmpty_eq]) (.reject hf) (.pure ⟨?_, ?_⟩)
    · refine List.rel_append hs.projection (List.rel_flatMap hscope.ranges fun _ _ hr => ?_)
      exact hr.allColumns (show SameName? P (some _) (some _) from congrArg some hr.name) hf
    · simp only [List.map_append, hs.columns, columns_flatMap_eq hscope.ranges]
  | expression he hname =>
    refine (Expr.resolveWith_tracks hcompile hscope he).bind fun e e' he => ?_
    rw [hs.projection.length_eq]
    refine (Tracks.except (typeSelected_concur he _)).bind fun (e, _) (e', _) hselected => ?_
    obtain ⟨he, rfl⟩ := hselected
    refine .pure ⟨List.rel_append hs.projection (.cons he .nil), ?_⟩
    simp only [List.map_append, hs.columns, List.map_cons, List.map_nil, Likeness.foldAttribute]
    rw [selectedName_eq hname (by assumption)]

theorem readCondition_tracks :
    Tracks (.states P) (Option.Rel (Expr.Respelled P)) readCondition readCondition :=
  (Tracks.lift_tokens (Reader.skipKeyword_tracks _)).whether
    ((Tracks.lift_parsing Expr.parse_tracks).bind fun _ _ he => .pure (.some he)) (.pure .none)

theorem resolveCondition?_tracks (hcompile : QueriesTrack P compile)
    (hscope : scope.Respelled P scope') {e e' : Option Expr}
    (he : Option.Rel (Expr.Respelled P) e e') :
    Tracks (.states P) (Option.Rel (Expr.Respelled P)) (resolveCondition? compile scope e)
      (resolveCondition? compile scope' e') := by
  cases he with
  | none => exact .pure .none
  | some he =>
    exact (Expr.resolveConditionWith_tracks hcompile hscope he).bind fun _ _ he => .pure (.some he)

theorem compileSelect_tracks (env : Environment) (hcompile : QueriesTrack P compile)
    (houter : P.faces outer = P.faces outer') (expected : Expectation) :
    Tracks (.states P) (Plan.Respelled P) (compileSelect env compile outer expected)
      (compileSelect env compile outer' expected) := by
  refine (Tracks.lift_tokens (Reader.keyword_tracks _)).bind fun _ _ _ => ?_
  refine (Tracks.commaSeparated seesCommas_states readItem_tracks).bind fun items items' hitems => ?_
  -- with and without FROM the clauses that follow are read alike
  have hrest : ∀ ranges ranges', List.Forall₂ (Range.Respelled P) ranges ranges' →
      Tracks (.states P) (Plan.Respelled P)
        (do
          let ranges ← RangeGroup.ofRanges ranges
          let condition ← readCondition
          let scope : Scope := ⟨ranges, outer⟩
          let selection ← items.foldlM (selectItem compile scope expected) {}
          let condition ← resolveCondition? compile scope condition
          return .select selection.columns selection.projection ranges condition : Compiler Plan)
        (do
          let ranges ← RangeGroup.ofRanges ranges'
          let condition ← readCondition
          let scope : Scope := ⟨ranges, outer'⟩
          let selection ← items'.foldlM (selectItem compile scope expected) {}
          let condition ← resolveCondition? compile scope condition
          return .select selection.columns selection.projection ranges condition) := by
    intro ranges ranges' hranges
    refine (Tracks.except (RangeGroup.ofRanges_concur hranges)).bind fun ranges ranges' hranges => ?_
    have hscope : Scope.Respelled P ⟨ranges, outer⟩ ⟨ranges', outer'⟩ := ⟨hranges, houter⟩
    refine readCondition_tracks.bind fun _ _ hcondition => ?_
    refine (Tracks.foldlM (S := Selection.Respelled P) hitems ⟨.nil, rfl⟩ fun _ _ _ _ hs hitem =>
      selectItem_tracks hcompile hscope expected hs hitem).bind fun _ _ hselection => ?_
    exact (resolveCondition?_tracks hcompile hscope hcondition).bind fun _ _ hcondition =>
      .pure (.select hselection.columns hselection.projection hranges hcondition)
  exact (Tracks.lift_tokens (Reader.skipKeyword_tracks _)).whether
    ((Tracks.commaSeparated seesCommas_states (Range.readRelation_tracks env)).bind hrest)
    (hrest [] [] .nil)

/-! ## TABLE -/

theorem compileTable_tracks (env : Environment) :
    Tracks (.states P) (Plan.Respelled P) (compileTable env) (compileTable env) := by
  refine (Tracks.lift_tokens (Reader.keyword_tracks _)).bind fun _ _ _ => ?_
  refine (Tracks.lift_tokens Reader.qualifiedName_tracks).bind fun _ _ hn => ?_
  have hname : SameName? P none none := rfl
  refine (Range.named_tracks env hn hname).bind fun _ _ hrange => .pure ?_
  exact .select hrange.columns (hrange.allColumns rfl hn.2) (.cons hrange .nil) .none

/-! ## VALUES -/

theorem asRow_respelled {e e' : Expr} (h : e.Respelled P e') : (asRow e).Respelled P (asRow e') := by
  unfold asRow
  rw [h.isRow]
  split
  · exact h
  · exact .untyped (.row (.cons h .nil)) h.fragment

theorem joinCell_concur (type : Option SqlType) {cell cell' : Expr} (h : cell.Respelled P cell') :
    Concur P (· = ·) (joinCell type cell) (joinCell type cell') := by
  unfold joinCell
  rw [h.isDefault, h.type]
  split
  · exact .error h.fragment
  · split
    · exact .ok rfl
    · exact .ok rfl
    · split
      · exact .ok rfl
      · exact .error h.fragment

theorem joinRow_tracks (types : List (Option SqlType)) {cells cells' : List Expr}
    (h : List.Forall₂ (Expr.Respelled P) cells cells') :
    Tracks (.states P) (· = ·) (joinRow types cells) (joinRow types cells') := by
  induction h generalizing types with
  | nil => cases types <;> exact .pure rfl
  | cons hcell _ ih =>
    cases types with
    | cons type types =>
      exact (Tracks.except (joinCell_concur type hcell)).bindSame fun _ =>
        (ih types).bindSame fun _ => .pure rfl
    | nil =>
      refine (Tracks.except (joinCell_concur none hcell)).bindSame fun type => ?_
      cases type with
      | none => exact ih []
      | some type => exact .throw .outOfRange

/-- Two spellings of the rows so far, with the same types of the columns. -/
def RowsRespelled (P : Likeness) (r r' : List (Option SqlType) × List Expr) : Prop :=
  r'.1 = r.1 ∧ List.Forall₂ (Expr.Respelled P) r.2 r'.2

theorem addRow_tracks (hcompile : QueriesTrack P compile) (houter : P.faces outer = P.faces outer')
    (degree : Nat) {sofar sofar' : List (Option SqlType) × List Expr}
    (hsofar : RowsRespelled P sofar sofar') {row row' : Expr} (h : row.Respelled P row') :
    Tracks (.states P) (RowsRespelled P) (addRow compile outer degree sofar row)
      (addRow compile outer' degree sofar' row') := by
  have hrow : Tracks (.states P) (RowsRespelled P)
      (do
        let row ← (asRow row).resolveWith compile (.outerOnly outer)
        let types ← joinRow sofar.1 row.children
        return (types, sofar.2 ++ [row]))
      (do
        let row ← (asRow row').resolveWith compile (.outerOnly outer')
        let types ← joinRow sofar'.1 row.children
        return (types, sofar'.2 ++ [row])) := by
    refine (Expr.resolveWith_tracks hcompile (.outerOnly houter) (asRow_respelled h)).bind
      fun row row' hrow => ?_
    rw [hsofar.1]
    exact (joinRow_tracks _ hrow.children).bindSame fun _ =>
      .pure ⟨rfl, List.rel_append hsofar.2 (.cons hrow .nil)⟩
  exact .ite (by rw [h.degree]) (Tracks.bind (R := fun _ _ => True) (.reject h.fragment)
    fun _ _ _ => hrow) hrow

theorem columnTypes_concur (expected : Expectation) {f f' : Fragment} (hf : f.Respelled P f')
    (index : Nat) (types : List (Option SqlType)) :
    Concur P (· = ·) (columnTypes expected f index types) (columnTypes expected f' index types) := by
  induction types generalizing index with
  | nil => exact .ok rfl
  | cons type types ih =>
    unfold columnTypes
    split
    · exact .error hf
    · refine (ih _).elim ?_ fun _ _ he => .error he
      rintro types _ rfl
      exact .ok rfl

theorem settleCell_respelled {cell cell' : Expr} (h : cell.Respelled P cell') (type : SqlType) :
    (settleCell cell type).Respelled P (settleCell cell' type) := by
  unfold settleCell
  rw [h.isUntypedParameter]
  split
  · exact h.asColumn type false
  · exact h

theorem settleRow_respelled (types : List SqlType) {row row' : Expr} (h : row.Respelled P row') :
    (settleRow types row).Respelled P (settleRow types row') := by
  have hkept := h
  obtain ⟨hkind, hf⟩ := h
  cases hkind with
  | row hcells =>
    refine .intro (.row ?_) hf
    clear hkept
    induction hcells generalizing types with
    | nil => exact .nil
    | cons hcell _ ih =>
      cases types with
      | nil => exact .nil
      | cons type types => exact .cons (settleCell_respelled hcell type) (ih types)
  | _ => exact hkept

theorem compileValues_tracks (hcompile : QueriesTrack P compile) (houter : P.faces outer = P.faces outer')
    (expected : Expectation) :
    Tracks (.states P) (Plan.Respelled P) (compileValues compile outer expected)
      (compileValues compile outer' expected) := by
  refine (Tracks.lift_tokens (Reader.keyword_tracks _)).bind fun values values' hvalues => ?_
  refine (Tracks.lift_parsing Expr.parseList_tracks).bind fun rows rows' hrows => ?_
  refine Tracks.bindSame (.inRange (hrows.head?.map fun _ _ h => h.degree.symm)) fun degree => ?_
  refine (Tracks.foldlM (S := RowsRespelled P) hrows ⟨rfl, .nil⟩ fun _ _ _ _ hsofar hrow =>
    addRow_tracks hcompile houter degree hsofar hrow).bind fun (_, _) (types, _) hsofar => ?_
  obtain ⟨rfl, hrows⟩ := hsofar
  refine (Tracks.except (columnTypes_concur expected hvalues.fragment 0 types)).bindSame fun _ => ?_
  refine .pure (.values rfl (.untyped (.values ?_) hvalues.fragment))
  exact List.rel_map (fun _ _ h => settleRow_respelled _ h) hrows

/-! ## All queries -/

theorem embedded_track {compile : List RangeGroup → Expectation → Compiler Plan}
    (h : ∀ {outer outer'} expected, P.faces outer = P.faces outer' →
      Tracks (.states P) (Plan.Respelled P) (compile outer expected) (compile outer' expected)) :
    QueriesTrack P (embedded compile) :=
  fun hbody houter => .onTokens hbody <| Tracks.noteQuery.bind fun _ _ _ =>
    (h none houter).bind fun _ _ hplan =>
      (Tracks.lift_tokens Reader.finish_tracks).bind fun _ _ _ => .pure hplan

theorem compileWithin_tracks (env : Environment) : ∀ (bound : Nat) {outer outer' : List RangeGroup}
    (expected : Expectation), P.faces outer = P.faces outer' →
      Tracks (.states P) (Plan.Respelled P) (compileWithin env bound outer expected)
        (compileWithin env bound outer' expected)
  | 0, _, _, _, _ => .get fun _ _ hs => .reject hs.cursor.fragment
  | bound + 1, outer, outer', expected, houter => by
    have hcompile : QueriesTrack P (embedded (compileWithin env bound)) :=
      embedded_track (compileWithin_tracks env bound)
    refine (Tracks.lift_tokens Reader.openParens_tracks).bindSame fun parens => ?_
    have hclose : ∀ plan plan', plan.Respelled P plan' → Tracks (.states P) (Plan.Respelled P)
        (do Reader.closeParens parens; return plan : Compiler Plan)
        (do Reader.closeParens parens; return plan') :=
      fun _ _ hplan => (Tracks.lift_tokens (Reader.closeParens_tracks parens)).bind fun _ _ _ =>
        .pure hplan
    refine .get fun ⟨⟨⟨_, _⟩, _⟩, _, _, _, _⟩ ⟨⟨⟨_, _⟩, _⟩, _, _, _, _⟩ hs => ?_
    have hend := hs.cursor.fragment
    obtain ⟨hpast, hrest⟩ := hs.cursor
    cases hrest with
    | nil => exact Tracks.bind (.reject hend) hclose
    | cons ht _ =>
      refine .ite (by rw [ht.isKeyword]) ((compileSelect_tracks env hcompile houter _).bind hclose) ?_
      refine .ite (by rw [ht.isKeyword]) ((compileTable_tracks env).bind hclose) ?_
      refine .ite (by rw [ht.isKeyword]) ((compileValues_tracks hcompile houter _).bind hclose) ?_
      exact Tracks.bind (.reject ht.fragment) hclose

theorem compile_tracks (env : Environment) (expected : Expectation)
    (houter : P.faces outer = P.faces outer') :
    Tracks (.states P) (Plan.Respelled P) (Query.compile env outer expected)
      (Query.compile env outer' expected) :=
  (Tracks.lift_tokens Reader.remaining_tracks).bindSame fun _ => compileWithin_tracks env _ _ houter

theorem compileTokens_track (env : Environment) : QueriesTrack P (compileTokens env) :=
  embedded_track (compile_tracks env)

end Query

namespace Expr

variable {scope scope' : Scope} {e e' : Expr}

theorem resolve_tracks (env : Environment) (hscope : scope.Respelled P scope')
    (h : e.Respelled P e') :
    Tracks (.states P) (Expr.Respelled P) (e.resolve env scope) (e'.resolve env scope') :=
  resolveWith_tracks (Query.compileTokens_track env) hscope h

theorem resolveCondition_tracks (env : Environment) (hscope : scope.Respelled P scope')
    (h : e.Respelled P e') :
    Tracks (.states P) (Expr.Respelled P) (e.resolveCondition env scope)
      (e'.resolveCondition env scope') :=
  resolveConditionWith_tracks (Query.compileTokens_track env) hscope h

end Expr

end DataChange
