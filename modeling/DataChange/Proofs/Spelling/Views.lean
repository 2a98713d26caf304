import DataChange.Proofs.Spelling.Clauses
import DataChange.Proofs.Spelling.Policy
import DataChange.Proofs.Statement.Landing

/-!
# Respelled statements against views

The views that a statement passes are the same whatever its spelling. Their filters are texts of
their own, which are compiled in the same way for all spellings; the places of these texts are to be
among the places in question (`Likeness.Holds`).
-/

namespace DataChange

/-- The tokens of a text are at places in `P`, or the first fault of the text is. -/
def Likeness.Holds (P : Likeness) (text : String) : Prop :=
  Concur P (List.Forall₂ (Token.Respelled P)) (tokenize text) (tokenize text)

/-- A text is the filter of a view that is passed on the way from a relation. -/
def Catalog.Filters (c : Catalog) (operation : Operation) (r : Relation) (text : String) : Prop :=
  ∃ v base, c.Passes operation r (.view v) ∧ operation.hasTrigger v = false ∧
    v.base = some base ∧ base.filter = some text

/-- The filters of the views on the way from a range have their places in `P`. -/
def Range.FiltersIn (P : Likeness) (env : Environment) (operation : Operation) (range : Range) : Prop :=
  ∀ r text, range.source = .relation r → env.catalog.Filters operation r text → P.Holds text

variable {P : Likeness} {env : Environment} {operation : Operation}

theorem Catalog.Filters.step {c : Catalog} {v : View} {r : Relation} {text : String}
    (hview : operation.hasTrigger v = false) (hbase : c.BaseOf v r)
    (h : c.Filters operation r text) : c.Filters operation (.view v) text := by
  obtain ⟨v', base, hpasses, h⟩ := h
  exact ⟨v', base, .step hview hbase hpasses, h⟩

theorem Expr.and_respelled {left left' right right' : Expr} (hl : left.Respelled P left')
    (hr : right.Respelled P right') : (left.and right).Respelled P (left'.and right') :=
  .intro (.binary .and hl hr) (hl.fragment.withText rfl)

theorem Expr.and?_respelled {left left' right right' : Option Expr}
    (hl : Option.Rel (Expr.Respelled P) left left') (hr : Option.Rel (Expr.Respelled P) right right') :
    Option.Rel (Expr.Respelled P) (Expr.and? left right) (Expr.and? left' right') := by
  cases hl with
  | none => exact hr
  | some hl =>
    cases hr with
    | none => exact .some hl
    | some hr => exact .some (and_respelled hl hr)

namespace ViewTarget

/-! ## Following views -/

/-- Two spellings of the place where a statement lands. -/
structure Respelled (P : Likeness) (t t' : ViewTarget) : Prop where
  written : t.written.Respelled P t'.written
  relation : t'.relation = t.relation
  range : t.range.Respelled P t'.range
  columnMap : t'.columnMap = t.columnMap
  filter : Option.Rel (Expr.Respelled P) t.filter t'.filter

/-- Two spellings of a way through views, from where the filters have their places in `P`. -/
structure Descent.Respelled (P : Likeness) (env : Environment) (operation : Operation)
    (d d' : Descent) : Prop where
  range : d.range.Respelled P d'.range
  columnMap : d'.columnMap = d.columnMap
  filter : Option.Rel (Expr.Respelled P) d.filter d'.filter
  filtersIn : d.range.FiltersIn P env operation

theorem viewToPass?_eq {range range' : Range} (h : range.Respelled P range') :
    viewToPass? operation range' = viewToPass? operation range := by
  obtain ⟨-, -, hsource, -, -, -⟩ := h
  cases hsource <;> rfl

theorem resolveFilter_tracks (env : Environment) {base base' : Range} (h : base.Respelled P base')
    {filter : Option String} (hfilter : ∀ text, filter = some text → P.Holds text) :
    Tracks (.states P) (Option.Rel (Expr.Respelled P)) (resolveFilter env base filter)
      (resolveFilter env base' filter) := by
  cases filter with
  | none => exact .pure .none
  | some text =>
    refine (Tracks.except (hfilter text rfl)).bind fun tokens tokens' htokens => ?_
    refine Tracks.bind (R := Expr.Respelled P) (.onTokens htokens ?_) fun _ _ hcondition => ?_
    · exact (Tracks.lift_parsing Expr.parse_tracks).bind fun _ _ hcondition =>
        (Tracks.lift_tokens Reader.finish_tracks).bind fun _ _ _ => .pure hcondition
    · have hscope : Scope.Respelled P ⟨[base], []⟩ ⟨[base'], []⟩ := ⟨.cons h .nil, rfl⟩
      exact (Expr.resolveCondition_tracks env hscope hcondition).bind fun _ _ he => .pure (.some he)

theorem descend_tracks [P.Numbered] {view : View} {d d' : Descent} (h : d.Respelled P env operation d')
    (hview : viewToPass? operation d.range = some view) :
    Tracks (.states P) (Descent.Respelled P env operation) (descend env operation view d)
      (descend env operation view d') := by
  obtain ⟨hsource, hnotrigger⟩ := viewToPass?_some hview
  unfold descend
  dsimp only
  split
  · exact .reject h.range.fragment
  · next base hbase =>
    have hname : NamedAt P (base.relation.qualify view.schemaName, d.range.fragment)
        (base.relation.qualify view.schemaName, d'.range.fragment) := ⟨rfl, h.range.fragment⟩
    refine (Tracks.except (env.relation_concur hname).checked).bind ?_
    rintro relation _ ⟨rfl, hrelation⟩
    have hbaseOf : env.catalog.BaseOf view relation :=
      ⟨hbase, Environment.names_of_relation hrelation⟩
    refine (Range.ofNew_tracks relation (show SameName? P none none from rfl) h.range.fragment).bind
      fun range range' hrange => ?_
    -- with and without a filter so far the view's own filter is resolved alike
    have hrest : ∀ outer outer', Option.Rel (Expr.Respelled P) outer outer' →
        Tracks (.states P) (Descent.Respelled P env operation)
          (do
            let filter ← resolveFilter env range base.filter
            let columnMap ← inRange (d.columnMap.mapM fun column => base.columnMap[column]?)
            return ⟨range.markAllUsed, columnMap, Expr.and? filter outer⟩ : Compiler Descent)
          (do
            let filter ← resolveFilter env range' base.filter
            let columnMap ← inRange (d'.columnMap.mapM fun column => base.columnMap[column]?)
            return ⟨range'.markAllUsed, columnMap, Expr.and? filter outer'⟩) := by
      intro outer outer' houter
      refine (resolveFilter_tracks env hrange.1 fun text hfilter => ?_).bind fun _ _ hfilter => ?_
      · exact h.filtersIn _ text hsource ⟨view, base, .refl, hnotrigger, hbase, hfilter⟩
      rw [h.columnMap]
      refine (Tracks.inRangeSame _).bindSame fun _ => .pure ?_
      refine ⟨hrange.1.markAllUsed, rfl, Expr.and?_respelled hfilter houter, ?_⟩
      intro r text hr hfilters
      obtain rfl : relation = r := RangeSource.relation.inj (hrange.2.symm.trans hr)
      exact h.filtersIn _ text hsource (hfilters.step hnotrigger hbaseOf)
    have houter := h.filter
    generalize d.filter = outer at houter ⊢
    generalize d'.filter = outer' at houter ⊢
    cases houter with
    | none => exact hrest none none .none
    | some he =>
      rw [h.range.id]
      exact Tracks.bind (.inRange (Expr.redirect_respelled _ hrange.1 _ he)) fun _ _ he =>
        hrest _ _ (.some he)

theorem followWithin_tracks [P.Numbered] (env : Environment) (operation : Operation) : ∀ (bound : Nat)
    {d d' : Descent}, d.Respelled P env operation d' →
      Tracks (.states P) (Descent.Respelled P env operation) (followWithin env operation bound d)
        (followWithin env operation bound d')
  | 0, _, _, _ => .throw .viewCycle
  | bound + 1, _, _, h => by
    rw [followWithin, followWithin, viewToPass?_eq h.range]
    split
    · exact .pure h
    · next hview =>
      exact (descend_tracks h hview).bind fun _ _ h => followWithin_tracks env operation bound h

theorem resolve_tracks [P.Numbered] {written written' : Range} (h : written.Respelled P written')
    (hfilters : written.FiltersIn P env operation) :
    Tracks (.states P) (Respelled P) (resolve env written operation)
      (resolve env written' operation) := by
  refine (followWithin_tracks env operation _ ⟨h, ?_, .none, hfilters⟩).bind
    fun ⟨range, _, _⟩ ⟨range', _, _⟩ hlanded => ?_
  · exact congrArg List.range h.length
  have hrange : range.Respelled P range' := hlanded.range
  dsimp only
  rw [hrange.relation?]
  split
  · exact .pure ⟨h, rfl, hrange, hlanded.columnMap, hlanded.filter⟩
  · exact .reject hrange.fragment

/-! ## What is moved to the base -/

variable {target target' : ViewTarget}

theorem project_tracks (h : target.Respelled P target') (map : ColumnMap) :
    Tracks (.states P) (· = ·) (target.project map) (target'.project map) := by
  unfold project
  rw [h.columnMap]
  exact .inRangeSame _

theorem checkList_tracks (h : target.Respelled P target') (map : ColumnMap) :
    Tracks (.states P) (· = ·) (target.checkList map) (target'.checkList map) := by
  unfold checkList
  rw [h.relation]
  exact .inRangeSame _

theorem isMoved_eq [P.Numbered] (h : target.Respelled P target') : target'.isMoved = target.isMoved := by
  rw [isMoved, isMoved, h.written.id, h.range.id]

theorem onBase_tracks [P.Numbered] (h : target.Respelled P target') {e e' : Expr} (he : e.Respelled P e') :
    Tracks (.states P) (Expr.Respelled P) (target.onBase e) (target'.onBase e') := by
  unfold onBase
  rw [isMoved_eq h, h.written.id, h.columnMap]
  split
  · exact .inRange (Expr.redirect_respelled _ h.range _ he)
  · exact .pure he

theorem onBase?_tracks [P.Numbered] (h : target.Respelled P target') {e e' : Option Expr}
    (he : Option.Rel (Expr.Respelled P) e e') :
    Tracks (.states P) (Option.Rel (Expr.Respelled P)) (target.onBase? e) (target'.onBase? e') := by
  cases he with
  | none => exact .pure .none
  | some he => exact (onBase_tracks h he).bind fun _ _ he => .pure (.some he)

theorem sliceOnBase_tracks [P.Numbered] (h : target.Respelled P target') {slice slice' : Option Slice}
    (hslice : Option.Rel (Slice.Respelled P) slice slice') :
    Tracks (.states P) (Option.Rel (Slice.Respelled P)) (target.sliceOnBase slice)
      (target'.sliceOnBase slice') := by
  cases hslice with
  | none => exact .pure .none
  | some hslice =>
    refine (Tracks.mapM (S := SortKey.Respelled P) hslice.orderBy fun _ _ hkey => ?_).bind
      fun _ _ horder => .pure (.some ⟨horder, hslice.limit, hslice.offset⟩)
    exact (onBase_tracks h hkey.key).bind fun _ _ he => .pure ⟨he, hkey.descending⟩

end ViewTarget

/-- Two spellings of some assignments. -/
structure Assignments.Respelled (P : Likeness) (a a' : Assignments) : Prop where
  columnMap : a'.columnMap = a.columnMap
  checkList : a'.checkList = a.checkList
  values : List.Forall₂ (Expr.Respelled P) a.values a'.values

theorem ViewTarget.assign_tracks {target target' : ViewTarget} (h : target.Respelled P target')
    (map : ColumnMap) {values values' : List Expr}
    (hvalues : List.Forall₂ (Expr.Respelled P) values values') :
    Tracks (.states P) (Assignments.Respelled P) (target.assign map values)
      (target'.assign map values') := by
  refine (project_tracks h map).bindSame fun map => ?_
  rw [h.relation]
  exact (ColumnPolicy.updateValues_tracks _ map hvalues).bind fun _ _ hvalues =>
    (checkList_tracks h map).bindSame fun _ => .pure ⟨rfl, rfl, hvalues⟩

end DataChange
