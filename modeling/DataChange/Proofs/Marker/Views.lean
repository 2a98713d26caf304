import DataChange.Proofs.Marker.Order
import DataChange.Proofs.View.Descent

/-!
# Question marks and views

The filters of the views that a statement passes are read in between, from the view that it names
on (`Peels`). Each is a text of its own, and following the views numbers the question marks of their
filters, one filter after the other (`Descends.numbers`).
-/

namespace DataChange

/-- Whether the filter of a view holds a question mark. -/
def View.hasMarker (v : View) : Bool :=
  match v.base.bind (·.filter) with
  | none => false
  | some text =>
    match tokenize text with
    | .ok tokens => tokens.any (·.kind = .parameter)
    | .error _ => false

/-- The tokens of the filter of a view. -/
def View.filterTokens (v : View) : List Token :=
  ((v.base.bind (·.filter)).bind fun text => (tokenize text).toOption).getD []

/-- The filter of a view is a text of its own. -/
theorem View.filterTokens_cases (v : View) : v.filterTokens = [] ∨
    ∃ text, v.base.bind (·.filter) = some text ∧ tokenize text = .ok v.filterTokens := by
  unfold View.filterTokens
  cases htext : v.base.bind (·.filter) with
  | none => exact .inl rfl
  | some text =>
    cases htokens : tokenize text with
    | error e => exact .inl (by simp [htokens, Except.toOption])
    | ok tokens => exact .inr ⟨text, rfl, by simp [htokens, Except.toOption]⟩

theorem View.kind_of_mem_filterTokens {v : View} (h : v.hasMarker = false) :
    ∀ x ∈ v.filterTokens, x.kind ≠ .parameter := by
  rcases v.filterTokens_cases with hnil | ⟨text, htext, htokens⟩
  · simp [hnil]
  · simpa [View.hasMarker, htext, htokens] using h

/-- The views that an operation on a relation passes on the way to where it lands. -/
inductive Passed (env : Environment) (operation : Operation) : Relation → View → Prop
  | here {v : View} (h : operation.hasTrigger v = false) : Passed env operation (.view v) v
  | through {v w : View} {base : ViewBase} {fragment : Fragment} {relation : Relation}
      (h : operation.hasTrigger v = false) (hbase : v.base = some base)
      (hrelation : env.relation (base.relation.qualify v.schemaName) fragment = .ok relation)
      (hw : Passed env operation relation w) : Passed env operation (.view v) w

/-- All views that an operation on a relation passes, the first one first. -/
inductive Peels (env : Environment) (operation : Operation) : Relation → List View → Prop
  | table (t : Table) : Peels env operation (.table t) []
  | handled {v : View} (h : operation.hasTrigger v = true) : Peels env operation (.view v) []
  | through {v : View} {base : ViewBase} {fragment : Fragment} {relation : Relation}
      {views : List View} (h : operation.hasTrigger v = false) (hbase : v.base = some base)
      (hrelation : env.relation (base.relation.qualify v.schemaName) fragment = .ok relation)
      (hviews : Peels env operation relation views) : Peels env operation (.view v) (v :: views)

theorem Peels.passed {env : Environment} {operation : Operation} {relation : Relation}
    {views : List View} (h : Peels env operation relation views) :
    ∀ v ∈ views, Passed env operation relation v := by
  induction h with
  | table | handled => simp
  | through h hbase hrelation _ ih =>
    refine List.forall_mem_cons.2 ⟨.here h, fun v hv => ?_⟩
    exact .through h hbase hrelation (ih v hv)

/-- Reads a statement up to the relation that it writes. -/
def Statement.readWritten (env : Environment) : Compiler (Operation × Range) := do
  let cursor := (← get).cursor
  match cursor.rest with
  | [] => reject (cursor.endedBefore .statement)
  | t :: _ =>
    match t.kind with
    | .keyword .INSERT | .keyword .REPLACE =>
      let _ ← Insert.readMode env.config.dialect.mysql
      return (.insert, ← Range.readTarget env .insert)
    | .keyword .UPDATE =>
      let _ ← Reader.keyword .UPDATE
      return (.update, ← Range.readTarget env .update)
    | .keyword .DELETE =>
      let _ ← Reader.keyword .DELETE
      let _ ← Reader.keyword .FROM
      return (.delete, ← Range.readTarget env .delete)
    | .keyword .MERGE =>
      let _ ← Reader.keyword .MERGE
      let _ ← Reader.keyword .INTO
      return (.merge, ← Range.readTarget env .merge)
    | _ => reject (.unexpected .statementKeyword t.fragment)

/-- No view that the statement at the cursor passes has a question mark in its filter. -/
def QuietViews (env : Environment) (s : CompilerState) : Prop :=
  ∀ operation written t, Statement.readWritten env s = .ok (operation, written) t →
    ∀ relation, written.source = .relation relation →
      ∀ v, Passed env operation relation v → v.hasMarker = false

/-- The views that the statement at the cursor passes, the first one first. -/
inductive Statement.Peels (env : Environment) (s : CompilerState) : List View → Prop
  | change {operation : Operation} {written : Range} {relation : Relation} {t : CompilerState}
      {views : List View} (hread : readWritten env s = .ok (operation, written) t)
      (hsource : written.source = .relation relation)
      (hviews : DataChange.Peels env operation relation views) : Peels env s views
  | other {failure : Failure} {t : CompilerState} (hread : readWritten env s = .error failure t) :
      Peels env s []

section

variable {env : Environment} {s t : CompilerState}

/-- The written range is over a relation of the catalog. -/
theorem Statement.readWritten_found {operation : Operation} {written : Range}
    {relation : Relation} (h : readWritten env s = .ok (operation, written) t)
    (hsource : written.source = .relation relation) :
    ∃ name fragment, env.relation name fragment = .ok relation := by
  have htarget : ∃ u, Range.readTarget env operation u = .ok written t := by
    simp only [readWritten, bind_ok, get_ok] at h
    obtain ⟨_, _, ⟨rfl, rfl⟩, h⟩ := h
    cases hrest : s.cursor.rest with
    | nil => simp [hrest, reject_ok] at h
    | cons x rest =>
      simp only [hrest] at h
      obtain ⟨m, hm, h⟩ := run_eq h
      split at hm <;> subst hm
      all_goals simp only [bind_ok, pure_ok, reject_ok, Prod.mk.injEq] at h
      all_goals grind
  obtain ⟨u, hu⟩ := htarget
  obtain ⟨name, fragment, _, _, _, found, -, -, hfound, rfl, -⟩ := Range.readTarget_ok hu
  obtain rfl : found = relation := by simpa [Range.ofRelation, Range.fresh] using hsource
  exact ⟨name, fragment, hfound⟩

theorem Passed.mem_views {operation : Operation} {relation : Relation} {v : View}
    (h : Passed env operation relation v) (hrelation : ∀ w, relation = .view w → w ∈ env.views) :
    v ∈ env.views := by
  induction h with
  | here => exact hrelation _ rfl
  | through _ _ hfound _ ih => exact ih fun w hw => Environment.mem_views (hw ▸ hfound)

/-- It is enough that no view of the catalog has a question mark in its filter. -/
theorem QuietViews.of_views (h : ∀ v ∈ env.views, v.hasMarker = false) : QuietViews env s := by
  intro operation written t hread relation hsource v hv
  refine h v (hv.mem_views ?_)
  rintro w rfl
  obtain ⟨name, fragment, hfound⟩ := Statement.readWritten_found hread hsource
  exact Environment.mem_views hfound

end

/-! ## Filters -/

/-- From `p` to `q` the question marks in the filters of some views are numbered, one filter after the
other, and each filter has the marks with the numbers of its own. -/
inductive NumbersFilters : Nat → Nat → List View → List (List Mark) → Prop
  | nil (p : Nat) : NumbersFilters p p [] []
  | cons {p q r : Nat} {v : View} {views : List View} {ms : List Mark} {filters : List (List Mark)}
      (paired : Paired v.filterTokens) (first : Numbers p q (readingOrder v.filterTokens) [] ms)
      (rest : NumbersFilters q r views filters) : NumbersFilters p r (v :: views) (ms :: filters)

namespace NumbersFilters

variable {p q : Nat} {views : List View} {filters : List (List Mark)}

theorem length_eq (h : NumbersFilters p q views filters) : filters.length = views.length := by
  induction h with
  | nil => rfl
  | cons _ _ _ ih => simp [ih]

/-- Filters without a question mark have no marks. -/
theorem of_quiet (h : NumbersFilters p q views filters) (hquiet : ∀ v ∈ views, v.hasMarker = false) :
    q = p ∧ ∀ ms ∈ filters, ms = [] := by
  induction h with
  | nil => exact ⟨rfl, by simp⟩
  | cons _ first _ ih =>
    obtain ⟨hv, hviews⟩ := List.forall_mem_cons.1 hquiet
    rw [readingOrder_eq_nil (View.kind_of_mem_filterTokens hv)] at first
    obtain ⟨rfl, hrest⟩ := ih hviews
    exact ⟨first.count, List.forall_mem_cons.2 ⟨List.subset_nil.1 first.marks, hrest⟩⟩

end NumbersFilters

/-- From `s` to `t` the question marks of the tokens ahead are read in some order, each of them once,
and at one point of it those in the filters of some views. The statement has the marks `own` from
the tokens, and those of the filters beside them. -/
structure ReadsMarks (s t : CompilerState) (order : List Token) (views : List View)
    (own : List Mark) (filters : List (List Mark)) : Prop where
  once : order.Perm (s.cursor.rest.filter (·.kind = .parameter))
  numbers : ∃ before after p q ms, before ++ after = order ∧
    Numbers s.parameters p before [] ms ∧ NumbersFilters p q views filters ∧
    Numbers q t.parameters after ms own

theorem ReadsMarks.subset {s t : CompilerState} {order : List Token} {views : List View}
    {own own' : List Mark} {filters : List (List Mark)} (h : ReadsMarks s t order views own filters)
    (hsub : own' ⊆ own) : ReadsMarks s t order views own' filters := by
  obtain ⟨before, after, p, q, ms, horder, hbefore, hfilters, hafter⟩ := h.numbers
  exact ⟨h.once, before, after, p, q, ms, horder, hbefore, hfilters, hafter.subset hsub⟩

/-- A statement that passes no view, and is read in order. -/
theorem ReadsMarks.of_inOrder {s t u : CompilerState} {xs : List Token} {marks : List Mark}
    (h : InOrder false s u xs marks) (hu : u.toReading = t.toReading)
    (htail : IsTail t.cursor.rest) : ReadsMarks s t (readingOrder s.cursor.rest) [] marks [] := by
  have hcursor : u.cursor = t.cursor := congrArg Reading.cursor hu
  have hparameters : u.parameters = t.parameters := congrArg Reading.parameters hu
  have hrest : s.cursor.rest = xs ++ t.cursor.rest := by rw [h.rest, hcursor]
  have hpaired : Paired s.cursor.rest := by
    rw [hrest]
    exact h.closed.paired.append htail.paired
  refine ⟨hpaired.readingOrder_perm, _, [], _, _, marks, List.append_nil _, ?_, .nil _, .refl _ _⟩
  rw [hrest, htail.readingOrder_append h.closed, ← hparameters]
  exact h.numbers

namespace ViewTarget

variable {env : Environment} {operation : Operation} {s t : CompilerState}

/-- The question marks of a filter. -/
theorem resolveFilter_numbers {range : Range} {view : View} {base : ViewBase}
    {filter : Option Expr} (hbase : view.base = some base)
    (h : resolveFilter env range base.filter s = .ok filter t) :
    Paired view.filterTokens ∧ Numbers s.parameters t.parameters (readingOrder view.filterTokens) []
      (Expr.marksOf filter.toList) := by
  rcases resolveFilter_ok h with ⟨htext, rfl, rfl⟩ | ⟨source, tokens, condition, s₁, c, e, htext,
    htokens, hparse, hfinish, hresolve, rfl⟩
  · have hnil : view.filterTokens = [] := by simp [View.filterTokens, hbase, htext]
    rw [hnil, readingOrder_eq_nil (by simp)]
    exact ⟨.nil, .refl _ _⟩
  · have htokens : view.filterTokens = tokens := by
      simp [View.filterTokens, hbase, htext, htokens, Except.toOption]
    obtain ⟨hraw, xs, hs⟩ := Scan.parsed Expr.parse_reads hparse
    have hn := Expr.resolveConditionWith_numbers (Query.compileTokens_numbers env) hraw hresolve
    have hn := hs.numbers hn
    have htail : IsTail s₁.cursor.rest := Reader.finish_ok hfinish
    have hrest : tokens = xs ++ s₁.cursor.rest := hs.rest
    rw [htokens, hrest, htail.readingOrder_append hs.closed.weaken]
    exact ⟨hs.closed.paired.append htail.paired, by simpa using hn⟩

/-- What a descent reads: the filters of the views that it passes, in the order in which it passes
them. -/
theorem Descends.numbers {state state' : Descent} {layers : List Layer}
    (h : Descends env operation state s layers state' t) {relation : Relation}
    (hsource : state.range.source = .relation relation) :
    ∃ views, Peels env operation relation views ∧ NumbersFilters s.parameters t.parameters views
      (layers.map fun layer => Expr.marksOf layer.filter.toList) := by
  induction h generalizing relation with
  | done hnone =>
    refine ⟨[], ?_, .nil _⟩
    cases relation with
    | table t => exact .table t
    | view v => exact .handled (by simpa [viewToPass?, hsource] using hnone)
  | pass hview hbase hrelation hrange _ hfilter _ _ ih =>
    obtain ⟨hsource', htrigger⟩ := viewToPass?_some hview
    rw [hsource'] at hsource
    cases hsource
    subst hrange
    -- Passing a view reads its filter, and the rest of the way those behind it.
    obtain ⟨views, hpeels, hrest⟩ := ih rfl
    obtain ⟨hpaired, hfirst⟩ := resolveFilter_numbers hbase hfilter
    exact ⟨_ :: views, .through htrigger hbase hrelation hpeels, .cons hpaired hfirst hrest⟩

end ViewTarget

end DataChange
