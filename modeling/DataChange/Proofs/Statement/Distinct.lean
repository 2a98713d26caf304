import DataChange.Proofs.Statement.Stored
import DataChange.Proofs.View.Refused
import Mathlib

/-!
# Columns that are written once

A statement names each column of the relation that it is written against at most once. Behind views
it stores the columns that these lead to, and two columns of a view may lead to one column of the
base: a stored map has no column twice exactly if the named columns lead apart
(`columnMaps_nodup_iff`), which they do if no view on the way repeats a column.
-/

namespace DataChange

/-! ## Columns behind views -/

namespace Layer

/-- The column behind some views that a column leads to. -/
def follow : List Layer → Nat → Option Nat
  | [], column => some column
  | layer :: layers, column => layer.base.columnMap[column]?.bind (follow layers)

/-- Views that repeat no column keep columns apart. -/
theorem follow_inj {layers : List Layer} (h : ∀ l ∈ layers, l.base.columnMap.Nodup) {i j k : Nat}
    (hi : follow layers i = some k) (hj : follow layers j = some k) : i = j := by
  induction layers generalizing i j with
  | nil => exact (Option.some.inj hi).trans (Option.some.inj hj).symm
  | cons layer layers ih =>
    obtain ⟨hlayer, hlayers⟩ := List.forall_mem_cons.1 h
    obtain ⟨i', hi', hi⟩ := Option.bind_eq_some_iff.1 hi
    obtain ⟨j', hj', hj⟩ := Option.bind_eq_some_iff.1 hj
    obtain rfl := ih hlayers hi hj
    obtain ⟨hlt, -⟩ := List.getElem?_eq_some_iff.1 hi'
    exact (List.getElem?_inj hlt hlayer).1 (hi'.trans hj'.symm)

end Layer

theorem mapM_eq_some_iff {α β : Type} {f : α → Option β} {as : List α} {bs : List β} :
    as.mapM f = some bs ↔ as.map f = bs.map some := by
  induction as generalizing bs with
  | nil => cases bs <;> simp
  | cons a as ih =>
    simp only [List.mapM_cons, Option.bind_eq_bind, Option.bind_eq_some_iff, Option.pure_def,
      Option.some.injEq, ih]
    cases bs with
    | nil => simp
    | cons b bs => simp [and_left_comm]

theorem exists_of_mem_mapM {α β : Type} {f : α → Option β} {as : List α} {bs : List β}
    (h : as.mapM f = some bs) {a : α} (ha : a ∈ as) : ∃ b ∈ bs, f a = some b := by
  have hmem : f a ∈ bs.map some := mapM_eq_some_iff.1 h ▸ List.mem_map_of_mem ha
  obtain ⟨b, hb, heq⟩ := List.mem_map.1 hmem
  exact ⟨b, hb, heq.symm⟩

/-- Values that are found one by one are distinct exactly if they are found apart. -/
theorem nodup_mapM_iff {f : Nat → Option Nat} {is ks : List Nat} (his : is.Nodup)
    (h : is.mapM f = some ks) : ks.Nodup ↔ Set.InjOn f {i | i ∈ is} := by
  have hmap : is.map f = ks.map some := mapM_eq_some_iff.1 h
  calc ks.Nodup
    _ ↔ (ks.map some).Nodup := (List.nodup_map_iff (Option.some_injective _)).symm
    _ ↔ (is.map f).Nodup := by rw [hmap]
    _ ↔ Set.InjOn f {i | i ∈ is} := List.nodup_map_iff_inj_on his

namespace ViewTarget

variable {env : Environment} {operation : Operation} {s t : CompilerState}

/-- The column map of a descent leads where its views do. -/
theorem Descends.follow {state state' : Descent} {layers : List Layer}
    (h : Descends env operation state s layers state' t) :
    state.columnMap.mapM (Layer.follow layers) = some state'.columnMap := by
  induction h with
  | done => exact mapM_eq_some_iff.2 rfl
  | @pass state state' _ _ _ _ base _ range filter _ columnMap layers _ _ _ _ _ _ hmap _ ih =>
    rw [mapM_eq_some_iff] at hmap ih ⊢
    calc state.columnMap.map (Layer.follow (⟨base, range, filter⟩ :: layers))
      _ = (state.columnMap.map fun column => base.columnMap[column]?).map
            (·.bind (Layer.follow layers)) := by simp [Layer.follow]
      _ = columnMap.map (Layer.follow layers) := by simp [hmap]
      _ = state'.columnMap.map some := ih

/-- The views that are passed are in the catalog. -/
theorem Descends.known {state state' : Descent} {layers : List Layer}
    (h : Descends env operation state s layers state' t) (hover : state.range.Over env) :
    ∀ l ∈ layers, ∃ v ∈ env.views, v.base = some l.base := by
  induction h with
  | done => simp
  | @pass _ _ _ _ _ view _ _ _ _ _ _ _ hview hbase hrelation hrange _ _ _ _ ih =>
    obtain ⟨hsource, -⟩ := viewToPass?_some hview
    refine List.forall_mem_cons.2 ⟨⟨view, hover.found view hsource, hbase⟩, ih ?_⟩
    have hnext := hrange ▸ Range.over_ofRelation hrelation
    exact ⟨hnext.columns, hnext.found⟩

/-- A map that is projected leads where the views do. -/
theorem project_follow {written : Range} {target : ViewTarget} {layers : List Layer}
    {filter : Option Expr} {range : Range} {named map : ColumnMap}
    (h : Descends env operation (start written) s layers ⟨range, target.columnMap, filter⟩ t)
    (hproject : named.project target.columnMap = some map) :
    named.ordinals.mapM (Layer.follow layers) = some map.ordinals := by
  obtain ⟨ordinals, hordinals, rfl⟩ := Option.map_eq_some_iff.1 hproject
  rw [mapM_eq_some_iff, ← mapM_eq_some_iff.1 hordinals]
  refine List.map_congr_left fun i hi => ?_
  -- an ordinal with an entry in the map is one of a column of the written range
  obtain ⟨k, -, hk⟩ := exists_of_mem_mapM hordinals hi
  have hlength : target.columnMap.length = written.columns.length := by
    simpa [start] using h.length
  have hrange : (List.range written.columns.length)[i]? = some i :=
    List.getElem?_range (hlength ▸ (List.getElem?_eq_some_iff.1 hk).1)
  obtain ⟨k', hfollow, hk'⟩ := getElem?_mapM h.follow hrange
  exact hfollow.trans hk'.symm

/-- Assigned values are stored with the projected map. -/
theorem assign_project {target : ViewTarget} {map : ColumnMap} {values : List Expr}
    {a : Assignments} (h : target.assign map values s = .ok a t) :
    map.project target.columnMap = some a.columnMap := by
  simp only [assign, project, checkList, bind_ok, inRange_ok, pure_ok] at h
  obtain ⟨map', _, ⟨hproject, rfl⟩, _, _, -, _, _, -, rfl, -⟩ := h
  exact hproject

end ViewTarget

/-! ## Stored maps -/

/-- The columns of a range that a statement names after its target: those of a list, all of them if
there is none, or the targets of a SET clause. -/
inductive NamesColumns (mysql : Bool) (range : Range) (after : List Token) :
    Operation → ColumnMap → Prop
  | defaults (h : startsDefaults after = true) :
      NamesColumns mysql range after .insert (.all range.columns.length)
  | listed {map : ColumnMap} (hdefaults : startsDefaults after = false)
      (h : map.Listing range after) : NamesColumns mysql range after .insert map
  | branch {map : ColumnMap} (h : map.ListingAfter range after) :
      NamesColumns mysql range after .merge map
  | assigned {operation : Operation} {clause : SetClause} {groups : List (List Nat)}
      (h : clause.ReadAt operation mysql range after groups) :
      NamesColumns mysql range after operation clause.columnMap

theorem NamesColumns.nodup {mysql : Bool} {range : Range} {after : List Token}
    {operation : Operation} {map : ColumnMap} (h : NamesColumns mysql range after operation map) :
    map.ordinals.Nodup := by
  cases h with
  | defaults => exact List.nodup_range
  | listed _ h => exact h.nodup
  | branch h =>
    obtain ⟨_, hlisting⟩ := h.listing
    exact hlisting.nodup
  | assigned h => exact h.grouped.nodup

/-- How a statement comes to store a column map: it names columns of the relation that it is
written against, and passes views on the way to the one that it changes. -/
inductive StoresMap (env : Environment) (tokens : List Token) (relation : Relation)
    (named : ColumnMap) (layers : List Layer) (map : ColumnMap) : Prop
  | intro {operation : Operation} {written : Range} {after : List Token} {target : ViewTarget}
      {u v : CompilerState} (htargets : Targets env tokens operation written after)
      (hnames : NamesColumns env.config.dialect.mysql written after operation named)
      (hviews : ViewTarget.Descends env operation (ViewTarget.start written) u layers
        ⟨target.range, target.columnMap, target.filter⟩ v)
      (hrelation : target.range.relation? = some relation)
      (hmap : named.project target.columnMap = some map) :
      StoresMap env tokens relation named layers map

section

variable {env : Environment} {s t : CompilerState} {tokens : List Token}

/-- A statement that finds where it lands stores the columns there. -/
theorem ViewTarget.resolve_storesMap {operation : Operation} {written : Range} {target : ViewTarget}
    {after : List Token} {named map : ColumnMap}
    (htargets : Targets env tokens operation written after)
    (htarget : resolve env written operation s = .ok target t)
    (hnames : NamesColumns env.config.dialect.mysql written after operation named)
    (hmap : named.project target.columnMap = some map) :
    ∃ layers, StoresMap env tokens target.relation named layers map := by
  obtain ⟨layers, hviews, -⟩ := resolve_descends htarget
  obtain ⟨_, range, columnMap, filter, relation, -, hrelation, rfl⟩ := resolve_ok htarget
  exact ⟨layers, .intro htargets hnames hviews hrelation hmap⟩

theorem Update.Run.storesMap {u : UpdateStatement} (run : Update.Run env s u t) :
    ∃ named layers, StoresMap env s.cursor.rest u.target named layers u.assignments.columnMap := by
  obtain ⟨groups, hread⟩ := SetClause.readAt_update run.set_ok run.clause_ok
  rw [run.relation]
  exact ⟨_, ViewTarget.resolve_storesMap run.targets run.target_ok (.assigned hread)
    (ViewTarget.assign_project run.assigned)⟩

namespace Merge

theorem Run.storesMap_update {m : MergeStatement} (run : Run env s m t) :
    ∀ u ∈ m.update, ∃ named layers,
      StoresMap env s.cursor.rest m.target named layers u.assignments.columnMap := by
  intro u hu
  obtain ⟨branch, hb, hresolve⟩ := ifPresent_some (hu ▸ run.update_ok)
  obtain ⟨guard, s₁, values₁, values₂, -, -, -, hassign, -⟩ := resolveUpdate_ok hresolve
  obtain ⟨groups, hread⟩ := run.branches_written.update branch hb
  rw [run.relation]
  exact ⟨_, ViewTarget.resolve_storesMap run.targets run.target_ok (.assigned hread)
    (ViewTarget.assign_project hassign)⟩

theorem Run.storesMap_insert {m : MergeStatement} (run : Run env s m t) :
    ∀ i ∈ m.insert, ∃ named layers,
      StoresMap env s.cursor.rest m.target named layers i.columnMap := by
  intro i hi
  obtain ⟨branch, hb, hresolve⟩ := ifPresent_some (hi ▸ run.insert_ok)
  obtain ⟨s₁, row, -, -, hmap, -⟩ := resolveInsert_ok hresolve
  obtain ⟨-, hlisting⟩ := run.branches_written.insert branch hb
  rw [run.relation]
  exact ⟨_, ViewTarget.resolve_storesMap run.targets run.target_ok (.branch hlisting) hmap⟩

end Merge

namespace Insert

variable {i : InsertStatement}

/-- The columns that an INSERT names are those of its list, or all of a row of defaults. -/
theorem Run.namesColumns (run : Run env s i t) : ∃ named,
    NamesColumns env.config.dialect.mysql run.written run.s₂.cursor.rest .insert named ∧
      named.project run.target.columnMap = some i.columnMap := by
  rw [← run.cursor_kept]
  cases run.completes with
  | defaults hd _ _ _ hm _ => exact ⟨_, .defaults (startsDefaults_of_skip hd), hm⟩
  | rows hd hc hm _ _ _ =>
    obtain ⟨hdefaults, hsame⟩ := startsDefaults_of_absent hd
    obtain ⟨c, hc, -⟩ := lift_reader_compiler_ok.1 hc
    exact ⟨_, .listed hdefaults (hsame ▸ readColumns_listing hc), hm⟩

theorem Run.storesMap (run : Run env s i t) :
    ∃ named layers, StoresMap env s.cursor.rest i.target named layers i.columnMap := by
  obtain ⟨named, hnames, hmap⟩ := run.namesColumns
  rw [run.relation]
  exact ⟨_, ViewTarget.resolve_storesMap run.targets run.target_ok hnames hmap⟩

theorem Run.storesMap_upsert (run : Run env s i t) : ∀ a ∈ i.onDuplicate,
    ∃ named layers, StoresMap env s.cursor.rest i.target named layers a.columnMap := by
  intro a ha
  obtain ⟨u, hsuffix, -, ⟨upsert⟩⟩ := run.upsert a ha
  obtain ⟨groups, hread⟩ := run.upsert_readAt hsuffix upsert
  rw [run.relation]
  exact ⟨_, ViewTarget.resolve_storesMap run.targets run.target_ok (.assigned hread)
    (ViewTarget.assign_project upsert.assigned)⟩

end Insert

namespace Statement

/-- The relation that a statement changes, if it names one. -/
def target? : Statement → Option Relation
  | insert i => some i.target
  | update u => some u.target
  | delete d => some d.target
  | merge m => some m.target
  | truncate _ | call _ => none

/-- The column maps that a statement stores. -/
def columnMaps : Statement → List ColumnMap
  | insert i => i.columnMap :: i.onDuplicate.toList.map (·.columnMap)
  | update u => [u.assignments.columnMap]
  | merge m => m.update.toList.map (·.assignments.columnMap) ++ m.insert.toList.map (·.columnMap)
  | delete _ | truncate _ | call _ => []

variable {statement : Statement}

theorem compileHead_storesMap (h : compileHead env s = .ok statement t) :
    ∀ map ∈ statement.columnMaps, ∃ relation, statement.target? = some relation ∧
      ∃ named layers, StoresMap env s.cursor.rest relation named layers map := by
  obtain ⟨x, rest, -, hrun⟩ := compileHead_ok h
  intro map hmap
  cases hrun with
  | insert _ hcompile =>
    obtain ⟨run⟩ := Insert.compile_ok hcompile
    simp only [columnMaps, List.mem_cons, List.mem_map, Option.mem_toList] at hmap
    rcases hmap with rfl | ⟨a, ha, rfl⟩
    · exact ⟨_, rfl, run.storesMap⟩
    · exact ⟨_, rfl, run.storesMap_upsert a ha⟩
  | update _ hcompile =>
    obtain ⟨run⟩ := Update.compile_ok hcompile
    obtain rfl := List.mem_singleton.1 hmap
    exact ⟨_, rfl, run.storesMap⟩
  | merge _ hcompile =>
    obtain ⟨run⟩ := Merge.compile_ok hcompile
    simp only [columnMaps, List.mem_append, List.mem_map, Option.mem_toList] at hmap
    rcases hmap with ⟨u, hu, rfl⟩ | ⟨i, hi, rfl⟩
    · exact ⟨_, rfl, run.storesMap_update u hu⟩
    · exact ⟨_, rfl, run.storesMap_insert i hi⟩
  | delete | truncate | call => cases hmap

end Statement

end

/-! ## Columns stored once -/

/-- No view repeats a column of its base. -/
def Environment.MapsApart (env : Environment) : Prop :=
  ∀ v ∈ env.views, ∀ base ∈ v.base, base.columnMap.Nodup

namespace StoresMap

variable {env : Environment} {tokens : List Token} {relation : Relation} {named map : ColumnMap}
  {layers : List Layer}

theorem nodup (h : StoresMap env tokens relation named layers map) : named.ordinals.Nodup := by
  obtain ⟨-, hnames, -, -, -⟩ := h
  exact hnames.nodup

theorem follow (h : StoresMap env tokens relation named layers map) :
    named.ordinals.mapM (Layer.follow layers) = some map.ordinals := by
  obtain ⟨-, -, hviews, -, hmap⟩ := h
  exact ViewTarget.project_follow hviews hmap

theorem known (h : StoresMap env tokens relation named layers map) :
    ∀ l ∈ layers, ∃ v ∈ env.views, v.base = some l.base := by
  obtain ⟨⟨-, hread, -⟩, -, hviews, -, -⟩ := h
  obtain ⟨_, _, _, _, _, _, -, -, hrelation, rfl, -⟩ := Range.readTarget_ok hread
  exact hviews.known (Range.over_ofRelation hrelation)

end StoresMap

namespace Statement

variable {env : Environment} {s t : CompilerState} {statement : Statement}

/-- A statement that compiles names no column twice, and stores no column twice exactly if the views
on the way lead the columns that it names apart. -/
theorem columnMaps_nodup_iff {text : String} (h : compile env text s = .ok statement t)
    (map : ColumnMap) (hmap : map ∈ statement.columnMaps) :
    ∃ tokens relation named layers, tokenize text = .ok tokens ∧
      statement.target? = some relation ∧ StoresMap env tokens relation named layers map ∧
      named.ordinals.Nodup ∧ named.ordinals.mapM (Layer.follow layers) = some map.ordinals ∧
      (map.ordinals.Nodup ↔ Set.InjOn (Layer.follow layers) {i | i ∈ named.ordinals}) ∧
      (env.MapsApart → map.ordinals.Nodup) := by
  obtain ⟨tokens, u, c, htokens, hhead, -⟩ := compile_ok h
  obtain ⟨relation, htarget, named, layers, hstores⟩ := compileHead_storesMap hhead map hmap
  have hfollow := hstores.follow
  have hiff := nodup_mapM_iff hstores.nodup hfollow
  refine ⟨tokens, relation, named, layers, htokens, htarget, hstores, hstores.nodup, hfollow, hiff,
    fun hapart => ?_⟩
  have hlayers : ∀ l ∈ layers, l.base.columnMap.Nodup := by
    intro l hl
    obtain ⟨v, hv, hbase⟩ := hstores.known l hl
    exact hapart v hv l.base hbase
  refine hiff.2 fun i hi j hj heq => ?_
  obtain ⟨k, -, hk⟩ := exists_of_mem_mapM hfollow hi
  exact Layer.follow_inj hlayers hk (heq ▸ hk)

/-- The bank with a view whose columns are both the column `a` of `t`. -/
def twice : Environment where
  catalog := Catalog.Banking.catalog.setView
    (Catalog.Banking.view 6 "twice" (Catalog.Banking.integerColumns ["x", "y"])
      (Catalog.Banking.baseOver "t" [1, 1] none))
  config := {}

set_option maxRecDepth 10000 in
theorem columnMaps_nodup_iff_once :
    ∃ statement t map, compile twice "UPDATE twice SET y = 2" .initial = .ok statement t ∧
      map ∈ statement.columnMaps ∧
      ∃ tokens relation named layers, tokenize "UPDATE twice SET y = 2" = .ok tokens ∧
        statement.target? = some relation ∧ StoresMap twice tokens relation named layers map ∧
        named.ordinals.Nodup ∧ named.ordinals.mapM (Layer.follow layers) = some map.ordinals ∧
        (map.ordinals.Nodup ↔ Set.InjOn (Layer.follow layers) {i | i ∈ named.ordinals}) ∧
        (twice.MapsApart → map.ordinals.Nodup) := by
  obtain ⟨statement, t, hcompile, hcheck⟩ := exists_compile twice "UPDATE twice SET y = 2"
    (fun statement => !statement.columnMaps.isEmpty) rfl (by decide +kernel)
  obtain ⟨map, hmap⟩ := List.exists_mem_of_ne_nil statement.columnMaps (by simpa using hcheck)
  exact ⟨statement, t, map, hcompile, hmap, columnMaps_nodup_iff hcompile map hmap⟩

set_option maxRecDepth 10000 in
/-- A column of a base is assigned twice, though every column map of the catalog is in range. -/
theorem twice_assigned :
    twice.MapsColumns ∧ twice.MapsWithin ∧ ∃ statement t map,
      compile twice "UPDATE twice SET x = 1, y = 2" .initial = .ok statement t ∧
      map ∈ statement.columnMaps ∧ map.ordinals = [1, 1] ∧ ¬ map.ordinals.Nodup := by
  refine ⟨by decide +kernel, by decide +kernel, ?_⟩
  obtain ⟨statement, t, hcompile, hcheck⟩ := exists_compile twice "UPDATE twice SET x = 1, y = 2"
    (fun statement => statement.columnMaps.any (·.ordinals = [1, 1])) rfl (by decide +kernel)
  obtain ⟨map, hmap, hordinals⟩ := List.any_eq_true.1 hcheck
  have hordinals : map.ordinals = [1, 1] := of_decide_eq_true hordinals
  exact ⟨statement, t, map, hcompile, hmap, hordinals, by simp [hordinals]⟩

end Statement

end DataChange
