import DataChange.Catalog.Banking
import DataChange.Proofs.Marker.Inserts
import DataChange.Proofs.Marker.Merges
import DataChange.Proofs.Statement.CompileRuns
import DataChange.Proofs.Token.Places
import DataChange.Proofs.View.Written

/-!
# The numbers of question marks

A statement compiled on its own numbers its question marks from zero, in the order `markerOrder`
of its tokens (`compile_numbers`). This is the order of the text unless a subquery stands in the
way: its question marks are numbered when it is resolved, after marks that stand behind it. So the
`k`-th question mark gets the number `k` exactly when it is also the `k`-th of `markerOrder`
(`index_eq_iff`). `Origins` tells the nodes of a statement that were read from its own text from
those that the filters of the views brought in.
-/

namespace DataChange

theorem Expr.mark?_eq_some {e : Expr} {mark : Mark} :
    e.mark? = some mark ↔
      ∃ marker, e.kind = .parameter marker ∧ (e.fragment, marker.index) = mark := by
  unfold mark?
  split <;> simp_all

theorem Slice.marks_exprs? (slice : Option Slice) :
    Expr.marksOf (exprs? slice) = Expr.marksOf (keys? slice) ++ Expr.marksOf (bounds? slice) := by
  cases slice <;> simp [exprs?, exprs, keys?, bounds?]

/-! ## Where parameters come from -/

/-- All parameters of an expression are among some nodes. -/
def Expr.ParametersIn (nodes : List Expr) (e : Expr) : Prop :=
  ∀ n ∈ e.nodes, ∀ marker, n.kind = .parameter marker → n ∈ nodes

theorem Expr.conjunctive_parametersIn (nodes : List Expr) : Conjunctive (ParametersIn nodes) where
  split h := by
    refine ⟨fun n hn => h n ?_, fun n hn => h n ?_⟩ <;>
      exact mem_nodes.2 (.inl ⟨_, by simp [children], hn⟩)
  join {left right} hl hr := by
    intro n hn marker hk
    rcases mem_nodes.1 hn with ⟨c, hc, hside⟩ | ⟨_, _, hquery, -⟩ | rfl
    · have hc : c = left ∨ c = right := by simpa [and, children] using hc
      rcases hc with rfl | rfl
      · exact hl n hside marker hk
      · exact hr n hside marker hk
    · cases hquery
    · cases hk

/-- A change of columns keeps parameters as they are. -/
theorem Expr.ParametersIn.moves {nodes : List Expr} {change : ColumnChange} {e e' : Expr}
    (he : e.ParametersIn nodes) (h : e.Moves change e') : e'.ParametersIn nodes := by
  intro n' hn' marker hk
  obtain ⟨n, hn, hm⟩ := forall₂_exists_left (nodes_mapColumns h) hn'
  cases mapColumns_ok hm with
  | column | query => cases hk
  | node _ cs _ hcs =>
    obtain ⟨kind, fragment, type⟩ := n
    have hkind : kind = .parameter marker := by
      simp only [withChildren, ExprKind.withChildren] at hk
      split at hk <;> simp_all
    subst hkind
    cases hcs
    exact he _ hn marker rfl

namespace Statement

variable {env : Environment} {statement : Statement} {s t : CompilerState}

/-- The nodes of a statement by the text that they were read from: `own` from the statement itself,
and those of the filters of the views that it passes, the first view first. An INSERT keeps no
filter. -/
inductive Origins (env : Environment) (s t : CompilerState) :
    Statement → List Expr → List (List Expr) → Prop
  | change {statement : Statement} {w : Written} {condition : Option Expr}
      (h : Writes env s t statement w) (hmoved : w.condition.mapM w.target.moved = some condition) :
      Origins env s t statement
        ((condition.toList ++ statement.changing ++ statement.unmoved).flatMap Expr.nodes ++
          statement.plans.flatMap Plan.nodes)
        (w.layers.map fun layer => layer.filter.toList.flatMap Expr.nodes)
  | insert {i : InsertStatement} (run : Insert.Run env s i t) {layers : List Layer}
      (h : ViewTarget.Descends env .insert (ViewTarget.start run.written) run.s₂ layers
        run.target.descent run.s₃) :
      Origins env s t (.insert i) (insert i).heldNodes
        (layers.map fun layer => layer.filter.toList.flatMap Expr.nodes)
  | truncate (r : TruncateStatement) : Origins env s t (.truncate r) (truncate r).heldNodes []
  | call (c : CallStatement) : Origins env s t (.call c) (call c).heldNodes []

/-- The condition that is stored is a conjunction of what was written and of the filters, moved to
the base, and the joins are made of its conjuncts: their parameters are those of either. -/
theorem Writes.mem_parameter {w : Written} {condition : Option Expr}
    (h : Writes env s t statement w) (hmoved : w.condition.mapM w.target.moved = some condition)
    {e : Expr} (he : e ∈ statement.condition? ∨ e ∈ Range.joins statement.ranges) {node : Expr}
    (hnode : node ∈ e.nodes) {marker : Marker} (hmarker : node.kind = .parameter marker) :
    node ∈ condition.toList.flatMap Expr.nodes ∨
      ∃ filter ∈ w.layers.map fun layer => layer.filter.toList.flatMap Expr.nodes, node ∈ filter := by
  obtain ⟨beside, hmove⟩ := h.moved
  obtain ⟨operation, a, b, hdescends, -⟩ := hmove.descends
  let nodes := condition.toList.flatMap Expr.nodes ++
    w.layers.flatMap fun layer => layer.filter.toList.flatMap Expr.nodes
  have hP := Expr.conjunctive_parametersIn nodes
  have hfilter : ∀ e ∈ w.target.filter, e.ParametersIn nodes := by
    refine hdescends.filter_keeps hP (fun _ hm he => he.moves hm) (fun layer hlayer e he => ?_)
      (by simp [ViewTarget.start])
    exact fun n hn _ _ => List.mem_append_right _ (List.mem_flatMap.2
      ⟨layer, hlayer, List.mem_flatMap.2 ⟨e, by simpa using he, hn⟩⟩)
  have hwritten : ∀ e ∈ condition, e.ParametersIn nodes := fun e he n hn _ _ =>
    List.mem_append_left _ (List.mem_flatMap.2 ⟨e, by simpa using he, hn⟩)
  have hcondition : ∀ e ∈ statement.condition?, e.ParametersIn nodes := by
    obtain ⟨c, hc, heq⟩ := hmove.condition
    obtain rfl : condition = c := Option.some.inj (hmoved.symm.trans hc)
    rw [heq]
    exact hP.and? hfilter hwritten
  have hjoins : ∀ e ∈ Range.joins statement.ranges, e.ParametersIn nodes := by
    obtain ⟨values, hranges⟩ := hmove.ranges
    rw [hranges]
    exact hP.rangeFor_joins hmove.unjoined.2 values hmove.unjoined.1 hcondition
  have hmem : node ∈ nodes := he.elim (fun he => hcondition e he node hnode marker hmarker)
    fun he => hjoins e he node hnode marker hmarker
  refine (List.mem_append.1 hmem).imp_right fun hmem => ?_
  obtain ⟨layer, hlayer, hmem⟩ := List.mem_flatMap.1 hmem
  exact ⟨_, List.mem_map_of_mem hlayer, hmem⟩

/-- Each parameter that a statement holds comes from its own text or from one of the filters. -/
theorem Origins.mem_parameter {own : List Expr} {filters : List (List Expr)}
    (h : Origins env s t statement own filters) {node : Expr} (hnode : node ∈ statement.heldNodes)
    {marker : Marker} (hmarker : node.kind = .parameter marker) :
    node ∈ own ∨ ∃ filter ∈ filters, node ∈ filter := by
  cases h with
  | insert | truncate | call => exact .inl hnode
  | @change _ w condition h hmoved =>
    rcases List.mem_append.1 hnode with hnode | hnode
    · obtain ⟨e, he, hn⟩ := List.mem_flatMap.1 hnode
      have hkept : e ∈ statement.changing ++ statement.unmoved →
          node ∈ (statement.changing ++ statement.unmoved).flatMap Expr.nodes :=
        fun he => List.mem_flatMap.2 ⟨e, he, hn⟩
      rw [List.append_assoc, List.flatMap_append, List.mem_append, List.mem_append]
      rcases mem_exprs h.changesRows he with he | he | he | he
      · exact (h.mem_parameter hmoved (.inl he) hn hmarker).imp_left fun hc => .inl (.inl hc)
      · exact .inl (.inl (.inr (hkept (List.mem_append_left _ he))))
      · exact .inl (.inl (.inr (hkept (List.mem_append_right _ he))))
      · exact (h.mem_parameter hmoved (.inr he) hn hmarker).imp_left fun hc => .inl (.inl hc)
    · exact .inl (List.mem_append_right _ hnode)

/-! ## Numbers -/

/-- The marks of a statement, those inside its subqueries included. -/
def marks (statement : Statement) : List Mark :=
  statement.heldNodes.filterMap Expr.mark?

/-- A TRUNCATE and a CALL change nothing through a view. -/
theorem peels_nil {x : Token} {rest : List Token} (hrest : s.cursor.rest = x :: rest)
    (hk : x.kind = .keyword .TRUNCATE ∨ x.kind = .keyword .CALL) : Peels env s [] := by
  have hfails : readWritten env s =
      .error (.rejected (.unexpected .statementKeyword x.fragment)) s := by
    rw [readWritten, bind_run (get_ok.2 ⟨rfl, rfl⟩)]
    rcases hk with hk | hk <;> simp only [hrest, hk] <;> rfl
  exact .other hfails

/-- The marks of the nodes of some expressions. -/
theorem filterMap_nodes (es : List Expr) :
    (es.flatMap Expr.nodes).filterMap Expr.mark? = Expr.marksOf es := by
  rw [List.filterMap_flatMap]
  rfl

theorem filterMap_planNodes (plans : List Plan) :
    (plans.flatMap Plan.nodes).filterMap Expr.mark? = plans.flatMap Query.marks := by
  rw [List.filterMap_flatMap]
  rfl

theorem marks_eq (statement : Statement) :
    statement.marks = Expr.marksOf statement.exprs ++ statement.plans.flatMap Query.marks := by
  rw [marks, heldNodes, List.filterMap_append, filterMap_nodes, filterMap_planNodes]

/-- A statement reads its question marks in the order of `markerOrder`, and at some point those in
the filters of the views that it passes. -/
theorem HeadRuns.readsMarks {x : Token} {rest : List Token} (h : HeadRuns env s t x statement)
    (hrest : s.cursor.rest = x :: rest) (htail : IsTail t.cursor.rest) :
    ∃ views own filters, Peels env s views ∧ Origins env s t statement own filters ∧
      ReadsMarks s t (markerOrder s.cursor.rest) views (own.filterMap Expr.mark?)
        (filters.map (·.filterMap Expr.mark?)) := by
  -- What a kind of statement reads is said with its marks in an order of their own.
  have hwith : ∀ {order : List Token} {views : List View} {own : List Expr} {ms : List Mark}
      {filters : List (List Expr)} {fs : List (List Mark)}, markerOrder s.cursor.rest = order →
      own.filterMap Expr.mark? ⊆ ms → filters.map (·.filterMap Expr.mark?) = fs →
      Peels env s views → Origins env s t statement own filters → ReadsMarks s t order views ms fs →
      ∃ views own filters, Peels env s views ∧ Origins env s t statement own filters ∧
        ReadsMarks s t (markerOrder s.cursor.rest) views (own.filterMap Expr.mark?)
          (filters.map (·.filterMap Expr.mark?)) := by
    intro order views own ms filters fs horder hms hfs hpeels horigins hreads
    exact ⟨views, own, filters, hpeels, horigins, horder ▸ hfs ▸ hreads.subset hms⟩
  have hfilters : ∀ layers : List Layer,
      (layers.map fun layer => layer.filter.toList.flatMap Expr.nodes).map
        (·.filterMap Expr.mark?) = layers.map fun layer => Expr.marksOf layer.filter.toList := by
    intro layers
    simp only [List.map_map, Function.comp_def, filterMap_nodes]
  cases h with
  | insert hk h =>
    obtain ⟨run⟩ := Insert.compile_ok h
    obtain ⟨layers, hdescends, -⟩ := ViewTarget.resolve_descends run.target_ok
    obtain ⟨views, hpeels, hreads⟩ := run.readsMarks hrest hk hdescends htail
    refine hwith ?_ ?_ (hfilters layers) hpeels (.insert run hdescends) hreads
    · rcases hk with hk | hk <;> simp [markerOrder, hrest, hk]
    · intro mark hmark
      have hmark : mark ∈ (Statement.insert _).marks := hmark
      simp only [marks_eq, exprs, plans, Insert.sourceMarks, Expr.marksOf_append,
        List.mem_append] at hmark ⊢
      grind
  | update hk h =>
    obtain ⟨run⟩ := Update.compile_ok h
    obtain ⟨layers, hdescends, -⟩ := ViewTarget.resolve_descends run.target_ok
    obtain ⟨views, hpeels, hreads⟩ := run.readsMarks hdescends htail
    refine hwith (by simp [markerOrder, hrest, hk]) ?_ (hfilters layers) hpeels
      (.change (.update run hdescends) run.moved_condition) hreads
    rw [List.filterMap_append, filterMap_nodes, filterMap_planNodes]
    intro mark hmark
    simp only [Expr.marksOf_append, changing, unmoved, plans, Slice.marks_exprs?, List.flatMap_nil,
      List.mem_append, List.not_mem_nil, or_false] at hmark ⊢
    grind
  | delete hk h =>
    obtain ⟨run⟩ := Delete.compile_ok h
    obtain ⟨layers, hdescends, -⟩ := ViewTarget.resolve_descends run.target_ok
    obtain ⟨views, hpeels, hreads⟩ := run.readsMarks hdescends htail
    refine hwith (by simp [markerOrder, hrest, hk]) ?_ (hfilters layers) hpeels
      (.change (.delete run hdescends) run.moved_condition) hreads
    rw [List.filterMap_append, filterMap_nodes, filterMap_planNodes]
    intro mark hmark
    simp only [Expr.marksOf_append, changing, unmoved, plans, Slice.marks_exprs?, List.flatMap_nil,
      List.mem_append, List.not_mem_nil, or_false] at hmark ⊢
    grind
  | merge hk h =>
    obtain ⟨run⟩ := Merge.compile_ok h
    obtain ⟨layers, hdescends, hwritten⟩ := ViewTarget.resolve_descends run.target_ok
    obtain ⟨views, hpeels, hreads⟩ := run.readsMarks hdescends htail
    obtain ⟨updating, deleting, hupdate, hdelete, -⟩ := run.moved hdescends hwritten
    have hnames := Range.readTarget_names run.written_ok
    have hmoved : (some run.on₁).mapM run.target.moved = some (some run.on₂) := by
      simp [run.moved_on]
    refine hwith (by simp [markerOrder, hrest, hk]) ?_ (hfilters layers) hpeels
      (.change (.merge run hdescends hupdate hdelete) hmoved) hreads
    rw [List.filterMap_append, filterMap_nodes, filterMap_planNodes,
      run.plans_eq (hdescends.plain hnames.join hnames.plans).2]
    intro mark hmark
    simp only [Expr.marksOf_append, changing, unmoved, MergeStatement.branchExprs, List.mem_append,
      Option.toList_some, Expr.marksOf_cons, Expr.marksOf_nil, List.append_nil] at hmark ⊢
    grind
  | truncate hk h =>
    exact hwith (by simp [markerOrder, hrest, hk]) (by simp [heldNodes, exprs, plans]) rfl
      (peels_nil hrest (.inl hk)) (.truncate _) (Truncate.compile_numbers h htail)
  | call hk h =>
    refine hwith (by simp [markerOrder, hrest, hk]) ?_ rfl (peels_nil hrest (.inr hk)) (.call _)
      (Call.compile_numbers h htail)
    intro mark hmark
    have hmark : mark ∈ (Statement.call _).marks := hmark
    simpa [marks_eq, plans] using hmark

/-- If the views that it passes have no question mark in their filters, only its own are numbered. -/
theorem HeadRuns.numbers {x : Token} {rest : List Token} (h : HeadRuns env s t x statement)
    (hquiet : QuietViews env s) (hrest : s.cursor.rest = x :: rest) (htail : IsTail t.cursor.rest) :
    statement.marks ⊆ number s.parameters (markerOrder s.cursor.rest) := by
  obtain ⟨views, own, filters, hpeels, horigins, hreads⟩ := h.readsMarks hrest htail
  obtain ⟨before, after, p, q, ms, horder, hbefore, hfilters, hafter⟩ := hreads.numbers
  have hviews : ∀ v ∈ views, v.hasMarker = false := by
    cases hpeels with
    | change hread hsource hviews =>
      exact fun v hv => hquiet _ _ _ hread _ hsource v (hviews.passed v hv)
    | other => simp
  obtain ⟨rfl, hnone⟩ := hfilters.of_quiet hviews
  rw [← List.append_nil ms] at hafter
  have hnumbers := hbefore.chain hafter
  rw [horder] at hnumbers
  -- No mark comes from a filter, so all of them are the statement's own.
  intro mark hmark
  obtain ⟨node, hnode, hmark⟩ := List.mem_filterMap.1 hmark
  obtain ⟨marker, hmarker, -⟩ := Expr.mark?_eq_some.1 hmark
  rcases horigins.mem_parameter hnode hmarker with hown | ⟨filter, hfilter, hmem⟩
  · simpa using hnumbers.marks (List.mem_filterMap.2 ⟨node, hown, hmark⟩)
  · have hnil := hnone _ (List.mem_map_of_mem hfilter)
    exact absurd (List.mem_filterMap.2 ⟨node, hmem, hmark⟩) (by simp [hnil])

/-- The marks of a statement are numbered in the order of `markerOrder`. -/
theorem compile_numbers {text : String} {tokens : List Token} (htext : tokenize text = .ok tokens)
    (hquiet : QuietViews env { s with cursor := .ofTokens tokens })
    (h : compile env text s = .ok statement t) :
    statement.marks ⊆ number s.parameters (markerOrder tokens) := by
  obtain ⟨tokens', u, c, htext', hhead, hfinish, rfl⟩ := compile_ok h
  obtain rfl : tokens' = tokens := by simpa [htext] using htext'.symm
  obtain ⟨x, rest, hrest, hruns⟩ := compileHead_ok hhead
  exact hruns.numbers hquiet hrest (Reader.finish_ok hfinish)

/-- The question marks of a text, from left to right. -/
def questionMarks (tokens : List Token) : List Token :=
  tokens.filter (·.kind = .parameter)

/-- A node was read from the `k`-th question mark of a text. -/
def ReadFrom (tokens : List Token) (k : Nat) (x : Token) (node : Expr) : Prop :=
  (questionMarks tokens)[k]? = some x ∧ x.fragment = node.fragment

theorem nodup_markerOrder {text : String} {tokens : List Token}
    (htext : tokenize text = .ok tokens) : (markerOrder tokens).Nodup := by
  have hnodup : tokens.Nodup :=
    (tokenize_fragments htext).imp fun {x y} hne hxy => hne (congrArg Token.fragment hxy)
  rw [List.nodup_iff_count] at hnodup ⊢
  intro x
  exact Nat.le_trans (count_markerOrder_le x tokens) (hnodup x)

theorem exists_node {mark : Mark} (h : mark ∈ statement.marks) :
    ∃ node ∈ statement.heldNodes, node.fragment = mark.1 ∧
      ∃ marker, node.kind = .parameter marker ∧ marker.index = mark.2 := by
  obtain ⟨node, hnode, hmark⟩ := List.mem_filterMap.1 h
  obtain ⟨marker, hkind, rfl⟩ := Expr.mark?_eq_some.1 hmark
  exact ⟨node, hnode, rfl, marker, hkind, rfl⟩

/-- In a statement compiled on its own, every parameter was read from a question mark of the text,
and its number is the place of that question mark in `markerOrder`. So the `k`-th question mark
has the number `k` if and only if it is the `k`-th of `markerOrder` too. -/
theorem index_eq_iff {text : String} {tokens : List Token} (htext : tokenize text = .ok tokens)
    (hquiet : QuietViews env { CompilerState.initial with cursor := .ofTokens tokens })
    (h : compile env text .initial = .ok statement t) {node : Expr}
    (hnode : node ∈ statement.heldNodes) {marker : Marker} (hmarker : node.kind = .parameter marker) :
    (∃ k x, ReadFrom tokens k x node) ∧
      ∀ k x, ReadFrom tokens k x node → (markerOrder tokens)[marker.index]? = some x ∧
        (marker.index = k ↔ (markerOrder tokens)[k]? = some x) := by
  have hmem : (node.fragment, marker.index) ∈ statement.marks :=
    List.mem_filterMap.2 ⟨node, hnode, by simp [Expr.mark?, hmarker]⟩
  obtain ⟨x, -, hx, hfragment⟩ := mem_number.1 (compile_numbers htext hquiet h hmem)
  have hx : (markerOrder tokens)[marker.index]? = some x := by
    simpa [CompilerState.initial] using hx
  have hxmem := List.mem_of_getElem? hx
  have hmarks : x ∈ questionMarks tokens := by
    simp [questionMarks, mem_of_mem_markerOrder hxmem, kind_of_mem_markerOrder hxmem]
  refine ⟨?_, ?_⟩
  · obtain ⟨k, hk⟩ := List.getElem?_of_mem hmarks
    exact ⟨k, x, hk, hfragment⟩
  · rintro k y ⟨hk, hy⟩
    have hymem : y ∈ tokens := List.mem_of_mem_filter (List.mem_of_getElem? hk)
    obtain rfl : x = y := eq_of_fragment_eq (tokenize_fragments htext)
      (mem_of_mem_markerOrder hxmem) hymem (hfragment.trans hy.symm)
    refine ⟨hx, ?_, ?_⟩
    · rintro rfl
      exact hx
    · intro hkx
      exact (List.getElem?_inj (List.getElem?_eq_some_iff.1 hx).1 (nodup_markerOrder htext)).1
        (hx.trans hkx.symm)

theorem bank_quiet (s : CompilerState) : QuietViews .bank s :=
  .of_views (by decide +kernel)

/-- Through two views: a question mark in a subquery, and one behind it. -/
def layeredDelete : String :=
  "DELETE FROM rich_active WHERE balance > (SELECT amount FROM ledger WHERE id = ?) AND balance < ?"

set_option maxRecDepth 10000 in
/-- The second question mark comes first in `markerOrder`, so it does not have the number one. -/
theorem index_eq_iff_layered :
    ∃ tokens statement t node marker x, tokenize layeredDelete = .ok tokens ∧
      compile .bank layeredDelete .initial = .ok statement t ∧
      node ∈ statement.heldNodes ∧ node.kind = .parameter marker ∧ marker.index = 0 ∧
      ReadFrom tokens 1 x node ∧ (markerOrder tokens)[marker.index]? = some x ∧
        (marker.index = 1 ↔ (markerOrder tokens)[1]? = some x) := by
  obtain ⟨statement, t, hcompile, hmark⟩ := exists_compile .bank layeredDelete
    (fun statement => (.written "?" 1 96, 0) ∈ statement.marks) rfl (by decide +kernel)
  obtain ⟨node, hnode, hfragment, marker, hmarker, hindex⟩ := exists_node (of_decide_eq_true hmark)
  obtain ⟨tokens, _, _, htext, -⟩ := compile_ok hcompile
  have hmarks : (tokenize layeredDelete).toOption.map (questionMarks · |>.getLast?) =
      some (some ⟨.parameter, .written "?" 1 96, rfl⟩) :=
    tokenize_map rfl (by decide +kernel)
  have hcount : (tokenize layeredDelete).toOption.map (questionMarks · |>.length) = some 2 :=
    tokenize_map rfl (by decide +kernel)
  rw [htext] at hmarks hcount
  have hread : ReadFrom tokens 1 ⟨.parameter, .written "?" 1 96, rfl⟩ node := by
    have hcount : (questionMarks tokens).length = 2 := by simpa [Except.toOption] using hcount
    refine ⟨?_, hfragment.symm⟩
    simpa [Except.toOption, List.getLast?_eq_getElem?, hcount] using hmarks
  obtain ⟨-, horder⟩ := index_eq_iff htext (bank_quiet _) hcompile hnode hmarker
  exact ⟨tokens, statement, t, node, marker, _, htext, hcompile, hnode, hmarker, hindex, hread,
    horder 1 _ hread⟩

/-- A question mark in a subquery, and one behind it. -/
def subqueryFirst : String :=
  "UPDATE t SET a = (SELECT id FROM ledger WHERE amount = ?) WHERE b = ?"

set_option maxRecDepth 10000 in
/-- The first question mark has the number one if it stands in a subquery. -/
theorem subqueryFirst_index :
    ∃ tokens statement t node marker x, tokenize subqueryFirst = .ok tokens ∧
      QuietViews .bank { CompilerState.initial with cursor := .ofTokens tokens } ∧
      compile .bank subqueryFirst .initial = .ok statement t ∧ node ∈ statement.heldNodes ∧
      node.kind = .parameter marker ∧ ReadFrom tokens 0 x node ∧ marker.index = 1 := by
  obtain ⟨statement, t, hcompile, hmark⟩ := exists_compile .bank subqueryFirst
    (fun statement => (.written "?" 1 56, 1) ∈ statement.marks) rfl (by decide +kernel)
  obtain ⟨node, hnode, hfragment, marker, hmarker, hindex⟩ := exists_node (of_decide_eq_true hmark)
  obtain ⟨tokens, _, _, htext, -⟩ := compile_ok hcompile
  have hmarks : (tokenize subqueryFirst).toOption.map (questionMarks · |>.head?) =
      some (some ⟨.parameter, .written "?" 1 56, rfl⟩) :=
    tokenize_map rfl (by decide +kernel)
  rw [htext] at hmarks
  refine ⟨tokens, statement, t, node, marker, ⟨.parameter, .written "?" 1 56, rfl⟩, htext,
    bank_quiet _, hcompile, hnode, hmarker, ⟨?_, hfragment.symm⟩, hindex⟩
  simpa [Except.toOption, List.head?_eq_getElem?] using hmarks

end Statement

end DataChange
