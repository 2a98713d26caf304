import DataChange.Proofs.Marker.Statements

/-!
# Every question mark is counted once

Tokens are looked at, put back, kept as the body of a subquery and read again later; the filters of
views are texts of their own, in which question marks may stand at the same places as in the
statement or in each other. An `Occurrence` tells them apart by the text that they stand in.
Whatever happens, each occurrence takes one number, and no other takes the same
(`parameters_counted`). A `Numbering` says which takes which.
-/

namespace DataChange

namespace Statement

/-- The question marks in the filters of some views. -/
def filterMarks (views : List View) : List Token :=
  views.flatMap fun v => questionMarks v.filterTokens

/-- A question mark in one of some texts. -/
structure Occurrence where
  /-- Which of the texts it stands in. -/
  source : Nat
  token : Token
  deriving DecidableEq

/-- The question marks of some texts, the first of which has the number `first`. -/
def occurrences (first : Nat) : List (List Token) → List Occurrence
  | [] => []
  | text :: texts => (questionMarks text).map (⟨first, ·⟩) ++ occurrences (first + 1) texts

theorem mem_occurrences {o : Occurrence} {first : Nat} {texts : List (List Token)} :
    o ∈ occurrences first texts ↔
      ∃ text, first ≤ o.source ∧ texts[o.source - first]? = some text ∧ o.token ∈ questionMarks text := by
  induction texts generalizing first with
  | nil => simp [occurrences]
  | cons text texts ih =>
    obtain ⟨source, token⟩ := o
    simp only [occurrences, List.mem_append, List.mem_map, Occurrence.mk.injEq, ih]
    constructor
    · rintro (⟨x, hx, rfl, rfl⟩ | ⟨text', hle, htext, hx⟩)
      · exact ⟨text, Nat.le_refl _, by simp, hx⟩
      · have hsucc : source - first = source - (first + 1) + 1 := by omega
        exact ⟨text', by omega, by simpa [hsucc] using htext, hx⟩
    · rintro ⟨text', hle, htext, hx⟩
      rcases Nat.eq_or_lt_of_le hle with rfl | hlt
      · obtain rfl : text = text' := by simpa using htext
        exact .inl ⟨token, hx, rfl, rfl⟩
      · have hsucc : source - first = source - (first + 1) + 1 := by omega
        exact .inr ⟨text', hlt, by simpa [hsucc] using htext, hx⟩

/-- Different places in a text, and different texts. -/
theorem nodup_occurrences {first : Nat} {texts : List (List Token)}
    (h : ∀ text ∈ texts, text.Nodup) : (occurrences first texts).Nodup := by
  induction texts generalizing first with
  | nil => exact .nil
  | cons text texts ih =>
    obtain ⟨htext, htexts⟩ := List.forall_mem_cons.1 h
    refine List.nodup_append.2 ⟨?_, ih htexts, ?_⟩
    · exact List.pairwise_map.2 ((htext.filter _).imp fun hne hxy => hne (Occurrence.mk.inj hxy).2)
    · rintro _ ho _ hlater rfl
      obtain ⟨x, -, rfl⟩ := List.mem_map.1 ho
      obtain ⟨-, hle, -⟩ := mem_occurrences.1 hlater
      exact Nat.not_succ_le_self _ hle

/-- The question marks of some texts in the order of their numbers. -/
structure Numbering (texts : List (List Token)) where
  order : List Occurrence
  once : order.Perm (occurrences 0 texts)

/-- No occurrence has two numbers. -/
theorem Numbering.inj_iff {texts : List (List Token)} (n : Numbering texts)
    (htexts : ∀ text ∈ texts, text.Pairwise fun x y => x.fragment ≠ y.fragment)
    {k k' : Nat} {o o' : Occurrence} (h : n.order[k]? = some o) (h' : n.order[k']? = some o') :
    k = k' ↔ o = o' := by
  have hnodup : n.order.Nodup := n.once.nodup_iff.2 <| nodup_occurrences fun text htext =>
    (htexts text htext).imp fun {x y} hne hxy => hne (congrArg Token.fragment hxy)
  constructor
  · rintro rfl
    exact Option.some.inj (h.symm.trans h')
  · rintro rfl
    have hlt := (List.getElem?_eq_some_iff.1 h).1
    exact (List.getElem?_inj hlt hnodup).1 (h.trans h'.symm)

/-- A node of the `source`-th part was read from a question mark of the `source`-th text. -/
structure Reads (texts : List (List Token)) (parts : List (List Expr)) (o : Occurrence)
    (node : Expr) : Prop where
  occurs : o ∈ occurrences 0 texts
  part : ∃ part, parts[o.source]? = some part ∧ node ∈ part
  place : o.token.fragment = node.fragment

/-- The tokens of a filter stand in different places. -/
theorem pairwise_filterTokens (v : View) :
    v.filterTokens.Pairwise fun x y => x.fragment ≠ y.fragment := by
  rcases v.filterTokens_cases with hnil | ⟨text, -, htokens⟩
  · rw [hnil]
    exact .nil
  · exact tokenize_fragments htokens

/-- Within a text, a question mark is known by its place. -/
theorem Reads.unique {texts : List (List Token)} {parts : List (List Expr)} {o o' : Occurrence}
    {node : Expr} (htexts : ∀ text ∈ texts, text.Pairwise fun x y => x.fragment ≠ y.fragment)
    (h : Reads texts parts o node) (ho' : o' ∈ occurrences 0 texts) (hsource : o'.source = o.source)
    (hplace : o'.token.fragment = node.fragment) : o' = o := by
  obtain ⟨text, -, htext, hx⟩ := mem_occurrences.1 h.occurs
  obtain ⟨text', -, htext', hx'⟩ := mem_occurrences.1 ho'
  rw [hsource, htext] at htext'
  obtain rfl := Option.some.inj htext'
  have htoken : o'.token = o.token := eq_of_fragment_eq (htexts text (List.mem_of_getElem? htext))
    (List.mem_of_mem_filter hx') (List.mem_of_mem_filter hx) (hplace.trans h.place.symm)
  cases o
  cases o'
  simp_all

variable {env : Environment} {statement : Statement} {s t : CompilerState}

/-- The marks that some question marks of one text give, with their numbers. -/
theorem mem_number_source (source : Nat) {first : Nat} {order : List Token} {mark : Mark}
    (h : mark ∈ number first order) :
    ∃ k o, mark.2 = first + k ∧ (order.map (Occurrence.mk source))[k]? = some o ∧
      o.source = source ∧ o.token.fragment = mark.1 := by
  obtain ⟨x, hle, hx, hfragment⟩ := mem_number.1 h
  exact ⟨mark.2 - first, ⟨source, x⟩, by omega, by simp [hx], rfl, hfragment⟩

/-- The filters of views that are numbered from `p` to `q`, as texts from `source` on: their
occurrences in the order of their numbers, and for each mark of a filter the one that it is. -/
theorem exists_filterOrder {p q : Nat} {views : List View} {filters : List (List Mark)}
    (h : NumbersFilters p q views filters) (source : Nat) :
    ∃ order : List Occurrence, order.Perm (occurrences source (views.map (·.filterTokens))) ∧
      q = p + order.length ∧ ∀ (i : Nat) (ms : List Mark), filters[i]? = some ms → ∀ mark ∈ ms,
        ∃ k o, mark.2 = p + k ∧ order[k]? = some o ∧ o.source = source + i ∧
          o.token.fragment = mark.1 := by
  induction h generalizing source with
  | nil => exact ⟨[], by simp [occurrences], rfl, by simp⟩
  | @cons p q r v views ms filters hpaired hfirst _ ih =>
    obtain ⟨rest, hperm, hcount, hmarks⟩ := ih (source + 1)
    have hq := hfirst.count
    refine ⟨(readingOrder v.filterTokens).map (⟨source, ·⟩) ++ rest, ?_, ?_, ?_⟩
    · exact (hpaired.readingOrder_perm.map _).append hperm
    · rw [hcount, hq, List.length_append, List.length_map, Nat.add_assoc]
    · rintro (_ | i) ms' hms mark hmark
      · obtain rfl : ms = ms' := by simpa using hms
        obtain ⟨k, o, hk, ho, hsource, hplace⟩ :=
          mem_number_source source (by simpa using hfirst.marks hmark)
        obtain ⟨hlt, -⟩ := List.getElem?_eq_some_iff.1 ho
        exact ⟨k, o, hk, by rw [List.getElem?_append_left hlt, ho], hsource, hplace⟩
      · obtain ⟨k, o, hk, ho, hsource, hplace⟩ := hmarks i ms' (by simpa using hms) mark hmark
        refine ⟨(readingOrder v.filterTokens).length + k, o, by omega, ?_, by omega, hplace⟩
        rw [List.getElem?_append_right (by simp), List.length_map, Nat.add_sub_cancel_left, ho]

/-- What a statement reads, as a numbering of its question marks. -/
theorem exists_numbering {tokens : List Token} {views : List View} {own : List Mark}
    {filters : List (List Mark)}
    (h : ReadsMarks s t (markerOrder tokens) views own filters) (htokens : s.cursor.rest = tokens) :
    ∃ n : Numbering (tokens :: views.map (·.filterTokens)),
      t.parameters = s.parameters + n.order.length ∧
      ∀ (i : Nat) (ms : List Mark), (own :: filters)[i]? = some ms → ∀ mark ∈ ms,
        ∃ k o, mark.2 = s.parameters + k ∧ n.order[k]? = some o ∧ o.source = i ∧
          o.token.fragment = mark.1 := by
  obtain ⟨before, after, p, q, ms, horder, hbefore, hfilters, hafter⟩ := h.numbers
  obtain ⟨between, hbetween, hq, hmarks⟩ := exists_filterOrder hfilters 1
  have htext : (before ++ after).Perm (questionMarks tokens) := by
    rw [horder, ← htokens]
    exact htokens ▸ h.once
  have hp := hbefore.count
  have ht := hafter.count
  -- The numbers of the filters stand between those of the text.
  let order := before.map (Occurrence.mk 0) ++ (between ++ after.map (Occurrence.mk 0))
  have honce : order.Perm (occurrences 0 (tokens :: views.map (·.filterTokens))) := by
    have hmap := htext.map (Occurrence.mk 0)
    rw [List.map_append] at hmap
    refine List.Perm.trans ?_ (hmap.append hbetween)
    rw [List.append_assoc]
    exact List.perm_append_comm.append_left _
  have hown : ∀ mark ∈ own, mark ∈ number s.parameters before ∨ mark ∈ number q after := by
    intro mark hmark
    refine (List.mem_append.1 (hafter.marks hmark)).imp_left fun hmark => ?_
    simpa using hbefore.marks hmark
  refine ⟨⟨order, honce⟩, ?_, ?_⟩
  · simp only [order, List.length_append, List.length_map]
    omega
  · rintro (_ | i) ms' hms mark hmark
    · obtain rfl : own = ms' := by simpa using hms
      rcases hown mark hmark with hmark | hmark
      · obtain ⟨k, o, hk, ho, hrest⟩ := mem_number_source 0 hmark
        obtain ⟨hlt, -⟩ := List.getElem?_eq_some_iff.1 ho
        exact ⟨k, o, hk, by rw [List.getElem?_append_left hlt, ho], hrest⟩
      · obtain ⟨k, o, hk, ho, hrest⟩ := mem_number_source 0 hmark
        refine ⟨before.length + (between.length + k), o, by omega, ?_, hrest⟩
        rw [List.getElem?_append_right (by simp), List.length_map, Nat.add_sub_cancel_left,
          List.getElem?_append_right (by simp), Nat.add_sub_cancel_left, ho]
    · obtain ⟨k, o, hk, ho, hsource, hplace⟩ := hmarks i ms' (by simpa using hms) mark hmark
      obtain ⟨hlt, -⟩ := List.getElem?_eq_some_iff.1 ho
      refine ⟨before.length + k, o, by omega, ?_, by omega, hplace⟩
      rw [List.getElem?_append_right (by simp), List.length_map, Nat.add_sub_cancel_left,
        List.getElem?_append_left hlt, ho]

/-- Each parameter that a statement reads has the number of the occurrence that it was read from. -/
theorem exists_reads {tokens : List Token} {views : List View} {own : List Expr}
    {filters : List (List Expr)}
    (h : ReadsMarks s t (markerOrder tokens) views (own.filterMap Expr.mark?)
      (filters.map (·.filterMap Expr.mark?))) (htokens : s.cursor.rest = tokens) :
    ∃ n : Numbering (tokens :: views.map (·.filterTokens)),
      t.parameters = s.parameters + n.order.length ∧
      ∀ (i : Nat) (part : List Expr), (own :: filters)[i]? = some part →
        ∀ node ∈ part, ∀ marker, node.kind = .parameter marker →
          ∃ k o, marker.index = s.parameters + k ∧ n.order[k]? = some o ∧ o.source = i ∧
            Reads (tokens :: views.map (·.filterTokens)) (own :: filters) o node := by
  obtain ⟨n, hcount, hmarks⟩ := exists_numbering h htokens
  refine ⟨n, hcount, fun i part hpart node hnode marker hmarker => ?_⟩
  have hmark : (node.fragment, marker.index) ∈ part.filterMap Expr.mark? :=
    List.mem_filterMap.2 ⟨node, hnode, by simp [Expr.mark?, hmarker]⟩
  have hms : ((own :: filters).map (·.filterMap Expr.mark?))[i]? =
      some (part.filterMap Expr.mark?) := by
    rw [List.getElem?_map, hpart]
    rfl
  obtain ⟨k, o, hk, ho, rfl, hplace⟩ := hmarks i _ hms _ hmark
  exact ⟨k, o, hk, ho, rfl, n.once.subset (List.mem_of_getElem? ho), ⟨part, hpart, hnode⟩, hplace⟩

theorem length_occurrences (first : Nat) (views : List View) :
    (occurrences first (views.map (·.filterTokens))).length = (filterMarks views).length := by
  induction views generalizing first with
  | nil => rfl
  | cons v views ih => simp [occurrences, filterMarks, ih]

/-- A text that compiles counts each of its question marks once, and each of those in the filters of
the views that it passes: the count grows by their number. Every parameter that the statement holds
was read from an occurrence of a question mark, in the text itself or in the filter that it comes
from, and has the number of this occurrence. So parameters have the same number if and only if they
were read from the same occurrence. -/
theorem parameters_counted {text : String} (h : compile env text s = .ok statement t) :
    ∃ tokens views u own filters, ∃ n : Numbering (tokens :: views.map (·.filterTokens)),
      tokenize text = .ok tokens ∧ Peels env { s with cursor := .ofTokens tokens } views ∧
      Origins env { s with cursor := .ofTokens tokens } u statement own filters ∧
      filters.length = views.length ∧
      t.parameters =
        s.parameters + (questionMarks tokens).length + (filterMarks views).length ∧
      (∀ node ∈ statement.heldNodes, ∀ marker, node.kind = .parameter marker →
        ∃ o, Reads (tokens :: views.map (·.filterTokens)) (own :: filters) o node) ∧
      (∀ o node marker, Reads (tokens :: views.map (·.filterTokens)) (own :: filters) o node →
        node.kind = .parameter marker →
        ∃ k, marker.index = s.parameters + k ∧ n.order[k]? = some o) ∧
      ∀ o o' node node' marker marker',
        Reads (tokens :: views.map (·.filterTokens)) (own :: filters) o node →
        Reads (tokens :: views.map (·.filterTokens)) (own :: filters) o' node' →
        node.kind = .parameter marker → node'.kind = .parameter marker' →
        (marker.index = marker'.index ↔ o = o') := by
  obtain ⟨tokens, u, c, htext, hhead, hfinish, rfl⟩ := compile_ok h
  obtain ⟨x, rest, hrest, hruns⟩ := compileHead_ok hhead
  obtain ⟨views, own, filters, hpeels, horigins, hreads⟩ :=
    hruns.readsMarks hrest (Reader.finish_ok hfinish)
  obtain ⟨n, hcount, hnumbered⟩ := exists_reads hreads rfl
  -- no two tokens of one source stand at one place, so a place tells which token was read
  have htexts : ∀ source ∈ tokens :: views.map (·.filterTokens),
      source.Pairwise fun x y => x.fragment ≠ y.fragment := by
    refine List.forall_mem_cons.2 ⟨tokenize_fragments htext, fun source hsource => ?_⟩
    obtain ⟨v, -, rfl⟩ := List.mem_map.1 hsource
    exact pairwise_filterTokens v
  have hread : ∀ o node marker,
      Reads (tokens :: views.map (·.filterTokens)) (own :: filters) o node →
      node.kind = .parameter marker →
      ∃ k, marker.index = s.parameters + k ∧ n.order[k]? = some o := by
    intro o node marker hread hmarker
    obtain ⟨part, hpart, hnode⟩ := hread.part
    obtain ⟨k, o', hk, ho', hsource, hread'⟩ := hnumbered _ part hpart node hnode marker hmarker
    exact ⟨k, hk, hread.unique htexts hread'.occurs hsource hread'.place ▸ ho'⟩
  refine ⟨tokens, views, u, own, filters, n, htext, hpeels, horigins, ?_, ?_, ?_, hread, ?_⟩
  · obtain ⟨_, _, _, _, _, -, -, hfilters, -⟩ := hreads.numbers
    simpa using hfilters.length_eq
  · rw [n.once.length_eq, occurrences, List.length_append, List.length_map,
      length_occurrences] at hcount
    rw [Nat.add_assoc]
    exact hcount
  · intro node hnode marker hmarker
    rcases horigins.mem_parameter hnode hmarker with hown | ⟨filter, hfilter, hmem⟩
    · obtain ⟨-, o, -, -, -, hread⟩ := hnumbered 0 own rfl node hown marker hmarker
      exact ⟨o, hread⟩
    · obtain ⟨i, hi⟩ := List.getElem?_of_mem hfilter
      obtain ⟨-, o, -, -, -, hread⟩ := hnumbered (i + 1) filter hi node hmem marker hmarker
      exact ⟨o, hread⟩
  · intro o o' node node' marker marker' ho ho' hmarker hmarker'
    obtain ⟨k, hk, hko⟩ := hread o node marker ho hmarker
    obtain ⟨k', hk', hko'⟩ := hread o' node' marker' ho' hmarker'
    rw [hk, hk', Nat.add_right_inj]
    exact n.inj_iff htexts hko hko'

/-- The bank with a view whose filter takes a parameter, and a view over it whose filter takes two. -/
def metered : Environment where
  catalog := (Catalog.Banking.catalog.setView
    (Catalog.Banking.view 6 "above" (Catalog.Banking.integerColumns ["id", "a", "b"])
      (Catalog.Banking.baseOver "t" [0, 1, 2] (some "a > ?")))).setView
    (Catalog.Banking.view 7 "inside" (Catalog.Banking.integerColumns ["id", "a", "b"])
      (Catalog.Banking.baseOver "above" [0, 1, 2] (some "b < ? OR b = ?")))
  config := {}

def meteredUpdate : String :=
  "UPDATE inside SET a = (SELECT id FROM ledger WHERE amount = ?) WHERE b = ?"

set_option maxRecDepth 10000 in
/-- A question mark in each of the two filters, both at the fifth column: they are told apart. -/
theorem parameters_counted_metered :
    ∃ statement t tokens views u own filters node node' marker marker',
      compile metered meteredUpdate .initial = .ok statement t ∧
      tokenize meteredUpdate = .ok tokens ∧
      Peels metered { CompilerState.initial with cursor := .ofTokens tokens } views ∧
      Origins metered { CompilerState.initial with cursor := .ofTokens tokens } u statement own
        filters ∧
      t.parameters = 0 + (questionMarks tokens).length + (filterMarks views).length ∧
      node ∈ statement.heldNodes ∧ node.kind = .parameter marker ∧ marker.index = 2 ∧
      node' ∈ statement.heldNodes ∧ node'.kind = .parameter marker' ∧ marker'.index = 4 ∧
      node.fragment = node'.fragment ∧
      ∃ o o', Reads (tokens :: views.map (·.filterTokens)) (own :: filters) o node ∧
        Reads (tokens :: views.map (·.filterTokens)) (own :: filters) o' node' ∧ o ≠ o' := by
  obtain ⟨statement, t, hcompile, hcheck⟩ := exists_compile metered meteredUpdate
    (fun statement => (.written "?" 1 5, 2) ∈ statement.marks ∧
      (.written "?" 1 5, 4) ∈ statement.marks) rfl (by decide +kernel)
  obtain ⟨hinner, houter⟩ := of_decide_eq_true hcheck
  obtain ⟨node, hnode, hplace, marker, hmarker, hindex⟩ := exists_node hinner
  obtain ⟨node', hnode', hplace', marker', hmarker', hindex'⟩ := exists_node houter
  obtain ⟨tokens, views, u, own, filters, n, htokens, hpeels, horigins, -, hcount, hread, -, hsame⟩ :=
    parameters_counted hcompile
  obtain ⟨o, ho⟩ := hread node hnode marker hmarker
  obtain ⟨o', ho'⟩ := hread node' hnode' marker' hmarker'
  refine ⟨statement, t, tokens, views, u, own, filters, node, node', marker, marker', hcompile,
    htokens, hpeels, horigins, hcount, hnode, hmarker, hindex, hnode', hmarker', hindex',
    hplace.trans hplace'.symm, o, o', ho, ho', fun heq => ?_⟩
  have := (hsame o o' node node' marker marker' ho ho' hmarker hmarker').2 heq
  omega

end Statement

end DataChange
