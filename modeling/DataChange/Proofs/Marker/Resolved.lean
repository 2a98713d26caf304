import DataChange.Proofs.Expr.Bound
import DataChange.Proofs.Expr.Moved
import DataChange.Proofs.Expr.Typed
import DataChange.Proofs.Marker.Parsed

/-!
# Question marks of resolved expressions

Binding reads the subqueries of an expression, one body after the other, and numbers their
question marks (`bindIn_numbers`). Whatever comes after it keeps the marks: inference, types given
to parameters, and the move of column references to another range.
-/

namespace DataChange

/-! ## Numbering -/

/-- From `p` to `q` the question marks `order` are numbered, and they are what `new` has beyond
`old`. -/
structure Numbers (p q : Nat) (order : List Token) (old new : List Mark) : Prop where
  count : q = p + order.length
  marks : new ⊆ old ++ number p order

namespace Numbers

variable {p q r : Nat} {o o' : List Token} {ms ms' ns ns' : List Mark}

theorem refl (p : Nat) (ms : List Mark) : Numbers p p [] ms ms :=
  ⟨rfl, by simp⟩

theorem trans (h : Numbers p q o ms ms') (k : Numbers q r o' ns ns') :
    Numbers p r (o ++ o') (ms ++ ns) (ms' ++ ns') where
  count := by rw [k.count, h.count, List.length_append, Nat.add_assoc]
  marks := by
    intro m hm
    rw [number_append, ← h.count]
    rcases List.mem_append.1 hm with hm | hm
    · have := h.marks hm
      grind
    · have := k.marks hm
      grind

/-- What was found first is part of what a later step starts from. -/
theorem chain (h : Numbers p q o ms ms') (k : Numbers q r o' (ms' ++ ns) ns') :
    Numbers p r (o ++ o') (ms ++ ns) ns' where
  count := by rw [k.count, h.count, List.length_append, Nat.add_assoc]
  marks := by
    intro m hm
    rw [number_append, ← h.count]
    have := k.marks hm
    have := @h.marks m
    grind

theorem subset (h : Numbers p q o ms ms') (hn : ns ⊆ ms') : Numbers p q o ms ns :=
  ⟨h.count, fun _ hm => h.marks (hn hm)⟩

end Numbers

/-- What was read, with its subqueries resolved: numbered in the order of reading. -/
theorem Scan.numbers {commas : Bool} {r u : Reading} {xs : List Token} {ms ms' : List Mark}
    {bs : List (List Token)} {q : Nat} (h : Scan commas r u xs ms bs)
    (hn : Numbers u.parameters q (bs.flatMap readingOrder) ms ms') :
    Numbers r.parameters q (readingOrder xs) [] ms' := by
  have hd : bs.flatMap readingOrder = deferredOrder xs := by rw [deferredOrder, h.bodies]
  rw [hd] at hn
  rw [readingOrder_eq]
  refine ⟨?_, fun m hm => ?_⟩
  · rw [hn.count, h.count, List.length_append, Nat.add_assoc]
  · have := hn.marks hm
    rwa [h.marks, h.count, ← number_append] at this

namespace Expr

variable {e e' : Expr} {es es' : List Expr}

/-! ## Passes that keep the marks -/

theorem marks_congr (hk : e'.kind = e.kind) (hf : e'.fragment = e.fragment) :
    e'.marks = e.marks := by
  simp [marks_eq, children, planNodes, mark?, hk, hf]

@[simp] theorem marks_withType (e : Expr) (t : SqlType) : (e.withType t).marks = e.marks :=
  marks_congr rfl rfl

@[simp] theorem marks_asColumn (e : Expr) (t : SqlType) (writeable : Bool) :
    (e.asColumn t writeable).marks = e.marks := by
  obtain ⟨kind, fragment, type⟩ := e
  cases kind <;> rfl

@[simp] theorem marks_settle (e : Expr) (t : SqlType) : (e.settle t).marks = e.marks := by
  unfold settle
  split
  · exact marks_withType e t
  · rfl

theorem Settles.marks (h : Settles e e') : e'.marks = e.marks := by
  rcases h with rfl | ⟨-, t, rfl⟩
  · rfl
  · exact marks_withType e t

theorem marks_withChildren {cs : List Expr} (h : cs.length = e.children.length) :
    (e.withChildren cs).marks =
      marksOf cs ++ e.planNodes.filterMap mark? ++ e.mark?.toList := by
  have hm : (e.withChildren cs).mark? = e.mark? := by
    obtain ⟨kind, fragment, type⟩ := e
    cases kind <;> rcases cs with _ | ⟨c, _ | ⟨d, _ | ⟨x, xs⟩⟩⟩ <;> rfl
  rw [marks_eq, children_withChildren h, planNodes_withChildren, hm]

theorem marksOf_congr (h : List.Forall₂ (fun c c' => c'.marks = c.marks) es es') :
    marksOf es' = marksOf es := by
  induction h with
  | nil => rfl
  | cons h _ ih => rw [marksOf_cons, marksOf_cons, h, ih]

theorem infer_marks (h : infer e = .ok e') : e'.marks = e.marks := by
  induction e using induct generalizing e' with
  | h e ih =>
    have hi := infer_ok h
    have hcs : List.Forall₂ (fun c c' => c'.marks = c.marks) e.children e'.children := by
      refine ((List.forall₂_and_left _ _).2 ⟨fun c hc => hc, hi.children⟩).imp ?_
      rintro c c' ⟨hc, d, hd, hs, -⟩
      rw [hs.marks, ih c hc hd]
    calc e'.marks
        = (e.withChildren e'.children).marks := marks_congr hi.kind hi.fragment
      _ = e.marks := by
        rw [marks_withChildren hi.children.length_eq.symm, marksOf_congr hcs, ← marks_eq]

theorem inferCondition_marks (h : inferCondition e = .ok e') : e'.marks = e.marks := by
  unfold inferCondition at h
  split at h
  · cases h
  · rename_i d hd
    have hm := infer_marks (scalar_inferred hd)
    split at h
    · cases h
      rw [marks_withType, hm]
    · cases h
      exact hm
    · cases h

/-! ## Moved columns -/

theorem Moves.mark? {change : ColumnChange} (h : Moves change e e') :
    e'.mark? = e.mark? ∧ e'.body? = e.body? := by
  obtain ⟨kind, fragment, type⟩ := e
  unfold Moves at h
  cases kind <;> simp only [mapColumns, Option.map_eq_some_iff, Option.some.injEq] at h
  case binary =>
    split at h
    · cases h
      exact ⟨rfl, rfl⟩
    · cases h
  case constant | parameter | defaultMarker | pending | diagnostics =>
    subst h
    exact ⟨rfl, rfl⟩
  all_goals
    obtain ⟨_, -, rfl⟩ := h
    exact ⟨rfl, rfl⟩

theorem marks_mapColumns {change : ColumnChange} (h : e.mapColumns change = some e') :
    e'.marks = e.marks ∧ e'.bodies = e.bodies := by
  unfold marks bodies
  have hn := nodes_mapColumns h
  generalize e.nodes = ns, e'.nodes = ns' at hn
  induction hn with
  | nil => exact ⟨rfl, rfl⟩
  | cons h _ ih => simp only [List.filterMap_cons, h.mark?.1, h.mark?.2, ih, and_self]

/-- Qualifying free columns keeps marks and subqueries, and binds nothing. -/
theorem qualifyFree_keeps (qualifier : String) (e : Expr) :
    (e.qualifyFree qualifier).marks = e.marks ∧ (e.qualifyFree qualifier).bodies = e.bodies ∧
      (e.Raw → (e.qualifyFree qualifier).Raw) := by
  unfold qualifyFree
  cases h : e.mapColumns (ColumnRef.qualifyFree qualifier) with
  | none => exact ⟨rfl, rfl, id⟩
  | some e' =>
    obtain ⟨hm, hb⟩ := marks_mapColumns h
    refine ⟨hm, hb, fun hraw => raw_iff.2 ?_⟩
    have hn := nodes_mapColumns h
    have hraw := raw_iff.1 hraw
    rw [Option.getD_some]
    generalize e.nodes = ns, e'.nodes = ns' at hn hraw
    -- node by node: of the nodes only columns change, and what they become is raw too
    induction hn with
    | nil => simp
    | @cons n n' _ _ hmove _ ih =>
      have hhead : n'.isRaw = n.isRaw := by
        obtain ⟨kind, fragment, type⟩ := n
        unfold Moves at hmove
        cases kind <;> simp only [mapColumns, Option.map_eq_some_iff, Option.some.injEq] at hmove
        case column ref =>
          obtain ⟨⟨ref', type'⟩, hchange, rfl⟩ := hmove
          unfold ColumnRef.qualifyFree at hchange
          split at hchange <;>
          · cases hchange
            rfl
        case binary =>
          split at hmove
          · cases hmove
            rfl
          · cases hmove
        case constant | parameter | defaultMarker | pending | diagnostics =>
          subst hmove
          rfl
        all_goals
          obtain ⟨_, -, rfl⟩ := hmove
          rfl
      intro m hm
      rcases List.mem_cons.1 hm with rfl | hm
      · rw [hhead]
        exact hraw n (by simp)
      · exact ih (fun k hk => hraw k (by simp [hk])) m hm

/-! ## Binding -/

/-- A query compiler that numbers the question marks of a query in the order of reading. -/
def NumbersQueries (compile : QueryCompiler) : Prop :=
  ∀ body outer s plan t, compile body outer s = .ok plan t →
    Numbers s.parameters t.parameters (readingOrder body) [] (plan.nodes.filterMap mark?)

variable {compile : QueryCompiler} {scope : Scope} {s t : CompilerState} {free : List FreeColumn}

theorem bindListIn_numbers
    (ih : ∀ e ∈ es, ∀ s e' free t, bindIn compile scope e s = .ok (e', free) t →
      Numbers s.parameters t.parameters (e.bodies.flatMap readingOrder) e.marks e'.marks)
    (h : bindListIn compile scope es s = .ok (es', free) t) :
    Numbers s.parameters t.parameters ((bodiesOf es).flatMap readingOrder) (marksOf es)
      (marksOf es') := by
  induction es generalizing s es' free with
  | nil =>
    obtain ⟨h, rfl⟩ := pure_ok.1 h
    cases h
    exact .refl _ _
  | cons e es ihs =>
    obtain ⟨e', f, u, fs, g, he, hes, rfl, -⟩ := bindListIn_cons.1 h
    rw [bodiesOf_cons, List.flatMap_append]
    exact (ih e (by simp) _ _ _ _ he).trans (ihs (fun c hc => ih c (by simp [hc])) hes)

/-- Binding a node numbers the question marks of the subqueries below it. -/
theorem bindNode_numbers (hcompile : NumbersQueries compile) (hplan : e.planNodes = [])
    (ih : ∀ c ∈ e.children, ∀ s c' free t, bindIn compile scope c s = .ok (c', free) t →
      Numbers s.parameters t.parameters (c.bodies.flatMap readingOrder) c.marks c'.marks)
    (h : bindIn compile scope e s = .ok (e', free) t) :
    Numbers s.parameters t.parameters (e.bodies.flatMap readingOrder) e.marks e'.marks := by
  have hcs : ∀ {es' free t}, bindListIn compile scope e.children s = .ok (es', free) t →
      Numbers s.parameters t.parameters ((bodiesOf e.children).flatMap readingOrder)
        (marksOf e.children) (marksOf es') :=
    fun hl => bindListIn_numbers ih hl
  cases bindIn_ok h with
  | column hb => exact .refl _ _
  | pending hp =>
    obtain ⟨outer, -, hp, -⟩ := compilePending_ok hp
    have := hcompile _ _ _ _ _ hp
    simpa [marks_mk, bodies_mk, children, planNodes, mark?, body?] using this
  | call hf ha =>
    have := hcs ha
    simpa [marks_mk, bodies_mk, children, planNodes, mark?, body?] using this
  | node _ cs hk hlen hl =>
    have hbody : e.body? = none := by
      obtain ⟨kind, fragment, type⟩ := e
      cases kind <;> first | rfl | cases hk
    have hm := hcs hl
    rw [bodies_eq, marks_eq, marks_withChildren hlen, hplan, hbody]
    simpa using hm.trans (.refl _ e.mark?.toList)

/-- Binding numbers the question marks of the subqueries, and those outside stay. -/
theorem bindIn_numbers (hcompile : NumbersQueries compile) (hraw : Raw e)
    (h : bindIn compile scope e s = .ok (e', free) t) :
    Numbers s.parameters t.parameters (e.bodies.flatMap readingOrder) e.marks e'.marks := by
  induction hraw generalizing e' s t free with
  | @intro e hnode _ ih =>
    have hplan : e.planNodes = [] := by
      obtain ⟨kind, fragment, type⟩ := e
      cases kind <;> first | rfl | cases hnode
    exact bindNode_numbers hcompile hplan (fun c hc _ _ _ _ hb => ih c hc hb) h

theorem resolveWith_numbers (hcompile : NumbersQueries compile) (hraw : Raw e)
    (h : resolveWith compile scope e s = .ok e' t) :
    Numbers s.parameters t.parameters (e.bodies.flatMap readingOrder) e.marks e'.marks := by
  obtain ⟨b, hb, hi⟩ := resolveWith_ok h
  rw [infer_marks hi]
  exact bindIn_numbers hcompile hraw hb

/-- A list of rows, each of which is read by itself. -/
theorem resolveRows_numbers {rows : List Expr} {fragment : Fragment}
    (hcompile : NumbersQueries compile) (hraw : ∀ row ∈ rows, row.Raw)
    (h : resolveWith compile scope (untyped (.values rows) fragment) s = .ok e' t) :
    Numbers s.parameters t.parameters ((bodiesOf rows).flatMap readingOrder) (marksOf rows)
      e'.marks := by
  obtain ⟨b, hb, hi⟩ := resolveWith_ok h
  rw [infer_marks hi]
  have hn := bindNode_numbers (e := untyped (.values rows) fragment) hcompile rfl
    (fun row hrow _ _ _ _ hb => bindIn_numbers hcompile (hraw row hrow) hb) hb
  simpa [untyped, marks_mk, bodies_mk, children, planNodes, mark?, body?] using hn

theorem resolveConditionWith_numbers (hcompile : NumbersQueries compile) (hraw : Raw e)
    (h : resolveConditionWith compile scope e s = .ok e' t) :
    Numbers s.parameters t.parameters (e.bodies.flatMap readingOrder) e.marks e'.marks := by
  obtain ⟨b, hb, hi⟩ := resolveConditionWith_ok h
  rw [inferCondition_marks hi]
  exact bindIn_numbers hcompile hraw hb

end Expr

end DataChange
